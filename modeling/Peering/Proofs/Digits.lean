import Mathlib
import Peering.Address.Text

/-!
Numbers as runs of digits. What is written in digits is read back, in every base up to sixteen, and
a text can say where a run of digits ends in it.
-/
namespace Peering.Text

/-- The text does not go on with a character of the class. -/
def Stops {α : Type} (p : α → Bool) (rest : List α) : Prop := ∀ c ∈ rest.head?, p c = false

section Runs
variable {α : Type} {p q : α → Bool} {cs rest : List α}

theorem stops_nil : Stops p [] := nofun

theorem stops_cons {c : α} : Stops p (c :: cs) ↔ p c = false := by simp [Stops]

theorem Stops.mono (h : Stops q rest) (hpq : ∀ c, p c = true → q c = true) : Stops p rest := by
  intro c hc
  have hq := h c hc
  cases hp : p c with
  | false => rfl
  | true => rw [hpq c hp] at hq; exact nomatch hq

theorem takeWhile_of_stops (h : Stops p rest) : rest.takeWhile p = [] := by
  cases rest with
  | nil => rfl
  | cons c cs => simp [stops_cons.mp h]

theorem dropWhile_of_stops (h : Stops p rest) : rest.dropWhile p = rest := by
  cases rest with
  | nil => rfl
  | cons c cs => simp [stops_cons.mp h]

theorem takeWhile_run (hcs : ∀ c ∈ cs, p c = true) (h : Stops p rest) :
    (cs ++ rest).takeWhile p = cs := by
  rw [List.takeWhile_append_of_pos hcs, takeWhile_of_stops h, List.append_nil]

theorem dropWhile_run (hcs : ∀ c ∈ cs, p c = true) (h : Stops p rest) :
    (cs ++ rest).dropWhile p = rest := by
  rw [List.dropWhile_append_of_pos hcs, dropWhile_of_stops h]

end Runs

theorem valueIn_concat (base : Nat) (ds : List Char) (d : Char) :
    valueIn base (ds ++ [d]) = base * valueIn base ds + digitValue d := by
  simp [valueIn]

theorem digitValue_digitChar : ∀ d < 16, digitValue d.digitChar = d := by decide

section Written
variable {base : Nat} (hb : 1 < base)
include hb

theorem forall_mem_toDigits {P : Char → Prop} (h : ∀ d < base, P d.digitChar) (n : Nat) :
    ∀ c ∈ Nat.toDigits base n, P c := by
  induction n using Nat.strongRecOn with
  | ind n ih =>
    rw [Nat.toDigits_eq_if hb]
    split
    · rename_i hn
      exact List.forall_mem_singleton.mpr (h n hn)
    · have smaller : n / base < n := Nat.div_lt_self (by omega) hb
      exact List.forall_mem_append.mpr ⟨ih _ smaller,
        List.forall_mem_singleton.mpr (h _ (Nat.mod_lt n (by omega)))⟩

theorem valueIn_toDigits (hb' : base ≤ 16) (n : Nat) :
    valueIn base (Nat.toDigits base n) = n := by
  induction n using Nat.strongRecOn with
  | ind n ih =>
    rw [Nat.toDigits_eq_if hb]
    split
    · rename_i hn
      simp [valueIn, digitValue_digitChar n (by omega)]
    · have smaller : n / base < n := Nat.div_lt_self (by omega) hb
      have last : n % base < 16 := Nat.lt_of_lt_of_le (Nat.mod_lt n (by omega)) hb'
      rw [valueIn_concat, ih _ smaller, digitValue_digitChar _ last, Nat.div_add_mod]

theorem head?_toDigits (hb' : base ≤ 16) {n : Nat} (hn : n ≠ 0) :
    (Nat.toDigits base n).head? ≠ some '0' := by
  induction n using Nat.strongRecOn with
  | ind n ih =>
    rw [Nat.toDigits_eq_if hb]
    split
    · have nonzero : ∀ d < 16, d ≠ 0 → d.digitChar ≠ '0' := by decide
      simpa using nonzero n (by omega) hn
    · have smaller : n / base < n := Nat.div_lt_self (by omega) hb
      have positive : n / base ≠ 0 := by
        have := Nat.div_pos (a := n) (b := base) (by omega) (by omega)
        omega
      rw [List.head?_append_of_ne_nil _ Nat.toDigits_ne_nil]
      exact ih _ smaller positive

end Written

/-- The digits spell the number, in at most so many places. Zeros may lead. -/
structure Spells (base most : Nat) (isDigit : Char → Bool) (ds : List Char) (n : Nat) : Prop where
  some : ds ≠ []
  short : ds.length ≤ most
  digits : ∀ c ∈ ds, isDigit c = true
  value : valueIn base ds = n

theorem Spells.number {base most bound n : Nat} {isDigit : Char → Bool} {ds rest : List Char}
    (h : Spells base most isDigit ds n) (hn : n < bound) (hrest : Stops isDigit rest) :
    Address.number base most bound isDigit (ds ++ rest) = .some (n, rest) := by
  unfold Address.number
  simp only [takeWhile_run h.digits hrest, dropWhile_run h.digits hrest, h.value]
  exact if_neg (not_or.mpr ⟨h.some, not_or.mpr ⟨Nat.not_lt.mpr h.short, Nat.not_le.mpr hn⟩⟩)

theorem Spells.natural {most bound n : Nat} {ds rest : List Char}
    (h : Spells 10 most Char.isDigit ds n) (hn : n < bound) (hrest : Stops Char.isDigit rest) :
    natural bound (ds ++ rest) = .some (n, rest) := by
  unfold Text.natural
  simp only [takeWhile_run h.digits hrest, dropWhile_run h.digits hrest, h.value]
  exact if_neg (not_or.mpr ⟨h.some, Nat.not_le.mpr hn⟩)

theorem spells_toDigits {base most n : Nat} {isDigit : Char → Bool} (hb : 1 < base)
    (hb' : base ≤ 16) (hm : 0 < most) (hn : n < base ^ most)
    (hd : ∀ d < base, isDigit d.digitChar = true) :
    Spells base most isDigit (Nat.toDigits base n) n where
  some := Nat.toDigits_ne_nil
  short := (Nat.length_toDigits_le_iff hb hm).mpr hn
  digits := forall_mem_toDigits hb hd n
  value := valueIn_toDigits hb hb' n

end Peering.Text
