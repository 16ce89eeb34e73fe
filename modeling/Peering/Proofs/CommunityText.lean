import Peering.Proofs.Faithful
import Peering.Proofs.PatternText

/-!
How communities may be written: their fields with colons between them, or with commas between them
in parentheses, where spaces and tabs may stand on both sides of a field. A text is read exactly if
it is one of these, white space at both ends aside, and as the community that it says.
-/
namespace Peering
open Peering.Text

/-- Digits that stand for a number below a bound. Any number of zeros may lead. -/
structure Numeral (bound : Nat) (ds : List Char) (n : Nat) : Prop where
  some : ds ≠ []
  digits : ∀ c ∈ ds, c.isDigit = true
  value : valueIn 10 ds = n
  small : n < bound

def Numeral16 (ds : List Char) (n : UInt16) : Prop := Numeral 65536 ds n.toNat

def Numeral32 (ds : List Char) (n : UInt32) : Prop := Numeral 4294967296 ds n.toNat

def Spaces (cs : List Char) : Prop := ∀ c ∈ cs, isSpace c = true

/-- What follows the parenthesis or a comma of a tuple: fields with spaces and tabs on both sides,
each with a comma behind it or, the last one, with the closing parenthesis. -/
inductive TupleFrom : List (List Char) → List Char → Prop
  | last {before field after : List Char} (hb : Spaces before) (ha : Spaces after) :
    TupleFrom [field] (before ++ (field ++ (after ++ [')'])))
  | more {before field after cs : List Char} {fields : List (List Char)} (hb : Spaces before)
    (ha : Spaces after) (h : TupleFrom fields cs) :
    TupleFrom (field :: fields) (before ++ (field ++ (after ++ ',' :: cs)))

def FieldsWritten (fields : List (List Char)) (cs : List Char) : Prop :=
  cs = [':'].intercalate fields ∨ ∃ rest, cs = '(' :: rest ∧ TupleFrom fields rest

def Community.Written (cs : List Char) (c : Community) : Prop :=
  ∃ a b, Numeral16 a c.admin ∧ Numeral16 b c.value ∧ FieldsWritten [a, b] cs

def ExtendedCommunity.Written (cs : List Char) (c : ExtendedCommunity) : Prop :=
  ∃ a b, Numeral32 a c.admin ∧ Numeral32 b c.value ∧ FieldsWritten [c.kind.chars, a, b] cs

def LargeCommunity.Written (cs : List Char) (c : LargeCommunity) : Prop :=
  ∃ a b d, Numeral32 a c.admin ∧ Numeral32 b c.function ∧ Numeral32 d c.value ∧
    FieldsWritten [a, b, d] cs

section Scanners
variable {α β : Type} {cs rest : List Char}

theorem stops_dropWhile {p : Char → Bool} (cs : List Char) : Stops p (cs.dropWhile p) := by
  intro c hc
  have := List.head?_dropWhile_not p cs
  rw [hc] at this
  exact this

theorem natural_eq_some {bound n : Nat} :
    natural bound cs = some (n, rest) ↔
      ∃ ds, Numeral bound ds n ∧ cs = ds ++ rest ∧ Stops Char.isDigit rest := by
  constructor
  · intro h
    simp only [natural] at h
    split at h
    · cases h
    · rename_i hds
      obtain ⟨hne, hsmall⟩ := not_or.mp hds
      obtain ⟨rfl, rfl⟩ := Prod.mk.inj (Option.some.inj h)
      refine ⟨_, ⟨hne, fun c hc => ?_, rfl, Nat.not_le.mp hsmall⟩,
        List.takeWhile_append_dropWhile.symm, stops_dropWhile cs⟩
      exact List.mem_takeWhile_imp hc
  · rintro ⟨ds, ⟨hne, digits, rfl, small⟩, rfl, hrest⟩
    simp only [natural, takeWhile_run digits hrest, dropWhile_run digits hrest]
    exact if_neg (not_or.mpr ⟨hne, Nat.not_le.mpr small⟩)

theorem char_eq_some {c : Char} {u : Unit} : char c cs = some (u, rest) ↔ cs = c :: rest := by
  cases cs with
  | nil => simp [char]
  | cons d cs =>
    rw [char]
    split <;> simp_all

/-- A scanner of fields takes what a field may be from the front, if no digit follows. -/
structure Reads (s : Scanner α) (p : List Char → α → Prop) : Prop where
  sound : ∀ {cs a rest}, s cs = some (a, rest) → ∃ w, p w a ∧ cs = w ++ rest
  complete : ∀ {w a rest}, p w a → Stops Char.isDigit rest → s (w ++ rest) = some (a, rest)
  /-- A field starts with no blank and no parenthesis. -/
  front : ∀ {w a}, p w a → ∃ c cs, w = c :: cs ∧ isSpace c = false ∧ c ≠ '('

theorem Numeral.front {bound n : Nat} {ds : List Char} (h : Numeral bound ds n) :
    ∃ c cs, ds = c :: cs ∧ isSpace c = false ∧ c ≠ '(' := by
  obtain ⟨c, cs, rfl⟩ := List.exists_cons_of_ne_nil h.some
  have hc := h.digits c List.mem_cons_self
  refine ⟨c, cs, rfl, ?_, ?_⟩
  · cases hs : isSpace c with
    | false => rfl
    | true =>
      simp only [isSpace, Bool.or_eq_true, decide_eq_true_eq] at hs
      obtain rfl | rfl := hs <;> exact absurd hc (by decide)
  · rintro rfl
    exact absurd hc (by decide)

theorem reads_natural {bound : Nat} {ofNat : Nat → α} {toNat : α → Nat}
    (small : ∀ n < bound, toNat (ofNat n) = n) (back : ∀ a, ofNat (toNat a) = a) :
    Reads (fun cs => (natural bound cs).map fun (n, cs) => (ofNat n, cs))
      fun ds a => Numeral bound ds (toNat a) where
  sound h := by
    obtain ⟨⟨n, rest⟩, hn, h⟩ := Option.map_eq_some_iff.mp h
    obtain ⟨rfl, rfl⟩ := Prod.mk.inj h
    obtain ⟨ds, hds, hcs, _⟩ := natural_eq_some.mp hn
    refine ⟨ds, ?_, hcs⟩
    rwa [small n hds.small]
  complete h hrest := by
    dsimp only
    rw [natural_eq_some.mpr ⟨_, h, rfl, hrest⟩, Option.map_some, back]
  front h := h.front

theorem reads16 : Reads scan16 Numeral16 :=
  reads_natural (fun _ h => UInt16.toNat_ofNat_of_lt' h) fun _ => UInt16.ofNat_toNat

theorem reads32 : Reads scan32 Numeral32 :=
  reads_natural (fun _ h => UInt32.toNat_ofNat_of_lt' h) fun _ => UInt32.ofNat_toNat

theorem readsKind : Reads ExtendedKind.scan fun w k => w = k.chars where
  sound {cs k rest} h := by
    unfold ExtendedKind.scan at h
    split at h
    · obtain ⟨rfl, rfl⟩ := Prod.mk.inj (Option.some.inj h)
      exact ⟨_, rfl, rfl⟩
    · obtain ⟨rfl, rfl⟩ := Prod.mk.inj (Option.some.inj h)
      exact ⟨_, rfl, rfl⟩
    · exact nomatch h
  complete {_ k _} h _ := by
    rw [h]
    cases k <;> rfl
  front {w k} h := by
    rw [h]
    cases k <;> exact ⟨_, _, rfl, by decide, by decide⟩

theorem spaces_of_blanks (cs : List Char) : ∃ before, Spaces before ∧ cs = before ++ blanks cs :=
  ⟨cs.takeWhile isSpace, fun _ hc => List.mem_takeWhile_imp hc,
    List.takeWhile_append_dropWhile.symm⟩

theorem TupleFrom.of_blanks {fields : List (List Char)} (h : TupleFrom fields (blanks cs)) :
    TupleFrom fields cs := by
  obtain ⟨before, hbefore, hcs⟩ := spaces_of_blanks cs
  have joined {after : List Char} (ha : Spaces after) : Spaces (before ++ after) :=
    List.forall_mem_append.mpr ⟨hbefore, ha⟩
  rw [hcs]
  generalize blanks cs = rest at h
  cases h with
  | last hb ha => rw [← List.append_assoc]; exact .last (joined hb) ha
  | more hb ha h => rw [← List.append_assoc]; exact .more (joined hb) ha h

/-- A scanner of the colon form reads the fields of which the predicate says what they spell. -/
def ReadsColons (k : Scanner β) (P : List (List Char) → β → Prop) : Prop :=
  ∀ cs b, k cs = some (b, []) ↔ ∃ fields, P fields b ∧ cs = [':'].intercalate fields

def ReadsTuple (k : Scanner β) (P : List (List Char) → β → Prop) : Prop :=
  ∀ cs b, k (blanks cs) = some (b, []) ↔ ∃ fields, P fields b ∧ TupleFrom fields cs

def SpellsLast (p : List Char → α → Prop) (f : α → β) (fields : List (List Char)) (b : β) : Prop :=
  ∃ w a, p w a ∧ fields = [w] ∧ f a = b

def SpellsMore (p : List Char → α → Prop) (P : α → List (List Char) → β → Prop)
    (fields : List (List Char)) (b : β) : Prop :=
  ∃ w a ws, p w a ∧ P a ws b ∧ fields = w :: ws

theorem SpellsLast.ne_nil {p : List Char → α → Prop} {f : α → β} {fields : List (List Char)} {b : β}
    (h : SpellsLast p f fields b) : fields ≠ [] := by
  obtain ⟨_, _, _, rfl, _⟩ := h
  exact List.cons_ne_nil _ _

theorem SpellsMore.ne_nil {p : List Char → α → Prop} {P : α → List (List Char) → β → Prop}
    {fields : List (List Char)} {b : β} (h : SpellsMore p P fields b) : fields ≠ [] := by
  obtain ⟨_, _, _, _, _, rfl⟩ := h
  exact List.cons_ne_nil _ _

section Forms
variable {s : Scanner α} {p : List Char → α → Prop} {k : α → Scanner β}
  {P : α → List (List Char) → β → Prop} (hs : Reads s p)
include hs

theorem Reads.paren (cs : List Char) : s ('(' :: cs) = none := by
  rw [Option.eq_none_iff_forall_ne_some]
  rintro ⟨a, rest⟩ h
  obtain ⟨w, hw, hcs⟩ := hs.sound h
  obtain ⟨c, w', rfl, _, hc⟩ := hs.front hw
  exact hc (List.cons.inj hcs).1.symm

theorem blanks_field {w after : List Char} {a : α} (hw : p w a) {before : List Char}
    (hb : Spaces before) : blanks (before ++ (w ++ after)) = w ++ after := by
  obtain ⟨c, cs, rfl, hc, _⟩ := hs.front hw
  exact Extent.blanks_run hb (stops_cons.mpr hc)

theorem ReadsColons.last (f : α → β) :
    ReadsColons (fun cs => do
      let (a, cs) ← s cs
      return (f a, cs)) (SpellsLast p f) := by
  intro cs b
  simp only [Option.bind_eq_bind, Option.bind_eq_some_iff, Option.pure_def, Option.some.injEq,
    Prod.mk.injEq, Prod.exists]
  constructor
  · rintro ⟨a, rest, ha, hb, rfl⟩
    obtain ⟨w, hw, rfl⟩ := hs.sound ha
    exact ⟨[w], ⟨w, a, hw, rfl, hb⟩, by simp⟩
  · rintro ⟨_, ⟨w, a, hw, rfl, hb⟩, rfl⟩
    exact ⟨a, [], by simpa using hs.complete hw stops_nil, hb, rfl⟩

theorem ReadsColons.more (hne : ∀ a ws b, P a ws b → ws ≠ []) (hk : ∀ a, ReadsColons (k a) (P a)) :
    ReadsColons (fun cs => do
      let (a, cs) ← s cs
      let ((), cs) ← char ':' cs
      k a cs) (SpellsMore p P) := by
  intro cs b
  simp only [Option.bind_eq_bind, Option.bind_eq_some_iff, Prod.exists]
  constructor
  · rintro ⟨a, rest, ha, _, rest', hcolon, hrest⟩
    obtain ⟨w, hw, rfl⟩ := hs.sound ha
    obtain rfl := char_eq_some.mp hcolon
    obtain ⟨ws, hws, rfl⟩ := (hk a _ _).mp hrest
    refine ⟨w :: ws, ⟨w, a, ws, hw, hws, rfl⟩, ?_⟩
    rw [List.intercalate_cons_of_ne_nil (hne a ws b hws), List.append_assoc, List.singleton_append]
  · rintro ⟨_, ⟨w, a, ws, hw, hws, rfl⟩, rfl⟩
    have colon (cs : List Char) : Stops Char.isDigit (':' :: cs) := stops_cons.mpr (by decide)
    rw [List.intercalate_cons_of_ne_nil (hne a ws b hws), List.append_assoc, List.singleton_append]
    exact ⟨a, _, hs.complete hw (colon _), (), _, char_eq_some.mpr rfl,
      (hk a _ _).mpr ⟨ws, hws, rfl⟩⟩

theorem ReadsTuple.last (f : α → β) :
    ReadsTuple (fun cs => do
      let (a, cs) ← s cs
      let ((), cs) ← closing cs
      return (f a, cs)) (SpellsLast p f) := by
  intro cs b
  simp only [Option.bind_eq_bind, Option.bind_eq_some_iff, Option.pure_def, Option.some.injEq,
    Prod.mk.injEq, Prod.exists]
  constructor
  · rintro ⟨a, rest, ha, _, rest', hclosing, hb, rfl⟩
    obtain ⟨w, hw, hcs⟩ := hs.sound ha
    obtain ⟨after, hafter, hrest⟩ := spaces_of_blanks rest
    rw [char_eq_some.mp hclosing] at hrest
    have written : TupleFrom [w] (blanks cs) := by
      rw [hcs, hrest]
      exact .last (List.forall_mem_nil _) hafter
    exact ⟨[w], ⟨w, a, hw, rfl, hb⟩, written.of_blanks⟩
  · rintro ⟨_, ⟨w, a, hw, rfl, hb⟩, h⟩
    cases h with
    | @last before _ after hbefore hafter =>
      have paren : Stops isSpace [')'] := stops_cons.mpr (by decide)
      have digits : Stops Char.isDigit (after ++ [')']) :=
        Extent.stops_isDigit_spaces hafter (stops_cons.mpr (by decide))
      refine ⟨a, after ++ [')'], ?_, (), [], ?_, hb, rfl⟩
      · rw [blanks_field hs hw hbefore]
        exact hs.complete hw digits
      · rw [closing, Extent.blanks_run hafter paren]
        exact char_eq_some.mpr rfl
    | more _ _ h => exact nomatch h

theorem ReadsTuple.more (hne : ∀ a ws b, P a ws b → ws ≠ []) (hk : ∀ a, ReadsTuple (k a) (P a)) :
    ReadsTuple (fun cs => do
      let (a, cs) ← s cs
      let ((), cs) ← comma cs
      k a cs) (SpellsMore p P) := by
  intro cs b
  simp only [comma, Option.bind_eq_bind, Option.bind_eq_some_iff, Option.pure_def,
    Option.some.injEq, Prod.mk.injEq, Prod.exists]
  constructor
  · rintro ⟨a, rest, ha, _, _, ⟨_, rest', hcomma, _, rfl⟩, hrest⟩
    obtain ⟨w, hw, hcs⟩ := hs.sound ha
    obtain ⟨after, hafter, hafter'⟩ := spaces_of_blanks rest
    rw [char_eq_some.mp hcomma] at hafter'
    obtain ⟨ws, hws, h⟩ := (hk a _ _).mp hrest
    have written : TupleFrom (w :: ws) (blanks cs) := by
      rw [hcs, hafter']
      exact .more (List.forall_mem_nil _) hafter h
    exact ⟨w :: ws, ⟨w, a, ws, hw, hws, rfl⟩, written.of_blanks⟩
  · rintro ⟨_, ⟨w, a, ws, hw, hws, rfl⟩, h⟩
    cases h with
    | last _ _ => exact absurd rfl (hne a [] b hws)
    | @more before _ after rest _ hbefore hafter h =>
      have mark (cs : List Char) : Stops isSpace (',' :: cs) := stops_cons.mpr (by decide)
      have digits (cs : List Char) : Stops Char.isDigit (after ++ ',' :: cs) :=
        Extent.stops_isDigit_spaces hafter (stops_cons.mpr (by decide))
      refine ⟨a, after ++ ',' :: rest, ?_, (), blanks rest, ⟨(), rest, ?_, trivial, rfl⟩, ?_⟩
      · rw [blanks_field hs hw hbefore]
        exact hs.complete hw (digits rest)
      · rw [Extent.blanks_run hafter (mark rest)]
        exact char_eq_some.mpr rfl
      · exact (hk a _ _).mpr ⟨ws, hws, h⟩

end Forms

theorem whole_eq_some {s : Scanner α} {a : α} : whole s cs = some a ↔ s cs = some (a, []) := by
  rw [whole]
  split
  · rename_i h
    simp [h]
  · rename_i h
    exact ⟨fun hs => absurd hs (Option.some_ne_none a).symm, fun hs => absurd hs (h a)⟩

/-- A literal in two forms that spell the same is read exactly if it is written in one of them. None
in the colon form starts with a parenthesis, so neither form gets in the way of the other. -/
theorem whole_either_eq_some {colons fields : Scanner β} {P : List (List Char) → β → Prop}
    (hcolons : ReadsColons colons P) (hfields : ReadsTuple fields P)
    (apart : ∀ cs, colons ('(' :: cs) = none) {b : β} :
    whole (either colons fun cs => do
      let ((), cs) ← opening cs
      fields cs) cs = some b ↔ ∃ ws, P ws b ∧ FieldsWritten ws cs := by
  rw [whole_eq_some, either]
  by_cases hparen : ∃ rest, cs = '(' :: rest
  · obtain ⟨rest, rfl⟩ := hparen
    have opened : opening ('(' :: rest) = some ((), blanks rest) := rfl
    have noColons : ¬ ∃ ws, P ws b ∧ '(' :: rest = [':'].intercalate ws := by
      rw [← hcolons, apart]
      exact (Option.some_ne_none _).symm
    rw [apart, opened]
    refine (hfields rest b).trans (exists_congr fun ws => and_congr_right fun hws => ?_)
    rw [FieldsWritten, or_iff_right fun h => noColons ⟨ws, hws, h⟩]
    simp
  · have closed : opening cs = none := by
      rw [Option.eq_none_iff_forall_ne_some]
      intro x h
      obtain ⟨y, hy, _⟩ := Option.bind_eq_some_iff.mp h
      exact hparen ⟨y.2, char_eq_some.mp hy⟩
    rw [closed, Option.bind_eq_bind, Option.bind_none, Option.orElse_eq_orElse,
      Option.orElse_eq_or, Option.or_none]
    refine (hcolons cs b).trans (exists_congr fun ws => and_congr_right fun _ => ?_)
    rw [FieldsWritten, or_iff_left]
    rintro ⟨rest, hrest, _⟩
    exact hparen ⟨rest, hrest⟩

end Scanners

theorem Community.parse?_eq_some {s : String} {c : Community} :
    parse? s = some c ↔ Written (trim s.toList) c := by
  let Spelled := SpellsMore Numeral16 fun a => SpellsLast Numeral16 (mk a)
  have colons : ReadsColons scanColon Spelled :=
    .more reads16 (fun _ _ _ h => h.ne_nil) fun a => .last reads16 (mk a)
  have apart (cs : List Char) : scanColon ('(' :: cs) = none := by
    rw [scanColon, reads16.paren]
    rfl
  refine Iff.trans (whole_either_eq_some colons
    (.more reads16 (fun _ _ _ h => h.ne_nil) fun a => .last reads16 (mk a)) apart) ⟨?_, ?_⟩
  · rintro ⟨_, ⟨x, a, _, hx, ⟨y, b, hy, rfl, rfl⟩, rfl⟩, h⟩
    exact ⟨x, y, hx, hy, h⟩
  · rintro ⟨x, y, hx, hy, h⟩
    exact ⟨_, ⟨x, _, _, hx, ⟨y, _, hy, rfl, rfl⟩, rfl⟩, h⟩

section ThreeFields
variable {α β γ δ : Type} {s₁ : Scanner α} {s₂ : Scanner β} {s₃ : Scanner γ}
  {p₁ : List Char → α → Prop} {p₂ : List Char → β → Prop} {p₃ : List Char → γ → Prop}

theorem whole_three_eq_some (h₁ : Reads s₁ p₁) (h₂ : Reads s₂ p₂) (h₃ : Reads s₃ p₃)
    (f : α → β → γ → δ) {cs : List Char} {d : δ} :
    whole (either
        (fun cs => do
          let (a, cs) ← s₁ cs
          let ((), cs) ← char ':' cs
          let (b, cs) ← s₂ cs
          let ((), cs) ← char ':' cs
          let (c, cs) ← s₃ cs
          return (f a b c, cs))
        fun cs => do
          let ((), cs) ← opening cs
          let (a, cs) ← s₁ cs
          let ((), cs) ← comma cs
          let (b, cs) ← s₂ cs
          let ((), cs) ← comma cs
          let (c, cs) ← s₃ cs
          let ((), cs) ← closing cs
          return (f a b c, cs)) cs = some d ↔
      ∃ a b c x y z, p₁ x a ∧ p₂ y b ∧ p₃ z c ∧ f a b c = d ∧ FieldsWritten [x, y, z] cs := by
  refine (whole_either_eq_some
    (.more h₁ (fun _ _ _ h => h.ne_nil) fun a => .more h₂ (fun _ _ _ h => h.ne_nil) fun b =>
      .last h₃ (f a b))
    (.more h₁ (fun _ _ _ h => h.ne_nil) fun a => .more h₂ (fun _ _ _ h => h.ne_nil) fun b =>
      .last h₃ (f a b)) fun cs => ?_).trans ⟨?_, ?_⟩
  · rw [h₁.paren]
    rfl
  · rintro ⟨_, ⟨x, a, _, hx, ⟨y, b, _, hy, ⟨z, c, hz, rfl, rfl⟩, rfl⟩, rfl⟩, h⟩
    exact ⟨a, b, c, x, y, z, hx, hy, hz, rfl, h⟩
  · rintro ⟨a, b, c, x, y, z, hx, hy, hz, rfl, h⟩
    exact ⟨_, ⟨x, a, _, hx, ⟨y, b, _, hy, ⟨z, c, hz, rfl, rfl⟩, rfl⟩, rfl⟩, h⟩

end ThreeFields

theorem ExtendedCommunity.parse?_eq_some {s : String} {c : ExtendedCommunity} :
    parse? s = some c ↔ Written (trim s.toList) c := by
  refine (whole_three_eq_some readsKind reads32 reads32 mk).trans ⟨?_, ?_⟩
  · rintro ⟨k, a, b, _, y, z, rfl, hy, hz, rfl, h⟩
    exact ⟨y, z, hy, hz, h⟩
  · rintro ⟨y, z, hy, hz, h⟩
    exact ⟨_, _, _, _, y, z, rfl, hy, hz, rfl, h⟩

theorem LargeCommunity.parse?_eq_some {s : String} {c : LargeCommunity} :
    parse? s = some c ↔ Written (trim s.toList) c := by
  refine (whole_three_eq_some reads32 reads32 reads32 mk).trans ⟨?_, ?_⟩
  · rintro ⟨a, b, d, x, y, z, hx, hy, hz, rfl, h⟩
    exact ⟨x, y, z, hx, hy, hz, h⟩
  · rintro ⟨x, y, z, hx, hy, hz, h⟩
    exact ⟨_, _, _, x, y, z, hx, hy, hz, rfl, h⟩


section Texts

theorem numeral_toDigits {bound n : Nat} (h : n < bound) : Numeral bound (Nat.toDigits 10 n) n where
  some := Nat.toDigits_ne_nil
  digits := forall_mem_toDigits (by decide) (by decide) n
  value := valueIn_toDigits (by decide) (by decide) n
  small := h

theorem numeral_chars16 (n : UInt16) : Numeral16 (chars16 n) n := numeral_toDigits n.toNat_lt

theorem numeral_chars32 (n : UInt32) : Numeral32 (chars32 n) n := numeral_toDigits n.toNat_lt

theorem spaces_nil : Spaces [] := List.forall_mem_nil _

theorem spaces_blank : Spaces [' '] := List.forall_mem_singleton.mpr rfl

theorem tupleFrom_intercalate {fields : List (List Char)} (h : fields ≠ []) {before : List Char}
    (hb : Spaces before) :
    TupleFrom fields (before ++ ([',', ' '].intercalate fields ++ [')'])) := by
  induction fields generalizing before with
  | nil => exact absurd rfl h
  | cons w ws ih =>
    by_cases hws : ws = []
    · rw [hws, List.intercalate_singleton]
      exact .last hb spaces_nil
    · rw [List.intercalate_cons_of_ne_nil hws, List.append_assoc, List.append_assoc]
      exact .more hb spaces_nil (ih hws spaces_blank)

theorem fieldsWritten_tuple {fields : List (List Char)} (h : fields ≠ []) :
    FieldsWritten fields (tuple fields) :=
  .inr ⟨_, rfl, tupleFrom_intercalate h spaces_nil⟩

theorem trim_tuple (fields : List (List Char)) : trim (tuple fields) = tuple fields := by
  have front : Stops isBlank (tuple fields) := stops_cons.mpr (by decide)
  have back : Stops isBlank (tuple fields).reverse := by
    rw [tuple, List.reverse_append]
    exact stops_cons.mpr (by decide)
  have trimmed := trim_run (List.forall_mem_nil _) (List.forall_mem_nil _) (List.cons_ne_nil _ _)
    front back
  rwa [List.nil_append, List.append_nil] at trimmed

theorem Community.parse?_text (c : Community) : parse? c.text = some c := by
  rw [parse?_eq_some, text, String.toList_ofList, chars, trim_tuple]
  exact ⟨_, _, numeral_chars16 _, numeral_chars16 _, fieldsWritten_tuple (List.cons_ne_nil _ _)⟩

theorem ExtendedCommunity.parse?_text (c : ExtendedCommunity) : parse? c.text = some c := by
  rw [parse?_eq_some, text, String.toList_ofList, chars, trim_tuple]
  exact ⟨_, _, numeral_chars32 _, numeral_chars32 _, fieldsWritten_tuple (List.cons_ne_nil _ _)⟩

namespace LargeCommunity

theorem parse?_text (c : LargeCommunity) : parse? c.text = some c := by
  rw [parse?_eq_some, text, String.toList_ofList, chars, trim_tuple]
  exact ⟨_, _, _, numeral_chars32 _, numeral_chars32 _, numeral_chars32 _,
    fieldsWritten_tuple (List.cons_ne_nil _ _)⟩

theorem isBlank_colonChars (c : LargeCommunity) : ∀ d ∈ c.colonChars, isBlank d = false := by
  have digits (n : UInt32) : ∀ d ∈ chars32 n, isBlank d = false := fun d hd =>
    Pattern.isBlank_of_isNetChar
      (Network.isNetChar_of_isDigit d ((numeral_chars32 n).digits d hd))
  simp only [colonChars, List.intercalate_cons_cons, List.intercalate_singleton,
    List.forall_mem_append, List.forall_mem_singleton]
  exact ⟨⟨digits _, by decide⟩, ⟨digits _, by decide⟩, digits _⟩

theorem parse?_colonText (c : LargeCommunity) : parse? c.colonText = some c := by
  have unblank := c.isBlank_colonChars
  have ne : c.colonChars ≠ [] := by simp [colonChars]
  have trimmed := trim_run (List.forall_mem_nil _) (List.forall_mem_nil _) ne
    (fun d hd => unblank d (List.mem_of_mem_head? hd))
    fun d hd => unblank d (List.mem_reverse.mp (List.mem_of_mem_head? hd))
  rw [List.nil_append, List.append_nil] at trimmed
  rw [parse?_eq_some, colonText, String.toList_ofList, trimmed]
  exact ⟨_, _, _, numeral_chars32 _, numeral_chars32 _, numeral_chars32 _, .inl rfl⟩

open Peering.Document (Codec Printed)

theorem read_write (c : LargeCommunity) :
    Codec.largeCommunity.read (Codec.largeCommunity.write c) = .ok c := by
  have printed : Printed (Codec.largeCommunity.encode c) := .text c.colonText
  rw [Document.read_eq_ok, Codec.write, Document.read_write printed]
  refine ⟨Codec.decode_parsed_iff.mpr ⟨_, _, rfl, Document.read_ofText _, ?_⟩, rfl⟩
  rw [parse?_colonText]
  rfl

end LargeCommunity

end Texts

/-- Reading communities. A text is read exactly if, without the white space at its ends, it is one
of the two forms of a community, and as that community; so every community is read back from its
text, and a large one from the colon form as well, on its own or in a document. -/
theorem communities_read_iff_written :
    (∀ s c, LargeCommunity.parse? s = some c ↔ LargeCommunity.Written (trim s.toList) c) ∧
      (∀ s c, Community.parse? s = some c ↔ Community.Written (trim s.toList) c) ∧
      (∀ s c, ExtendedCommunity.parse? s = some c ↔ ExtendedCommunity.Written (trim s.toList) c) ∧
      (∀ c : LargeCommunity, LargeCommunity.parse? c.text = some c) ∧
      (∀ c : Community, Community.parse? c.text = some c) ∧
      (∀ c : ExtendedCommunity, ExtendedCommunity.parse? c.text = some c) ∧
      ∀ c : LargeCommunity, LargeCommunity.parse? c.colonText = some c ∧
        Document.Codec.largeCommunity.encode c = .text (.ofText c.colonText) ∧
        Document.Codec.largeCommunity.read (Document.Codec.largeCommunity.write c) = .ok c :=
  ⟨fun _ _ => LargeCommunity.parse?_eq_some, fun _ _ => Community.parse?_eq_some,
    fun _ _ => ExtendedCommunity.parse?_eq_some, LargeCommunity.parse?_text,
    Community.parse?_text, ExtendedCommunity.parse?_text,
    fun c => ⟨c.parse?_colonText, rfl, c.read_write⟩⟩

end Peering
