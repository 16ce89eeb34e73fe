import Peering.Proofs.Faithful
import Peering.Proofs.OrderFree

/-!
Numbers as keys of a map. There is one way to write each of them, and an escape is none.
-/
namespace Peering.Document
open Peering.Text (digitValue)

section Digits

theorem digitsValue_concat (ds : List Byte) (d : Byte) :
    digitsValue (ds ++ [d]) = 10 * digitsValue ds + (d.toNat - 0x30) := by
  simp [digitsValue]

theorem takeDigits_all {n m : Nat} {ds : List Byte} (h : takeDigits n ds = (m, 0)) :
    m = ds.foldl (fun n d => 10 * n + (d.toNat - 0x30)) n := by
  induction ds generalizing n with
  | nil => exact (Prod.mk.inj h).1.symm
  | cons d ds ih =>
    rw [takeDigits] at h
    split at h
    · exact ih h
    · simp at h

theorem digitByte_digitChar : ∀ n < 10, digitByte n.digitChar = UInt8.ofNat (n + 48) := by decide

theorem eq_whole_of_unpadded {ds : List Byte} (digits : ∀ b ∈ ds, isDigit b = true) (some : ds ≠ [])
    (unpadded : ∀ b bs, ds ≠ 0x30 :: b :: bs) : ds = (Numeral.ofNat (digitsValue ds)).whole := by
  induction ds using List.reverseRecOn with
  | nil => exact absurd rfl some
  | append_singleton ds d ih =>
    have bounds : 48 ≤ d.toNat ∧ d.toNat ≤ 57 := by
      have digit := digits d (by simp)
      simpa [isDigit, UInt8.le_iff_toNat_le] using digit
    have last : digitByte (d.toNat - 48).digitChar = d := by
      rw [digitByte_digitChar _ (by omega), Nat.sub_add_cancel bounds.1, UInt8.ofNat_toNat]
    rw [whole_ofNat, digitsValue_concat, Nat.toDigits_eq_if (by decide)]
    by_cases hds : ds = []
    · subst hds
      have small : 10 * digitsValue [] + (d.toNat - 48) < 10 := by simp [digitsValue]; omega
      rw [if_pos small]
      simp [digitsValue, last]
    · have first := ih (fun b hb => digits b (List.mem_append_left _ hb)) hds (by
        rintro b bs rfl
        exact unpadded b (bs ++ [d]) rfl)
      have positive : digitsValue ds ≠ 0 := by
        intro hzero
        rw [hzero] at first
        have : ds = [0x30] := first
        subst this
        exact unpadded d [] rfl
      have quotient : (10 * digitsValue ds + (d.toNat - 48)) / 10 = digitsValue ds := by omega
      have remainder : (10 * digitsValue ds + (d.toNat - 48)) % 10 = d.toNat - 48 := by omega
      rw [if_neg (by omega), quotient, remainder, List.map_append, ← whole_ofNat, ← first,
        List.map_singleton, last]

end Digits

theorem real_ne_integer {n : Numeral} {i : Int} : n.real ≠ .ok (.integer i) := by
  intro h
  unfold Numeral.real at h
  simp only at h
  split at h
  · split at h <;> simp at h
  · split at h
    · split at h <;> simp at h
    · split at h <;> simp at h

theorem plain_of_read {n : Numeral} {i : Int} (h : n.read = .ok (.integer i)) (hi : 0 ≤ i) :
    n = ⟨false, n.whole, none, none, none⟩ ∧ takeDigits 0 n.whole = (i.toNat, 0) := by
  obtain ⟨negative, whole, fraction, exponent, fault⟩ := n
  unfold Numeral.read at h
  simp only at h
  split at h
  · exact nomatch h
  · exact nomatch h
  · split at h
    · exact absurd h real_ne_integer
    · rename_i hplain
      have plain : fraction = none ∧ exponent = none := by
        cases fraction <;> cases exponent <;> first | exact ⟨rfl, rfl⟩ | exact absurd rfl hplain
      obtain ⟨rfl, rfl⟩ := plain
      split at h
      · exact absurd h real_ne_integer
      · rename_i hleft
        have taken : takeDigits 0 whole = ((takeDigits 0 whole).1, 0) :=
          Prod.ext rfl (Decidable.not_not.mp hleft)
        split at h
        · rename_i hsign
          obtain rfl := Number.integer.inj (Except.ok.inj h)
          rw [Bool.not_eq_true'] at hsign
          subst hsign
          exact ⟨rfl, taken⟩
        · split at h
          · exact absurd h real_ne_integer
          · rename_i hzero
            obtain rfl := Number.integer.inj (Except.ok.inj h)
            omega

section Reading

theorem readExponent_cases (n : Numeral) (bs : List Byte) :
    (readExponent n bs).2 = none ∨ (readExponent n bs).1.exponent ≠ none := by
  unfold readExponent
  split
  all_goals
    dsimp only
    split
    · exact .inl rfl
    · exact .inr nofun

theorem readScale_cases (n : Numeral) (bs : List Byte) : readScale n bs = (n, some bs) ∨
    (readScale n bs).2 = none ∨ (readScale n bs).1.fraction ≠ none ∨
      (readScale n bs).1.exponent ≠ none := by
  unfold readScale
  split
  · simp only
    split
    · exact .inr (.inl rfl)
    · split
      · exact .inr ((readExponent_cases _ _).imp_right .inr)
      · exact .inr ((readExponent_cases _ _).imp_right .inr)
      · exact .inr (.inr (.inl nofun))
  · exact .inr ((readExponent_cases _ _).imp_right .inr)
  · exact .inr ((readExponent_cases _ _).imp_right .inr)
  · exact .inl rfl

theorem readUnsigned_plain {negative : Bool} {bs ds rest : List Byte}
    (h : readUnsigned negative bs = (⟨false, ds, none, none, none⟩, some rest)) :
    negative = false ∧ bs = ds ++ rest ∧ (∀ b ∈ ds, isDigit b = true) ∧ ds ≠ [] ∧
      ∀ b bs, ds ≠ 0x30 :: b :: bs := by
  unfold readUnsigned at h
  simp only at h
  split at h
  · exact nomatch (Prod.mk.inj h).2
  · exact nomatch (Prod.mk.inj h).2
  · rename_i hnil hpadded
    obtain heq | hnone | hfraction | hexponent :=
      readScale_cases ⟨negative, bs.takeWhile isDigit, none, none, none⟩ (bs.dropWhile isDigit)
    · obtain ⟨hn, hrest⟩ := Prod.mk.inj (heq.symm.trans h)
      obtain ⟨hnegative, hds, _⟩ := Numeral.mk.inj hn
      obtain rfl := Option.some.inj hrest
      subst hds
      exact ⟨hnegative, (List.takeWhile_append_dropWhile).symm,
        List.all_eq_true.mp List.all_takeWhile, hnil, hpadded⟩
    · rw [h] at hnone
      exact nomatch hnone
    · rw [h] at hfraction
      exact absurd rfl hfraction
    · rw [h] at hexponent
      exact absurd rfl hexponent

theorem readNumber_plain {bs ds rest : List Byte}
    (h : readNumber bs = (⟨false, ds, none, none, none⟩, some rest)) :
    bs = ds ++ rest ∧ (∀ b ∈ ds, isDigit b = true) ∧ ds ≠ [] ∧ ∀ b bs, ds ≠ 0x30 :: b :: bs := by
  unfold readNumber at h
  split at h
  · exact nomatch (readUnsigned_plain h).1
  · exact (readUnsigned_plain h).2

end Reading

theorem eq_ofText_of_numberKey {q : Quoted} {n : UInt32} (closed : q.closed = true)
    (h : Codec.numberKey q = .ok n) : q = .ofText (toString n.toNat) := by
  unfold Codec.numberKey at h
  simp only [closed, if_true] at h
  split at h
  · split at h
    · obtain ⟨k, hk, h⟩ := bind_eq_ok.mp h
      split at h
      · rename_i hleft
        obtain rfl := Except.ok.inj h
        obtain ⟨m, i, hm, hread, ⟨hi, hsize⟩, rfl⟩ := Codec.decode_u32_iff.mp hk
        obtain rfl := Value.number.inj hm
        obtain ⟨plain, taken⟩ := plain_of_read hread hi
        have number : readNumber (q.raw ++ [0x22]) = (⟨false, _, none, none, none⟩, some [0x22]) :=
          Prod.ext plain hleft
        obtain ⟨hraw, digits, some, unpadded⟩ := readNumber_plain number
        have whole := eq_whole_of_unpadded digits some unpadded
        rw [digitsValue, ← takeDigits_all taken, ← List.append_cancel_right hraw] at whole
        have size : (UInt32.ofNat i.toNat).toNat = i.toNat :=
          UInt32.toNat_ofNat_of_lt hsize
        rw [size]
        cases q
        simp only at closed whole
        subst closed whole
        rw [← Codec.raw_ofNat]
        rfl
      · exact nomatch h
    · exact nomatch h
  · exact nomatch h

namespace Codec

def PlainKeys : Value → Prop
  | .object ms _ => ∀ m ∈ ms, 0x5c ∉ m.1.raw
  | _ => True

theorem unescape_plain {closed : Bool} {bs out : List Byte} (plain : 0x5c ∉ bs)
    (h : Quoted.unescape closed bs = .ok out) : out = bs := by
  fun_induction Quoted.unescape closed bs generalizing out with
  | case1 => exact (Except.ok.inj h).symm
  | case3 | case5 => exact absurd List.mem_cons_self plain
  | case9 b rest _ _ _ _ _ ih =>
    obtain ⟨tail, htail, h⟩ := bind_eq_ok.mp h
    obtain rfl := Except.ok.inj h
    rw [ih (fun hmem => plain (List.mem_cons_of_mem b hmem)) htail]
  | case2 | case4 | case6 | case7 | case8 => cases h

theorem raw_of_plain {q : Quoted} {s : String} (plain : 0x5c ∉ q.raw) (h : q.read = .ok s) :
    q.raw = ascii s := by
  obtain ⟨bytes, hbytes, h⟩ := bind_eq_ok.mp h
  obtain rfl := unescape_plain plain hbytes
  split at h
  · rename_i t ht
    obtain rfl := Except.ok.inj h
    unfold String.fromUTF8? at ht
    split at ht
    · rw [← Option.some.inj ht, ascii, toList_eq_data]
      rfl
    · exact nomatch ht
  · exact nomatch h

/-- However a key is written: without an escape, it is the number that it is elsewhere. -/
theorem numberKey_of_same {q r : Quoted} (same : q.Same r) (plain : 0x5c ∉ r.raw) {n : UInt32}
    (h : numberKey q = .ok n) : numberKey r = .ok n := by
  have digits : 0x5c ∉ (Quoted.ofText (toString n.toNat)).raw := by
    rw [raw_ofNat]
    intro hmem
    exact absurd (isDigit_whole n.toNat _ hmem) (by decide)
  obtain rfl | ⟨s, hq, hr⟩ := same.eq_or_read
  · exact h
  · obtain rfl := eq_ofText_of_numberKey same.1 h
    have raw : (Quoted.ofText (toString n.toNat)).raw = r.raw :=
      (raw_of_plain digits hq).trans (raw_of_plain plain hr).symm
    have closed := same.2.1
    cases r
    simp only at raw closed
    subst raw closed
    exact h

theorem Stable.numberMap {α : Type} {c : Codec α} (hc : c.Stable Value.Reordered) :
    c.numberMap.Stable fun v w => v.Reordered w ∧ PlainKeys w where
  decode {_ v w es} h hv := by
    obtain ⟨h, plain⟩ := h
    obtain ⟨ms, rfl, hms⟩ := decode_map_iff.mp hv
    obtain ⟨_, os, ns, rfl, perm, members, apart⟩ := h.object_left
    refine decode_map_iff.mpr ⟨ns, rfl, stable_entries numberOrder hc perm ?_ ?_ hms⟩
    · refine (forall₂_and_right members fun n hn => plain n (perm.mem_iff.mp hn)).imp ?_
      rintro m n ⟨⟨same, value⟩, hplain⟩
      exact ⟨fun k => numberKey_of_same same hplain, value⟩
    · refine apart.imp_of_mem fun {m n} hm hn other k hk hl => other ?_
      obtain ⟨_, _, hm⟩ := exists_of_mem_right members hm
      obtain ⟨_, _, hn⟩ := exists_of_mem_right members hn
      rw [eq_ofText_of_numberKey hm.1.2.1 hk, eq_ofText_of_numberKey hn.1.2.1 hl]
      exact ⟨rfl, rfl, .inl rfl⟩

end Codec
end Peering.Document
