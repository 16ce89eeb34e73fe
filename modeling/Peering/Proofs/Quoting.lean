import Mathlib
import Peering.Document.Escape

/-!
Texts as bytes, and texts between quotes. What is quoted is read back, whatever the text holds, and
the reader finds the closing quote where it was put.
-/
namespace Peering.Document

theorem ok_bind {ε α β : Type} (a : α) (k : α → Except ε β) : (Except.ok a >>= k) = k a := rfl

theorem toList_loop (bs : ByteArray) (i : Nat) (r : List Byte) :
    ByteArray.toList.loop bs i r = r.reverse ++ bs.data.toList.drop i := by
  induction i, r using ByteArray.toList.loop.induct bs with
  | case1 i r hi ih =>
    have next : bs.data.toList.drop i = bs.get! i :: bs.data.toList.drop (i + 1) := by
      have get : bs.get! i = bs.data[i] := getElem!_pos bs.data i hi
      rw [get, List.drop_eq_getElem_cons (by rwa [Array.length_toList]), Array.getElem_toList]
    rw [ByteArray.toList.loop, if_pos hi, ih, next, List.reverse_cons, List.append_assoc,
      List.singleton_append]
  | case2 i r hi =>
    have past : bs.data.toList.length ≤ i := by rw [Array.length_toList]; exact Nat.not_lt.mp hi
    rw [ByteArray.toList.loop, if_neg hi, List.drop_eq_nil_of_le past, List.append_nil]

theorem toList_eq_data (bs : ByteArray) : bs.toList = bs.data.toList := by
  rw [ByteArray.toList, toList_loop, List.reverse_nil, List.nil_append, List.drop_zero]

theorem ascii_eq (s : String) : ascii s = s.toList.flatMap String.utf8EncodeChar := by
  have bytes : s.toByteArray = s.toList.utf8Encode := by
    rw [← String.toByteArray_ofList, String.ofList_toList]
  rw [ascii, toList_eq_data, String.toUTF8, bytes, List.utf8Encode, List.toList_data_toByteArray]

theorem ascii_append (s t : String) : ascii (s ++ t) = ascii s ++ ascii t := by
  rw [ascii_eq, ascii_eq, ascii_eq, String.toList_append, List.flatMap_append]

theorem fromUTF8?_ascii (s : String) : String.fromUTF8? ⟨(ascii s).toArray⟩ = some s := by
  have bytes : (⟨(ascii s).toArray⟩ : ByteArray) = s.toByteArray := by
    rw [ascii, toList_eq_data, String.toUTF8, Array.toArray_toList]
  rw [bytes, String.fromUTF8?, dif_pos s.isValidUTF8]
  rfl

section Escapes

/-- How a byte is quoted: as it is, with one letter for it, or by its number. -/
inductive Escaped (b : Byte) : List Byte → Prop
  | plain (hq : b ≠ 0x22) (hs : b ≠ 0x5c) (hc : ¬ b < 0x20) : Escaped b [b]
  | letter {a : Byte} (ha : a ≠ 0x75) (h : simpleEscape a = some b) : Escaped b [0x5c, a]
  | number (hc : b < 0x20) : Escaped b
    [0x5c, 0x75, 0x30, 0x30, hexByte (b.toNat / 16), hexByte (b.toNat % 16)]

theorem escaped_escapeByte (b : Byte) : Escaped b (escapeByte b) := by
  unfold escapeByte
  split
  iterate 7 exact .letter (by decide) rfl
  split
  · exact .number ‹_›
  · exact .plain ‹_› ‹_› ‹_›

theorem readQuoted_escaped {b : Byte} {bs : List Byte} (h : Escaped b bs) (rest : List Byte) :
    readQuoted (bs ++ rest) =
      (⟨bs ++ (readQuoted rest).1.raw, (readQuoted rest).1.closed⟩, (readQuoted rest).2) := by
  cases h with
  | plain hq hs _ => simp [readQuoted, hs]
  | letter ha _ => simp [readQuoted, ha]
  | number => simp [readQuoted]

theorem hexValue_hexByte : ∀ n < 16, hexValue (hexByte n) = some n := by decide

theorem unit_hexByte {n : Nat} (hn : n < 256) :
    unit 0x30 0x30 (hexByte (n / 16)) (hexByte (n % 16)) = .ok n := by
  have zero : hexValue 0x30 = some 0 := by decide
  have high := hexValue_hexByte (n / 16) (by omega)
  have low := hexValue_hexByte (n % 16) (Nat.mod_lt n (by decide))
  simp only [unit, zero, high, low, Except.ok.injEq]
  omega

theorem unescape_escaped {b : Byte} {bs : List Byte} (h : Escaped b bs) (rest : List Byte) :
    Quoted.unescape true (bs ++ rest) = (do return b :: (← Quoted.unescape true rest)) := by
  cases h with
  | plain hq hs hc => simp [Quoted.unescape, hs, hc]
  | letter ha hb => simp [Quoted.unescape, ha, hb]
  | number hc =>
    have small : b.toNat < 0x20 := hc
    have unit := unit_hexByte (n := b.toNat) (by omega)
    have leading : isLeading b.toNat = false := by simp [isLeading]; omega
    have trailing : isTrailing b.toNat = false := by simp [isTrailing]; omega
    have encoded : encodeUnit b.toNat = [b] := by
      have all : ∀ n < 0x20, encodeUnit n = [UInt8.ofNat n] := by decide
      rw [all _ small, UInt8.ofNat_toNat]
    simp [Quoted.unescape, unit, ok_bind, leading, trailing, encoded]

theorem readQuoted_quoted (bs rest : List Byte) :
    readQuoted (bs.flatMap escapeByte ++ 0x22 :: rest) =
      (⟨bs.flatMap escapeByte, true⟩, some rest) := by
  induction bs with
  | nil => rfl
  | cons b bs ih =>
    rw [List.flatMap_cons, List.append_assoc, readQuoted_escaped (escaped_escapeByte b), ih]

theorem unescape_quoted (bs : List Byte) :
    Quoted.unescape true (bs.flatMap escapeByte) = .ok bs := by
  induction bs with
  | nil => rfl
  | cons b bs ih =>
    rw [List.flatMap_cons, unescape_escaped (escaped_escapeByte b), ih]
    rfl

theorem readQuoted_ofText (s : String) (rest : List Byte) :
    readQuoted ((Quoted.ofText s).raw ++ 0x22 :: rest) = (Quoted.ofText s, some rest) :=
  readQuoted_quoted (ascii s) rest

theorem read_ofText (s : String) : (Quoted.ofText s).read = .ok s := by
  have bytes : Quoted.unescape true (Quoted.ofText s).raw = .ok (ascii s) :=
    unescape_quoted (ascii s)
  unfold Quoted.read
  rw [show (Quoted.ofText s).closed = true from rfl, bytes]
  simp only [ok_bind, fromUTF8?_ascii]
  rfl

def IsText (bs : List Byte) : Prop := ∃ t, ascii t = bs

theorem IsText.append {as bs : List Byte} (ha : IsText as) (hb : IsText bs) :
    IsText (as ++ bs) := by
  obtain ⟨s, rfl⟩ := ha
  obtain ⟨t, rfl⟩ := hb
  exact ⟨s ++ t, ascii_append s t⟩

theorem isText_char (c : Char) : IsText (String.utf8EncodeChar c) :=
  ⟨String.singleton c, by rw [ascii_eq, String.toList_singleton, List.flatMap_singleton]⟩

theorem isText_of_small {bs : List Byte} (h : ∀ b ∈ bs, b < 0x80) : IsText bs := by
  induction bs with
  | nil => exact ⟨"", by rw [ascii_eq]; rfl⟩
  | cons b bs ih =>
    obtain ⟨hb, hbs⟩ := List.forall_mem_cons.mp h
    have all : ∀ n < 0x80, String.utf8EncodeChar (Char.ofNat n) = [UInt8.ofNat n] := by decide
    have one := isText_char (Char.ofNat b.toNat)
    rw [all b.toNat hb, UInt8.ofNat_toNat] at one
    exact one.append (ih hbs)

theorem small_of_simpleEscape {a b : Byte} (h : simpleEscape a = some b) : a < 0x80 ∧ b < 0x80 := by
  unfold simpleEscape at h
  split at h
  iterate 8
    obtain rfl := Option.some.inj h
    decide
  exact nomatch h

theorem small_of_escaped {b : Byte} {bs : List Byte} (h : Escaped b bs) (hb : b < 0x80) :
    ∀ a ∈ bs, a < 0x80 := by
  cases h with
  | plain => simpa using hb
  | letter _ hs => simpa using (small_of_simpleEscape hs).1
  | number hc =>
    have digit : ∀ n < 16, hexByte n < 0x80 := by decide
    have small : b.toNat < 0x20 := hc
    have high := digit (b.toNat / 16) (by omega)
    have low := digit (b.toNat % 16) (Nat.mod_lt _ (by decide))
    simp [high, low]

theorem eq_of_escaped {b : Byte} {bs : List Byte} (h : Escaped b bs) (hb : ¬ b < 0x80) :
    bs = [b] := by
  cases h with
  | plain => rfl
  | letter _ hs => exact absurd (small_of_simpleEscape hs).2 hb
  | number hc => exact absurd (UInt8.lt_trans hc (by decide)) hb

theorem small_or_large (c : Char) :
    (∀ b ∈ String.utf8EncodeChar c, b < 0x80) ∨ ∀ b ∈ String.utf8EncodeChar c, ¬ b < 0x80 := by
  unfold String.utf8EncodeChar
  simp only
  split
  · rename_i hc
    have small : c.toNat ≤ 127 := hc
    refine .inl ?_
    simp [UInt8.lt_iff_toNat_lt]
    omega
  · refine .inr ?_
    split
    · simp [UInt8.lt_iff_toNat_lt]
      omega
    · split
      · simp [UInt8.lt_iff_toNat_lt]
        omega
      · simp [UInt8.lt_iff_toNat_lt]
        omega

theorem isText_quoted (cs : List Char) :
    IsText ((cs.flatMap String.utf8EncodeChar).flatMap escapeByte) := by
  induction cs with
  | nil => exact isText_of_small nofun
  | cons c cs ih =>
    have one : IsText ((String.utf8EncodeChar c).flatMap escapeByte) := by
      obtain small | large := small_or_large c
      · refine isText_of_small fun a ha => ?_
        obtain ⟨b, hb, hab⟩ := List.mem_flatMap.mp ha
        exact small_of_escaped (escaped_escapeByte b) (small b hb) a hab
      · have same : (String.utf8EncodeChar c).flatMap escapeByte = String.utf8EncodeChar c := by
          rw [List.flatMap_congr fun b hb => eq_of_escaped (escaped_escapeByte b) (large b hb)]
          exact List.flatMap_singleton' _
        rw [same]
        exact isText_char c
    rw [List.flatMap_cons, List.flatMap_append]
    exact one.append ih

theorem isText_ofText (s : String) : IsText (Quoted.ofText s).raw := by
  have quoted := isText_quoted s.toList
  rwa [← ascii_eq] at quoted

end Escapes

end Peering.Document
