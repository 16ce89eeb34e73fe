import Peering.Document.Codec
import Peering.Proofs.Digits
import Peering.Proofs.Quoting

/-!
Documents that are written are read back: numbers, quoted texts, lists and objects, whatever follows
them. Their bytes are those of a text.
-/
namespace Peering.Document
open Peering.Text (Stops stops_cons stops_nil takeWhile_run dropWhile_run valueIn digitValue)

section Numbers

def digitByte (c : Char) : Byte := c.toNat.toUInt8

theorem digitByte_spec {c : Char} (hc : c.isDigit = true) :
    isDigit (digitByte c) = true ∧ (digitByte c).toNat - 0x30 = digitValue c ∧
      (digitByte c = 0x30 → c = '0') := by
  have bounds : 48 ≤ c.toNat ∧ c.toNat ≤ 57 := by
    simpa [Char.isDigit, UInt32.le_iff_toNat_le] using hc
  have byte : (digitByte c).toNat = c.toNat := by
    simp [digitByte, Nat.toUInt8]
    omega
  refine ⟨?_, ?_, ?_⟩
  · simp [isDigit, UInt8.le_iff_toNat_le, byte]
    omega
  · simp [digitValue, hc, byte]
  · intro h
    have := congrArg UInt8.toNat h
    rw [byte] at this
    exact Char.toNat_inj.mp this

/-- What follows a number does not go on with it. -/
def isNumberByte (b : Byte) : Bool := isDigit b || b = 0x2e || b = 0x65 || b = 0x45

theorem whole_ofNat (n : Nat) :
    (Numeral.ofNat n).whole = (Nat.toDigits 10 n).map digitByte := rfl

theorem isDigit_whole (n : Nat) : ∀ b ∈ (Numeral.ofNat n).whole, isDigit b = true := by
  intro b hb
  obtain ⟨c, hc, rfl⟩ := List.mem_map.mp hb
  exact (digitByte_spec (Nat.isDigit_of_mem_toDigits (by decide) (by decide) hc)).1

theorem whole_unpadded (n : Nat) (b : Byte) (bs : List Byte) :
    (Numeral.ofNat n).whole ≠ 0x30 :: b :: bs := by
  intro h
  by_cases hn : n = 0
  · subst hn
    exact nomatch (List.cons.inj h).2
  · have unpadded : (Nat.toDigits 10 n).head? ≠ some '0' :=
      Text.head?_toDigits (by decide) (by decide) hn
    rw [whole_ofNat] at h
    cases hd : Nat.toDigits 10 n with
    | nil => exact Nat.toDigits_ne_nil hd
    | cons c cs =>
      rw [hd] at h unpadded
      have digit : c.isDigit = true :=
        Nat.isDigit_of_mem_toDigits (b := 10) (n := n) (by decide) (by decide) (by rw [hd]; simp)
      have zero := (digitByte_spec digit).2.2 (List.cons.inj h).1
      exact unpadded (by rw [zero]; rfl)

theorem readScale_of_stops {n : Numeral} {rest : List Byte} (h : Stops isNumberByte rest) :
    readScale n rest = (n, some rest) := by
  unfold readScale
  split
  iterate 3 exact absurd (stops_cons.mp h) (by decide)
  rfl

theorem readNumber_ofNat (n : Nat) {rest : List Byte} (h : Stops isNumberByte rest) :
    readNumber ((Numeral.ofNat n).whole ++ rest) = (Numeral.ofNat n, some rest) := by
  have digits := isDigit_whole n
  have stops : Stops isDigit rest := h.mono fun b hb => by simp [isNumberByte, hb]
  have unsigned : readUnsigned false ((Numeral.ofNat n).whole ++ rest) =
      (Numeral.ofNat n, some rest) := by
    unfold readUnsigned
    simp only [takeWhile_run digits stops, dropWhile_run digits stops]
    split
    · rename_i hnil
      exact absurd (List.map_eq_nil_iff.mp hnil) Nat.toDigits_ne_nil
    · rename_i hpadded
      exact absurd hpadded (whole_unpadded n _ _)
    · exact readScale_of_stops h
  cases hw : (Numeral.ofNat n).whole with
  | nil => exact absurd (List.map_eq_nil_iff.mp hw) Nat.toDigits_ne_nil
  | cons b bs =>
    rw [hw] at unsigned digits
    have hb : b ≠ 0x2d := by
      rintro rfl
      exact absurd (digits _ List.mem_cons_self) (by decide)
    rw [List.cons_append] at unsigned ⊢
    rw [readNumber]
    · exact unsigned
    · rintro _ h
      exact hb (List.cons.inj h).1

theorem takeDigits_eq {ds : List Char} (hd : ∀ c ∈ ds, c.isDigit = true) {m : Nat}
    (h : ds.foldl (fun n d => 10 * n + digitValue d) m < Nat.pow 2 64) :
    takeDigits m (ds.map digitByte) = (ds.foldl (fun n d => 10 * n + digitValue d) m, 0) := by
  induction ds generalizing m with
  | nil => rfl
  | cons c ds ih =>
    obtain ⟨hc, hds⟩ := List.forall_mem_cons.mp hd
    have grows : ∀ (ds : List Char) (m : Nat),
        m ≤ ds.foldl (fun n d => 10 * n + digitValue d) m := by
      intro ds
      induction ds with
      | nil => exact fun m => Nat.le_refl m
      | cons d ds ih => exact fun m => Nat.le_trans (by omega) (ih (10 * m + digitValue d))
    have fits := Nat.lt_of_le_of_lt (grows ds (10 * m + digitValue c)) h
    rw [List.map_cons, takeDigits, (digitByte_spec hc).2.1]
    simp only [if_pos fits]
    exact ih hds h

theorem read_ofNat {n : Nat} (hn : n < Nat.pow 2 64) :
    (Numeral.ofNat n).read = .ok (.integer n) := by
  have value : (Nat.toDigits 10 n).foldl (fun n d => 10 * n + digitValue d) 0 = n :=
    Text.valueIn_toDigits (by decide) (by decide) n
  have digits : ∀ c ∈ Nat.toDigits 10 n, c.isDigit = true :=
    fun c hc => Nat.isDigit_of_mem_toDigits (by decide) (by decide) hc
  have taken := takeDigits_eq digits (value.symm ▸ hn)
  rw [value, ← whole_ofNat] at taken
  have plain : (Numeral.ofNat n).fault = none ∧ (Numeral.ofNat n).fraction = none ∧
      (Numeral.ofNat n).exponent = none ∧ (Numeral.ofNat n).negative = false :=
    ⟨rfl, rfl, rfl, rfl⟩
  simp [Numeral.read, plain, taken]

end Numbers

inductive Printed : Value → Prop
  | null : Printed .null
  | bool (b : Bool) : Printed (.bool b)
  | number (n : Nat) : Printed (.number (.ofNat n))
  | text (s : String) : Printed (.text (.ofText s))
  | list {vs : List Value} (h : ∀ v ∈ vs, Printed v) : Printed (.list vs .closed)
  | object {ms : List (Quoted × Value)} (hk : ∀ m ∈ ms, ∃ s, m.1 = .ofText s)
    (h : ∀ m ∈ ms, Printed m.2) : Printed (.object ms .closed)

section Values
open Value (write)

theorem write_null : write .null = 0x6e :: ascii "ull" := by cbv

theorem write_bool (b : Bool) : write (.bool b) =
    (if b then 0x74 :: ascii "rue" else 0x66 :: ascii "alse") := by
  cases b <;> cbv

theorem write_number (n : Nat) : write (.number (.ofNat n)) = (Numeral.ofNat n).whole := by
  simp [write, Value.write.writeNumber, Numeral.ofNat]

theorem head_write {v : Value} (h : Printed v) : ∃ b bs, write v = b :: bs ∧ isBlank b = false ∧
    b ≠ 0x5d ∧ b ≠ 0x7d := by
  cases h with
  | null => exact ⟨0x6e, _, write_null, by decide⟩
  | bool b =>
    cases b with
    | true => exact ⟨0x74, _, write_bool true, by decide⟩
    | false => exact ⟨0x66, _, write_bool false, by decide⟩
  | number n =>
    have digits := isDigit_whole n
    rw [write_number]
    cases hw : (Numeral.ofNat n).whole with
    | nil => exact absurd (List.map_eq_nil_iff.mp hw) Nat.toDigits_ne_nil
    | cons b bs =>
      rw [hw] at digits
      have hb := digits b List.mem_cons_self
      refine ⟨b, bs, rfl, ?_, ?_, ?_⟩
      · cases hblank : isBlank b with
        | false => rfl
        | true =>
          simp only [isBlank, Bool.or_eq_true, decide_eq_true_eq] at hblank
          obtain ((rfl | rfl) | rfl) | rfl := hblank <;> exact absurd hb (by decide)
      · rintro rfl
        exact absurd hb (by decide)
      · rintro rfl
        exact absurd hb (by decide)
  | text s => exact ⟨0x22, _, rfl, by decide⟩
  | list => exact ⟨0x5b, _, rfl, by decide⟩
  | object => exact ⟨0x7b, _, rfl, by decide⟩

theorem skipBlanks_of_head {b : Byte} {bs : List Byte} (h : isBlank b = false) :
    skipBlanks (b :: bs) = b :: bs := by
  simp [skipBlanks, h]

theorem readWord_append (v : Value) (letters rest : List Byte) :
    readWord v letters (letters ++ rest) = (v, some rest) := by
  induction letters with
  | nil => rfl
  | cons l letters ih => simpa [readWord] using ih

def writeRest : List Value → List Byte
  | [] => []
  | v :: vs => 0x2c :: Value.write.writeItems (v :: vs)

theorem writeItems_cons (v : Value) (vs : List Value) :
    Value.write.writeItems (v :: vs) = write v ++ writeRest vs := by
  cases vs with
  | nil => simp [Value.write.writeItems, writeRest]
  | cons w vs => rfl

def ReadBack (v : Value) : Prop :=
  ∀ fuel rest, 2 * (write v).length ≤ fuel → Stops isNumberByte rest →
    readValueWith fuel (write v ++ rest) = (v, some rest)

theorem stops_comma (bs : List Byte) : Stops isNumberByte (0x2c :: bs) := stops_cons.mpr (by decide)

theorem stops_writeRest (vs : List Value) (rest : List Byte) :
    Stops isNumberByte (writeRest vs ++ 0x5d :: rest) := by
  cases vs with
  | nil => exact stops_cons.mpr (by decide)
  | cons v vs => exact stops_comma _

theorem length_write_pos {v : Value} (h : Printed v) : 0 < (write v).length := by
  obtain ⟨b, bs, hb, _⟩ := head_write h
  simp [hb]

section Steps
variable {fuel : Nat} {b : Byte} {bs rest left : List Byte}

theorem readItems_first {v : Value} {vs : List Value} (blank : isBlank b = false) (hb : b ≠ 0x5d)
    (first : readValueWith fuel (b :: bs) = (v, some rest))
    (others : readItems fuel false rest = (vs, .closed, some left)) :
    readItems (fuel + 1) true (b :: bs) = (v :: vs, .closed, some left) := by
  simp [readItems, skipBlanks_of_head blank, first, others]

theorem readItems_next {v : Value} {vs : List Value} (blank : isBlank b = false) (hb : b ≠ 0x5d)
    (first : readValueWith fuel (b :: bs) = (v, some rest))
    (others : readItems fuel false rest = (vs, .closed, some left)) :
    readItems (fuel + 1) false (0x2c :: b :: bs) = (v :: vs, .closed, some left) := by
  have comma : skipBlanks (0x2c :: b :: bs) = 0x2c :: b :: bs := skipBlanks_of_head (by decide)
  simp [readItems, comma, skipBlanks_of_head blank, hb, first, others]

end Steps

theorem readItems_rest {vs : List Value} (hp : ∀ v ∈ vs, Printed v) (hr : ∀ v ∈ vs, ReadBack v)
    {fuel : Nat} (rest : List Byte) (hf : 2 * (writeRest vs).length + 1 ≤ fuel) :
    readItems fuel false (writeRest vs ++ 0x5d :: rest) = (vs, .closed, some rest) := by
  induction vs generalizing fuel with
  | nil =>
    obtain ⟨fuel, rfl⟩ : ∃ k, fuel = k + 1 := ⟨fuel - 1, by omega⟩
    simp [writeRest, readItems, skipBlanks, isBlank]
  | cons v vs ih =>
    obtain ⟨fuel, rfl⟩ : ∃ k, fuel = k + 1 := ⟨fuel - 1, by omega⟩
    obtain ⟨pv, pvs⟩ := List.forall_mem_cons.mp hp
    obtain ⟨rv, rvs⟩ := List.forall_mem_cons.mp hr
    obtain ⟨b, bs, hb, blank, hclose, _⟩ := head_write pv
    have positive := length_write_pos pv
    have text : writeRest (v :: vs) = 0x2c :: (write v ++ writeRest vs) := by
      rw [writeRest, writeItems_cons]
    rw [text] at hf ⊢
    simp only [List.length_cons, List.length_append] at hf
    have first := rv fuel _ (by omega) (stops_writeRest vs rest)
    rw [hb, List.cons_append] at first
    rw [hb, List.cons_append, List.cons_append, List.cons_append, List.append_assoc]
    exact readItems_next blank hclose first (ih pvs rvs (by omega))

theorem readBack_list {vs : List Value} (hp : ∀ v ∈ vs, Printed v) (hr : ∀ v ∈ vs, ReadBack v) :
    ReadBack (.list vs .closed) := by
  intro fuel rest hf _
  have text : write (.list vs .closed) ++ rest =
      0x5b :: (Value.write.writeItems vs ++ 0x5d :: rest) := by
    simp [write]
  have size : (write (.list vs .closed)).length = (Value.write.writeItems vs).length + 2 := by
    simp [write]
  obtain ⟨fuel, rfl⟩ : ∃ k, fuel = k + 2 := ⟨fuel - 2, by omega⟩
  have items : readItems (fuel + 1) true (Value.write.writeItems vs ++ 0x5d :: rest) =
      (vs, .closed, some rest) := by
    cases vs with
    | nil => simp [Value.write.writeItems, readItems, skipBlanks, isBlank]
    | cons v vs =>
      obtain ⟨pv, pvs⟩ := List.forall_mem_cons.mp hp
      obtain ⟨rv, rvs⟩ := List.forall_mem_cons.mp hr
      obtain ⟨b, bs, hb, blank, hclose, _⟩ := head_write pv
      rw [writeItems_cons] at size ⊢
      simp only [List.length_append] at size
      have positive := length_write_pos pv
      have first := rv fuel _ (by omega) (stops_writeRest vs rest)
      rw [hb, List.cons_append] at first
      rw [hb, List.cons_append, List.cons_append, List.append_assoc]
      exact readItems_first blank hclose first (readItems_rest pvs rvs rest (by omega))
  rw [text, readValueWith, skipBlanks_of_head (by decide)]
  simp [items]

def writeMembersRest : List (Quoted × Value) → List Byte
  | [] => []
  | m :: ms => 0x2c :: Value.write.writeMembers (m :: ms)

theorem writeMembers_cons (k : Quoted) (v : Value) (ms : List (Quoted × Value)) :
    Value.write.writeMembers ((k, v) :: ms) =
      0x22 :: (k.raw ++ 0x22 :: 0x3a :: (write v ++ writeMembersRest ms)) := by
  cases ms with
  | nil => simp [Value.write.writeMembers, Value.write.writeQuoted, writeMembersRest]
  | cons m ms =>
    obtain ⟨l, w⟩ := m
    simp [Value.write.writeMembers, Value.write.writeQuoted, writeMembersRest]

theorem stops_writeMembersRest (ms : List (Quoted × Value)) (rest : List Byte) :
    Stops isNumberByte (writeMembersRest ms ++ 0x7d :: rest) := by
  cases ms with
  | nil => exact stops_cons.mpr (by decide)
  | cons m ms => exact stops_comma _

theorem readMembers_member {fuel : Nat} (first : Bool) {s : String} {v : Value}
    {ms : List (Quoted × Value)} {bs rest left : List Byte}
    (value : readValueWith fuel bs = (v, some rest))
    (others : readMembers fuel false rest = (ms, .closed, some left)) :
    readMembers (fuel + 1) first
      ((if first then [] else [0x2c]) ++ 0x22 :: ((Quoted.ofText s).raw ++ 0x22 :: 0x3a :: bs)) =
        ((.ofText s, v) :: ms, .closed, some left) := by
  have key := readQuoted_ofText s (0x3a :: bs)
  have colon : skipBlanks (0x3a :: bs) = 0x3a :: bs := skipBlanks_of_head (by decide)
  have quote (r : List Byte) : skipBlanks (0x22 :: r) = 0x22 :: r := skipBlanks_of_head (by decide)
  have comma (r : List Byte) : skipBlanks (0x2c :: r) = 0x2c :: r := skipBlanks_of_head (by decide)
  cases first <;> simp [readMembers, key, colon, quote, comma, value, others]

theorem readMembers_rest {ms : List (Quoted × Value)} (hk : ∀ m ∈ ms, ∃ s, m.1 = .ofText s)
    (hp : ∀ m ∈ ms, Printed m.2) (hr : ∀ m ∈ ms, ReadBack m.2) {fuel : Nat} (rest : List Byte)
    (hf : 2 * (writeMembersRest ms).length + 1 ≤ fuel) :
    readMembers fuel false (writeMembersRest ms ++ 0x7d :: rest) = (ms, .closed, some rest) := by
  induction ms generalizing fuel with
  | nil =>
    obtain ⟨fuel, rfl⟩ : ∃ k, fuel = k + 1 := ⟨fuel - 1, by omega⟩
    simp [writeMembersRest, readMembers, skipBlanks, isBlank]
  | cons m ms ih =>
    obtain ⟨fuel, rfl⟩ : ∃ k, fuel = k + 1 := ⟨fuel - 1, by omega⟩
    obtain ⟨k, v⟩ := m
    obtain ⟨⟨s, hs⟩, ks⟩ := List.forall_mem_cons.mp hk
    obtain ⟨_, pms⟩ := List.forall_mem_cons.mp hp
    obtain ⟨rv, rms⟩ := List.forall_mem_cons.mp hr
    simp only at hs rv
    subst hs
    rw [writeMembersRest, writeMembers_cons] at hf ⊢
    simp only [List.length_cons, List.length_append] at hf
    have value := rv fuel _ (by omega) (stops_writeMembersRest ms rest)
    have others := ih ks pms rms (show 2 * (writeMembersRest ms).length + 1 ≤ fuel by omega)
    have member := readMembers_member false (s := s) value others
    simpa using member

theorem readBack_object {ms : List (Quoted × Value)} (hk : ∀ m ∈ ms, ∃ s, m.1 = .ofText s)
    (hp : ∀ m ∈ ms, Printed m.2) (hr : ∀ m ∈ ms, ReadBack m.2) : ReadBack (.object ms .closed) := by
  intro fuel rest hf _
  have text : write (.object ms .closed) ++ rest =
      0x7b :: (Value.write.writeMembers ms ++ 0x7d :: rest) := by
    simp [write]
  have size : (write (.object ms .closed)).length = (Value.write.writeMembers ms).length + 2 := by
    simp [write]
  obtain ⟨fuel, rfl⟩ : ∃ k, fuel = k + 2 := ⟨fuel - 2, by omega⟩
  have members : readMembers (fuel + 1) true (Value.write.writeMembers ms ++ 0x7d :: rest) =
      (ms, .closed, some rest) := by
    cases ms with
    | nil => simp [Value.write.writeMembers, readMembers, skipBlanks, isBlank]
    | cons m ms =>
      obtain ⟨k, v⟩ := m
      obtain ⟨⟨s, hs⟩, ks⟩ := List.forall_mem_cons.mp hk
      obtain ⟨_, pms⟩ := List.forall_mem_cons.mp hp
      obtain ⟨rv, rms⟩ := List.forall_mem_cons.mp hr
      simp only at hs rv
      subst hs
      rw [writeMembers_cons] at size ⊢
      simp only [List.length_cons, List.length_append] at size
      have value := rv fuel _ (by omega) (stops_writeMembersRest ms rest)
      have others := readMembers_rest ks pms rms rest
        (show 2 * (writeMembersRest ms).length + 1 ≤ fuel by omega)
      have member := readMembers_member true (s := s) value others
      simpa using member
  rw [text, readValueWith, skipBlanks_of_head (by decide)]
  simp [members]

theorem readBack_number (n : Nat) : ReadBack (.number (.ofNat n)) := by
  intro fuel rest hf hrest
  have number := readNumber_ofNat n hrest
  have digits := isDigit_whole n
  rw [write_number] at hf ⊢
  cases hw : (Numeral.ofNat n).whole with
  | nil => exact absurd (List.map_eq_nil_iff.mp hw) Nat.toDigits_ne_nil
  | cons b bs =>
    rw [hw] at hf number digits
    obtain ⟨fuel, rfl⟩ : ∃ k, fuel = k + 1 := ⟨fuel - 1, by simp at hf; omega⟩
    have hb := digits b List.mem_cons_self
    have differs (a : Byte) (ha : isDigit a = false) : b ≠ a := by
      rintro rfl
      rw [hb] at ha
      exact nomatch ha
    have blank : isBlank b = false := by
      simp [isBlank, differs 0x20 (by decide), differs 0x09 (by decide), differs 0x0a (by decide),
        differs 0x0d (by decide)]
    rw [List.cons_append] at number ⊢
    rw [readValueWith, skipBlanks_of_head blank]
    simp [differs 0x6e (by decide), differs 0x74 (by decide), differs 0x66 (by decide),
      differs 0x22 (by decide), differs 0x5b (by decide), differs 0x7b (by decide), hb, number]

theorem readBack_text (s : String) : ReadBack (.text (.ofText s)) := by
  intro fuel rest hf _
  have text : write (.text (.ofText s)) ++ rest =
      0x22 :: ((Quoted.ofText s).raw ++ 0x22 :: rest) := by
    simp [write, Value.write.writeQuoted]
  obtain ⟨fuel, rfl⟩ : ∃ k, fuel = k + 1 :=
    ⟨fuel - 1, by simp [write, Value.write.writeQuoted] at hf; omega⟩
  rw [text, readValueWith, skipBlanks_of_head (by decide)]
  simp [readQuoted_ofText]

theorem readBack_word {v : Value} {b : Byte} {letters : List Byte} (text : write v = b :: letters)
    (h : ∀ fuel rest, readValueWith (fuel + 1) (b :: rest) = readWord v letters rest) :
    ReadBack v := by
  intro fuel rest hf _
  rw [text] at hf ⊢
  obtain ⟨fuel, rfl⟩ : ∃ k, fuel = k + 1 := ⟨fuel - 1, by simp at hf; omega⟩
  rw [List.cons_append, h]
  exact readWord_append v letters rest

theorem readBack_of_printed {v : Value} (h : Printed v) : ReadBack v := by
  induction h with
  | null => exact readBack_word write_null fun _ _ => rfl
  | bool b =>
    cases b with
    | true => exact readBack_word (write_bool true) fun _ _ => rfl
    | false => exact readBack_word (write_bool false) fun _ _ => rfl
  | number n => exact readBack_number n
  | text s => exact readBack_text s
  | list h ih => exact readBack_list h ih
  | object hk h ih => exact readBack_object hk h ih

theorem read_write {v : Value} (h : Printed v) : Document.read (write v) = (v, false) := by
  have back := readBack_of_printed h (2 * (write v).length + 2) [] (by omega) stops_nil
  rw [List.append_nil] at back
  simp [Document.read, readValue, back, skipBlanks]

theorem isText_singleton {b : Byte} (hb : b < 0x80) : IsText [b] :=
  isText_of_small (List.forall_mem_singleton.mpr hb)

theorem isText_cons {b : Byte} {bs : List Byte} (hb : b < 0x80) (h : IsText bs) :
    IsText (b :: bs) :=
  (isText_singleton hb).append h

theorem isText_writeItems {vs : List Value} (h : ∀ v ∈ vs, IsText (write v)) :
    IsText (Value.write.writeItems vs) := by
  induction vs with
  | nil => exact isText_of_small nofun
  | cons v vs ih =>
    obtain ⟨hv, hvs⟩ := List.forall_mem_cons.mp h
    rw [writeItems_cons]
    refine hv.append ?_
    cases vs with
    | nil => exact isText_of_small nofun
    | cons w ws => exact isText_cons (by decide) (ih hvs)

theorem isText_writeMembers {ms : List (Quoted × Value)} (hk : ∀ m ∈ ms, ∃ s, m.1 = .ofText s)
    (h : ∀ m ∈ ms, IsText (write m.2)) : IsText (Value.write.writeMembers ms) := by
  induction ms with
  | nil => exact isText_of_small nofun
  | cons m ms ih =>
    obtain ⟨k, v⟩ := m
    obtain ⟨⟨s, hs⟩, ks⟩ := List.forall_mem_cons.mp hk
    obtain ⟨hv, hms⟩ := List.forall_mem_cons.mp h
    simp only at hs hv
    subst hs
    rw [writeMembers_cons]
    have rest : IsText (writeMembersRest ms) := by
      cases ms with
      | nil => exact isText_of_small nofun
      | cons m ms => exact isText_cons (by decide) (ih ks hms)
    exact isText_cons (by decide) ((isText_ofText s).append
      (isText_cons (by decide) (isText_cons (by decide) (hv.append rest))))

theorem isText_write {v : Value} (h : Printed v) : IsText (write v) := by
  induction h with
  | null =>
    rw [write_null]
    exact isText_cons (by decide) ⟨"ull", rfl⟩
  | bool b =>
    rw [write_bool]
    cases b with
    | true => exact isText_cons (by decide) ⟨"rue", rfl⟩
    | false => exact isText_cons (by decide) ⟨"alse", rfl⟩
  | number n =>
    rw [write_number]
    refine isText_of_small fun b hb => ?_
    have digit := isDigit_whole n b hb
    simp only [isDigit, Bool.and_eq_true, decide_eq_true_eq] at digit
    exact UInt8.lt_of_le_of_lt digit.2 (by decide)
  | text s =>
    exact isText_cons (by decide) ((isText_ofText s).append (isText_singleton (by decide)))
  | list h ih =>
    exact isText_cons (by decide) ((isText_writeItems ih).append (isText_singleton (by decide)))
  | object hk h ih =>
    exact isText_cons (by decide)
      ((isText_writeMembers hk ih).append (isText_singleton (by decide)))

theorem ascii_text {α : Type} {c : Codec α} {a : α} (h : Printed (c.encode a)) :
    ascii (c.text a) = c.write a := by
  obtain ⟨t, ht⟩ := isText_write h
  rw [Codec.text, Codec.write, ← ht, fromUTF8?_ascii]
  rfl

end Values

end Peering.Document
