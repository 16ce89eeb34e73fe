import Peering.Proofs.AddressText
import Peering.Proofs.Keys
import Peering.Proofs.Writing

/-!
Codecs that write what they read: a value that came out of a document is written as a document that
it comes out of again. This is kept by lists, maps and records.
-/
namespace Peering.Document

/-- The values that come out of documents. Not every value does: a map is in the order of its
keys. -/
def Codec.Reads {α : Type} (c : Codec α) (a : α) : Prop := ∃ depth v, c.decode depth v = .ok a

/-- What comes out of a document is written so that it comes out again, as long as `height` more
lists and objects may be opened. -/
structure Codec.Faithful {α : Type} (c : Codec α) (height : Nat) : Prop where
  printed : ∀ {a}, c.Reads a → Printed (c.encode a)
  back : ∀ {a}, c.Reads a → ∀ {depth}, depth + height ≤ deepest →
    c.decode depth (c.encode a) = .ok a

structure Field.Faithful (f : Field) (height : Nat) : Prop where
  codec : f.codec.Faithful height
  absent : ∀ a, f.absent = .optional a ∨ f.absent = .standard a → f.codec.Reads a

theorem Field.Faithful.reads {f : Field} {height : Nat} (h : f.Faithful height) {a : f.α}
    (ha : f.Yields a) : f.codec.Reads a :=
  ha.elim id (h.absent a)

namespace Codec
variable {α : Type} {c : Codec α} {height : Nat}

theorem Faithful.mono {more : Nat} (h : c.Faithful height) (le : height ≤ more) :
    c.Faithful more where
  printed := h.printed
  back ha _ hd := h.back ha (by omega)

theorem Faithful.read_text (h : c.Faithful height) (hd : height ≤ deepest) {bs : List Byte} {a : α}
    (ha : c.read bs = .ok a) : c.read (ascii (c.text a)) = .ok a := by
  have reads : c.Reads a := ⟨0, _, (read_eq_ok.mp ha).1⟩
  have printed := h.printed reads
  have again := h.back reads (show 0 + height ≤ deepest by omega)
  rw [ascii_text printed, Codec.write, read_eq_ok, read_write printed]
  exact ⟨again, rfl⟩

section Leaves

theorem faithful_bool : bool.Faithful height where
  printed _ := .bool _
  back _ _ _ := rfl

theorem decode_u32 (n : UInt32) (depth : Nat) : u32.decode depth (u32.encode n) = .ok n := by
  have size : n.toNat < UInt32.size := n.toNat_lt
  have small : n.toNat < Nat.pow 2 64 := Nat.lt_trans size (by decide)
  simp only [u32, read_ofNat small, ok_bind, Int.natCast_nonneg, Int.toNat_natCast, size,
    and_self, if_true, UInt32.ofNat_toNat]
  rfl

theorem faithful_u32 : u32.Faithful height where
  printed _ := .number _
  back _ _ _ := decode_u32 _ _

theorem faithful_parsed {wanted : String} {parse : String → Except Problem α} {print : α → String}
    (h : ∀ a, parse (print a) = .ok a) : (parsed wanted parse print).Faithful height where
  printed _ := .text _
  back _ _ _ := by
    simp only [parsed, read_ofText, ok_bind, h]

theorem faithful_string : string.Faithful height := faithful_parsed fun _ => rfl

theorem faithful_address4 : address4.Faithful height :=
  faithful_parsed fun a => by rw [Address.parse4?_text]; rfl

theorem faithful_address6 : address6.Faithful height :=
  faithful_parsed fun a => by rw [Address.parse6?_text]; rfl

theorem decode_variant {known : List (String × α)} {name : α → String} {a : α}
    (h : known.lookup (name a) = some a) (depth : Nat) :
    (variant known name).decode depth ((variant known name).encode a) = .ok a := by
  simp only [variant, read_ofText, ok_bind, variant.pick, h]

theorem faithful_variant {known : List (String × α)} {name : α → String}
    (h : ∀ a, known.lookup (name a) = some a) : (variant known name).Faithful height where
  printed _ := .text _
  back _ _ _ := decode_variant (h _) _

end Leaves

theorem reads_option {a : α} (h : c.option.Reads (some a)) : c.Reads a := by
  obtain ⟨depth, v, h⟩ := h
  obtain ⟨_, hnone⟩ | ⟨_, b, hb, hsome⟩ := decode_option_iff.mp h
  · exact nomatch hnone
  · obtain rfl := Option.some.inj hsome
    exact ⟨depth, v, hb⟩

/-- A null stands for nothing only, so the codec inside must not write one. -/
theorem Faithful.option (h : c.Faithful height) (notNull : ∀ a, c.encode a ≠ .null) :
    c.option.Faithful height where
  printed {a} ha := by
    cases a with
    | none => exact .null
    | some a => exact h.printed (reads_option ha)
  back {a} ha depth hd := by
    cases a with
    | none => rfl
    | some a =>
      exact decode_option_iff.mpr (.inr ⟨notNull a, a, h.back (reads_option ha) hd, rfl⟩)

theorem reads_list {as : List α} (h : c.list.Reads as) {a : α} (ha : a ∈ as) : c.Reads a := by
  obtain ⟨depth, v, h⟩ := h
  obtain ⟨items, _, hitems⟩ := decode_list_iff.mp h
  obtain ⟨item, _, hitem⟩ := exists_of_mem_mapM hitems ha
  exact ⟨depth + 1, item, hitem⟩

theorem Faithful.list (h : c.Faithful height) : c.list.Faithful (height + 1) where
  printed ha := .list fun v hv => by
    obtain ⟨a, hmem, rfl⟩ := List.mem_map.mp hv
    exact h.printed (reads_list ha hmem)
  back {as} has depth hd := by
    refine decode_list_iff.mpr ⟨as.map c.encode, rfl, ?_⟩
    rw [mapM_eq_ok, List.map_map]
    exact List.map_congr_left fun a ha => h.back (reads_list has ha) (by omega)

section Maps
variable {κ : Type} [DecidableEq κ] {before : κ → κ → Bool} {readKey : Quoted → Except Problem κ}
  {writeKey : κ → String}

theorem insertEntry_last (order : KeyOrder before) {k : κ} {a : α} {es : List (κ × α)}
    (h : InOrder before (es ++ [(k, a)])) : insertEntry before k a es = es ++ [(k, a)] := by
  induction es with
  | nil => rfl
  | cons e es ih =>
    obtain ⟨he, hes⟩ := List.pairwise_cons.mp h
    have last : before e.1 k = true := he (k, a) (by simp)
    obtain ⟨different, notBefore⟩ := order.asymm last
    rw [insertEntry, if_neg different.symm, if_neg notBefore, ih hes]
    rfl

theorem reads_map {es : List (κ × α)} (h : (map readKey writeKey before c).Reads es)
    {e : κ × α} (he : e ∈ es) : c.Reads e.2 := by
  obtain ⟨depth, v, h⟩ := h
  obtain ⟨members, _, hfold⟩ := decode_map_iff.mp h
  refine foldlM_induct (P := fun _ es => ∀ e ∈ es, c.Reads e.2) hfold nofun ?_ e he
  intro _ m _ _ hes hput e he
  obtain ⟨k, _, a, ha, rfl⟩ := putEntry_eq_ok.mp hput
  obtain rfl | he := mem_insertEntry he
  · exact ⟨depth + 1, m.2, ha⟩
  · exact hes e he

theorem foldlM_putEntry (order : KeyOrder before)
    (keys : ∀ k, readKey (.ofText (writeKey k)) = .ok k) {depth : Nat} {done rest : List (κ × α)}
    (ordered : InOrder before (done ++ rest))
    (values : ∀ e ∈ rest, c.decode (depth + 1) (c.encode e.2) = .ok e.2) :
    (rest.map fun (k, a) => (Quoted.ofText (writeKey k), c.encode a)).foldlM
      (putEntry readKey before c depth) done = .ok (done ++ rest) := by
  induction rest generalizing done with
  | nil =>
    rw [List.append_nil]
    rfl
  | cons e rest ih =>
    obtain ⟨he, hes⟩ := List.forall_mem_cons.mp values
    rw [List.append_cons] at ordered ⊢
    have last := insertEntry_last order (List.pairwise_append.mp ordered).1
    rw [List.map_cons, List.foldlM_cons]
    exact bind_eq_ok.mpr ⟨done ++ [e], putEntry_eq_ok.mpr ⟨e.1, keys e.1, e.2, he, last⟩,
      ih ordered hes⟩

theorem Faithful.map (h : c.Faithful height) (order : KeyOrder before)
    (keys : ∀ k, readKey (.ofText (writeKey k)) = .ok k) :
    (map readKey writeKey before c).Faithful (height + 1) where
  printed {es} hes := by
    refine .object ?_ ?_
    · intro m hm
      obtain ⟨e, _, rfl⟩ := List.mem_map.mp hm
      exact ⟨writeKey e.1, rfl⟩
    · intro m hm
      obtain ⟨e, he, rfl⟩ := List.mem_map.mp hm
      exact h.printed (reads_map hes he)
  back {es} hes depth hd := by
    have ordered : InOrder before ([] ++ es) := by
      obtain ⟨_, _, hdecode⟩ := hes
      exact inOrder_of_decode order hdecode
    have values : ∀ e ∈ es, c.decode (depth + 1) (c.encode e.2) = .ok e.2 := fun e he =>
      h.back (reads_map hes he) (by omega)
    have entries := foldlM_putEntry order keys ordered values
    exact decode_map_iff.mpr ⟨_, rfl, entries⟩

theorem Faithful.textMap (h : c.Faithful height) : c.textMap.Faithful (height + 1) :=
  h.map stringOrder read_ofText

theorem numberOrder : KeyOrder fun m n : UInt32 => decide (m < n) where
  irrefl n := decide_eq_false (UInt32.lt_irrefl n)
  trans h k := decide_eq_true (UInt32.lt_trans (of_decide_eq_true h) (of_decide_eq_true k))
  total := by
    intro m n hne h
    have hle : n ≤ m := UInt32.not_lt.mp (of_decide_eq_false h)
    exact decide_eq_true (UInt32.lt_of_le_of_ne hle (Ne.symm hne))

/-- No digit of a key is escaped, so a key is a number between quotes. -/
theorem raw_ofNat (n : Nat) : (Quoted.ofText (toString n)).raw = (Numeral.ofNat n).whole := by
  have all : ∀ m < 58, 48 ≤ m → (String.utf8EncodeChar (Char.ofNat m)).flatMap escapeByte =
      [digitByte (Char.ofNat m)] := by decide
  have digit : ∀ c ∈ Nat.toDigits 10 n,
      (String.utf8EncodeChar c).flatMap escapeByte = [digitByte c] := by
    intro c hc
    have hdigit := Nat.isDigit_of_mem_toDigits (b := 10) (n := n) (by decide) (by decide) hc
    have bounds : 48 ≤ c.toNat ∧ c.toNat ≤ 57 := by
      simpa [Char.isDigit, UInt32.le_iff_toNat_le] using hdigit
    have hchar := all c.toNat (by omega) bounds.1
    rwa [Char.ofNat_toNat] at hchar
  calc (Quoted.ofText (toString n)).raw
      = ((Nat.toDigits 10 n).flatMap String.utf8EncodeChar).flatMap escapeByte := by
        rw [← String.toList_ofList (l := Nat.toDigits 10 n), ← ascii_eq]
        rfl
    _ = (Nat.toDigits 10 n).map digitByte := by
        rw [List.flatMap_assoc, List.flatMap_congr digit, ← List.map_eq_flatMap]

theorem numberKey_ofText (n : UInt32) : numberKey (.ofText (toString n.toNat)) = .ok n := by
  have quote : Text.Stops isNumberByte [0x22] := Text.stops_cons.mpr (by decide)
  have number := readNumber_ofNat n.toNat quote
  have digits := isDigit_whole n.toNat
  have value : u32.decode 0 (.number (.ofNat n.toNat)) = .ok n := decode_u32 n 0
  have raw := raw_ofNat n.toNat
  unfold numberKey
  rw [raw]
  cases hw : (Numeral.ofNat n.toNat).whole with
  | nil => exact absurd (List.map_eq_nil_iff.mp hw) Nat.toDigits_ne_nil
  | cons b bs =>
    rw [hw] at number digits
    have hb := digits b List.mem_cons_self
    rw [List.cons_append] at number
    simp [Quoted.ofText, hb, number, value]

theorem Faithful.numberMap (h : c.Faithful height) : c.numberMap.Faithful (height + 1) :=
  h.map numberOrder numberKey_ofText

end Maps
end Codec

section Records

def Slots.full : {fs : List Field} → Values fs → Slots fs
  | [], _ => ()
  | _ :: _, (a, as) => (some a, full as)

theorem Slots.finish_full {fs : List Field} (as : Values fs) : (full as).finish = .ok as := by
  induction fs with
  | nil => rfl
  | cons f fs ih =>
    obtain ⟨a, as⟩ := as
    have others := ih as
    simp only [full, finish, others]
    rfl

theorem Slots.fill_past {lenient : Bool} {depth : Nat} {f : Field} {fs : List Field}
    {ms : List (Quoted × Value)} {slots filled : Slots fs} (slot : Option f.α)
    (other : ∀ m ∈ ms, ∀ key, m.1.read = .ok key → f.name ≠ key)
    (h : fill lenient depth ms slots = .ok filled) :
    @fill lenient depth (f :: fs) ms (slot, slots) = .ok (slot, filled) := by
  induction ms generalizing slots with
  | nil =>
    obtain rfl := Except.ok.inj h
    rfl
  | cons m ms ih =>
    obtain ⟨hm, hms⟩ := List.forall_mem_cons.mp other
    obtain ⟨key, hkey, h⟩ := fill_cons_iff.mp h
    refine fill_cons_iff.mpr ⟨key, hkey, ?_⟩
    obtain ⟨next, hput, h⟩ | ⟨hput, lenient, skip, h⟩ := h
    · exact .inl ⟨(slot, next), put_cons_iff.mpr (.inr ⟨hm key hkey, next, hput, rfl⟩), ih hms h⟩
    · refine .inr ⟨?_, lenient, skip, ih hms h⟩
      rw [put, if_neg (hm key hkey), hput]
      rfl

theorem Values.key_members {fs : List Field} {as : Values fs} {m : Quoted × Value}
    (hm : m ∈ as.members) : ∃ f ∈ fs, m.1 = .ofText f.name := by
  induction fs with
  | nil => exact nomatch hm
  | cons f fs ih =>
    obtain ⟨a, as⟩ := as
    obtain rfl | hm := List.mem_cons.mp hm
    · exact ⟨f, List.mem_cons_self, rfl⟩
    · obtain ⟨g, hg, hkey⟩ := ih hm
      exact ⟨g, List.mem_cons_of_mem f hg, hkey⟩

theorem Values.printed_members {height : Nat} {fs : List Field} {as : Values fs}
    (faithful : ∀ f ∈ fs, f.Faithful height) (h : as.Yielded) {m : Quoted × Value}
    (hm : m ∈ as.members) : Printed m.2 := by
  induction fs with
  | nil => exact nomatch hm
  | cons f fs ih =>
    obtain ⟨a, as⟩ := as
    obtain ⟨hf, hfs⟩ := List.forall_mem_cons.mp faithful
    obtain rfl | hm := List.mem_cons.mp hm
    · exact hf.codec.printed (hf.reads h.1)
    · exact ih hfs h.2 hm

theorem Slots.fill_members {lenient : Bool} {height depth : Nat} (hd : depth + height ≤ deepest)
    {fs : List Field} (faithful : ∀ f ∈ fs, f.Faithful height)
    (different : (fs.map Field.name).Nodup) {as : Values fs} (h : as.Yielded) :
    (empty fs).fill lenient depth as.members = .ok (full as) := by
  induction fs with
  | nil => rfl
  | cons f fs ih =>
    obtain ⟨a, as⟩ := as
    obtain ⟨hf, hfs⟩ := List.forall_mem_cons.mp faithful
    obtain ⟨hname, hnames⟩ := List.nodup_cons.mp different
    have first := hf.codec.back (hf.reads h.1) hd
    have others := fill_past (some a) (f := f) ?_ (ih hfs hnames h.2)
    · exact fill_cons_iff.mpr ⟨f.name, read_ofText f.name, .inl ⟨(some a, empty fs),
        put_cons_iff.mpr (.inl ⟨rfl, rfl, a, first, rfl⟩), others⟩⟩
    · intro m hm key hkey
      obtain ⟨g, hg, hmember⟩ := Values.key_members hm
      rw [hmember, read_ofText] at hkey
      obtain rfl := Except.ok.inj hkey
      intro heq
      exact hname (heq ▸ List.mem_map_of_mem hg)

/-- What makes a record faithful besides its fields: their names differ, and it is taken apart as it
was built. -/
structure Record.Faithful {α : Type} (r : Record α) (height : Nat) : Prop where
  fields : ∀ f ∈ r.fields, f.Faithful height
  different : (r.fields.map Field.name).Nodup
  parts_build : ∀ as, r.parts (r.build as) = as

namespace Record
variable {α : Type} {r : Record α} {height : Nat}

theorem Faithful.printed (h : r.Faithful height) {x : α} (hx : r.codec.Reads x) :
    Printed (r.codec.encode x) := by
  obtain ⟨_, _, hx⟩ := hx
  obtain ⟨as, rfl, yielded⟩ := yielded_of_decode hx
  refine .object ?_ ?_
  · intro m hm
    obtain ⟨f, _, hkey⟩ := Values.key_members hm
    exact ⟨f.name, hkey⟩
  · intro m hm
    rw [h.parts_build] at hm
    exact Values.printed_members h.fields yielded hm

theorem Faithful.back (h : r.Faithful height) {x : α} (hx : r.codec.Reads x) {depth : Nat}
    (hd : depth + (height + 1) ≤ deepest) :
    r.ofMembers depth (r.parts x).members .closed = .ok x := by
  obtain ⟨_, _, hx⟩ := hx
  obtain ⟨as, rfl, yielded⟩ := yielded_of_decode hx
  have deep : depth + 1 + height ≤ deepest := by omega
  have filled : (Slots.empty r.fields).fill r.lenient (depth + 1) as.members =
      .ok (Slots.full as) := Slots.fill_members deep h.fields h.different yielded
  rw [h.parts_build]
  exact ofMembers_iff.mpr ⟨rfl, _, as, filled, Slots.finish_full as, rfl⟩

theorem Faithful.codec (h : r.Faithful height) : r.codec.Faithful (height + 1) where
  printed := h.printed
  back := h.back

end Record
end Records
namespace Codec
variable {α : Type} {c : Codec α} {height : Nat}
open Settings (Choice choiceCodec)

theorem reads_choice {x : Choice α} (h : (choiceCodec c).Reads x) : c.list.Reads x.values := by
  obtain ⟨depth, v, h⟩ := h
  obtain ⟨_, ⟨vs, hvs, rfl⟩ | ⟨_, _, _, w, vs, _, _, hvs, rfl⟩⟩ := decode_choice_iff.mp h
  · exact ⟨depth, v, hvs⟩
  · exact ⟨depth, w, hvs⟩

theorem survey_list {as : List α} {depth : Nat} (hd : depth < deepest)
    (h : ∀ a ∈ as, (c.encode a).survey (depth + 1) = .ok ()) :
    (c.list.encode as).survey depth = .ok () := by
  have items : Value.survey.surveyItems (depth + 1) (as.map c.encode) = .ok () := by
    induction as with
    | nil => rfl
    | cons a as ih =>
      obtain ⟨ha, has⟩ := List.forall_mem_cons.mp h
      simp only [List.map_cons, Value.survey.surveyItems, ha, ok_bind, ih has]
  exact Value.survey_list_iff.mpr ⟨Nat.ne_of_lt hd, items, rfl⟩

theorem Faithful.choice (h : c.Faithful height)
    (elements : ∀ a depth, (c.encode a).survey depth = .ok ()) :
    (choiceCodec c).Faithful (height + 2) where
  printed {x} hx := by
    have values := h.list.printed (reads_choice hx)
    cases x with
    | among vs => exact values
    | outside vs =>
      exact .object (List.forall_mem_singleton.mpr ⟨"not", rfl⟩)
        (List.forall_mem_singleton.mpr values)
  back {x} hx depth hd := by
    have surveyed : ∀ depth, depth < deepest → (c.list.encode x.values).survey depth = .ok () :=
      fun depth hd => survey_list hd fun a _ => elements a _
    have values := h.list.back (reads_choice hx) (show depth + (height + 1) ≤ deepest by omega)
    cases x with
    | among vs =>
      exact decode_choice_iff.mpr ⟨surveyed depth (by omega), .inl ⟨vs, values, rfl⟩⟩
    | outside vs =>
      have inside := surveyed (depth + 1) (by omega)
      have member : Value.survey.surveyMembers (depth + 1)
          [(.ofText "not", c.list.encode vs)] = .ok () :=
        bind_eq_ok.mpr ⟨"not", read_ofText "not", check_eq_ok.mpr ⟨inside, rfl⟩⟩
      have key : [(Quoted.ofText "not", c.list.encode vs)].filter isNot =
          [(.ofText "not", c.list.encode vs)] := by
        simp [isNot, read_ofText, Except.toOption]
      exact decode_choice_iff.mpr ⟨Value.survey_object_iff.mpr ⟨by omega, member, rfl⟩,
        .inr ⟨_, _, _, _, vs, rfl, key, values, rfl⟩⟩

end Codec

namespace Field
variable {α : Type} {c : Codec α} {height : Nat}

theorem faithful_needed (name : String) (h : c.Faithful height) :
    (needed name c).Faithful height where
  codec := h
  absent _ ha := ha.elim nofun nofun

theorem faithful_maybe (name : String) (h : c.Faithful height) (notNull : ∀ a, c.encode a ≠ .null) :
    (maybe name c).Faithful height where
  codec := h.option notNull
  absent a ha := by
    obtain ha | ha := ha
    · obtain rfl := Absent.optional.inj ha
      exact ⟨0, .null, rfl⟩
    · exact nomatch ha

theorem faithful_orElse (name : String) (h : c.Faithful height) {a : α} (ha : c.Reads a) :
    (orElse name c a).Faithful height where
  codec := h
  absent b hb := by
    obtain hb | hb := hb
    · exact nomatch hb
    · obtain rfl := Absent.standard.inj hb
      exact ha

end Field
end Peering.Document
