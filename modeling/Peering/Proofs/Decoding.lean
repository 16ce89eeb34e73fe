import Peering.Proofs.Resolution

/-! When a value is taken out of a document: what has to stand there, form by form. -/
namespace Peering

theorem bind_eq_ok {ε α β : Type} {e : Except ε α} {k : α → Except ε β} {b : β} :
    e >>= k = .ok b ↔ ∃ a, e = .ok a ∧ k a = .ok b := by
  constructor
  · exact ok_of_bind
  · rintro ⟨a, rfl, h⟩
    exact h

theorem check_eq_ok {ε β : Type} {e : Except ε Unit} {k : Unit → Except ε β} {b : β} :
    e >>= k = .ok b ↔ e = .ok () ∧ k () = .ok b := by
  rw [bind_eq_ok]
  exact ⟨fun ⟨_, h⟩ => h, fun h => ⟨(), h⟩⟩

theorem map_eq_ok {ε α β : Type} {e : Except ε α} {g : α → β} {b : β} :
    e.map g = .ok b ↔ ∃ a, e = .ok a ∧ g a = b := by
  cases e with
  | error _ => exact ⟨nofun, nofun⟩
  | ok a => simp [Except.map]

namespace Document

theorem Ending.ofList_eq_ok {e : Ending} : e.ofList = .ok () ↔ e = .closed := by
  cases e <;> simp [ofList]

theorem Ending.ofObject_eq_ok {e : Ending} : e.ofObject = .ok () ↔ e = .closed := by
  cases e <;> simp [ofObject]

namespace Value

theorem survey_list_iff {items : List Value} {ending : Ending} {depth : Nat} :
    (list items ending).survey depth = .ok () ↔
      depth ≠ deepest ∧ survey.surveyItems (depth + 1) items = .ok () ∧ ending = .closed := by
  by_cases hd : depth = deepest
  · simp [survey, hd]
  · simp [survey, hd, check_eq_ok, Ending.ofList_eq_ok]

theorem survey_object_iff {members : List (Quoted × Value)} {ending : Ending} {depth : Nat} :
    (object members ending).survey depth = .ok () ↔
      depth ≠ deepest ∧ survey.surveyMembers (depth + 1) members = .ok () ∧ ending = .closed := by
  by_cases hd : depth = deepest
  · simp [survey, hd]
  · simp [survey, hd, check_eq_ok, Ending.ofObject_eq_ok]

end Value

namespace Codec
variable {α : Type} {c : Codec α} {depth : Nat} {v : Value}

theorem decode_bool_iff {b : Bool} : bool.decode depth v = .ok b ↔ v = .bool b := by
  constructor
  · intro h
    cases v with
    | bool a => exact congrArg Value.bool (Except.ok.inj h)
    | _ => exact nomatch h
  · rintro rfl
    rfl

theorem decode_u32_iff {n : UInt32} : u32.decode depth v = .ok n ↔ ∃ m i, v = .number m ∧
    m.read = .ok (.integer i) ∧ (0 ≤ i ∧ i.toNat < UInt32.size) ∧ UInt32.ofNat i.toNat = n := by
  constructor
  · intro h
    cases v with
    | number m =>
      obtain ⟨x, hx, h⟩ := bind_eq_ok.mp h
      cases x with
      | integer i =>
        simp only at h
        split at h
        · exact ⟨m, i, rfl, hx, ‹_›, Except.ok.inj h⟩
        · exact nomatch h
      | real => exact nomatch h
    | _ => exact nomatch h
  · rintro ⟨m, i, rfl, hm, range, rfl⟩
    refine bind_eq_ok.mpr ⟨_, hm, ?_⟩
    simp only [if_pos range]
    rfl

theorem decode_parsed_iff {wanted : String} {parse : String → Except Problem α}
    {print : α → String} {a : α} : (parsed wanted parse print).decode depth v = .ok a ↔
      ∃ q s, v = .text q ∧ q.read = .ok s ∧ parse s = .ok a := by
  constructor
  · intro h
    cases v with
    | text q =>
      obtain ⟨s, hs, h⟩ := bind_eq_ok.mp h
      exact ⟨q, s, rfl, hs, h⟩
    | _ => exact nomatch h
  · rintro ⟨q, s, rfl, hs, h⟩
    exact bind_eq_ok.mpr ⟨s, hs, h⟩

theorem decode_option_iff {x : Option α} : c.option.decode depth v = .ok x ↔
    v = .null ∧ x = none ∨ v ≠ .null ∧ ∃ a, c.decode depth v = .ok a ∧ x = some a := by
  by_cases hv : v = .null
  · subst hv
    simp [option, eq_comm]
  · have inside : c.option.decode depth v = (c.decode depth v).map some := by
      cases v with
      | null => exact absurd rfl hv
      | _ => rfl
    simp only [inside, map_eq_ok, hv, false_and, false_or, ne_eq, not_false_iff, true_and,
      eq_comm (a := x)]

theorem decode_list_iff {as : List α} : c.list.decode depth v = .ok as ↔
    ∃ items, v = .list items .closed ∧ items.mapM (c.decode (depth + 1)) = .ok as := by
  constructor
  · intro h
    cases v with
    | list items ending =>
      obtain ⟨bs, hbs, h⟩ := bind_eq_ok.mp h
      obtain ⟨hending, h⟩ := check_eq_ok.mp h
      obtain rfl := Except.ok.inj h
      exact ⟨items, by rw [Ending.ofList_eq_ok.mp hending], hbs⟩
    | _ => exact nomatch h
  · rintro ⟨items, rfl, h⟩
    exact bind_eq_ok.mpr ⟨as, h, rfl⟩

def putEntry {κ : Type} [DecidableEq κ] (readKey : Quoted → Except Problem κ)
    (before : κ → κ → Bool) (c : Codec α) (depth : Nat) (es : List (κ × α))
    (m : Quoted × Value) : Except Problem (List (κ × α)) := do
  let k ← readKey m.1
  let a ← c.decode (depth + 1) m.2
  return insertEntry before k a es

theorem decode_map_iff {κ : Type} [DecidableEq κ] {readKey : Quoted → Except Problem κ}
    {writeKey : κ → String} {before : κ → κ → Bool} {es : List (κ × α)} :
    (map readKey writeKey before c).decode depth v = .ok es ↔ ∃ members,
      v = .object members .closed ∧
        members.foldlM (putEntry readKey before c depth) [] = .ok es := by
  constructor
  · intro h
    cases v with
    | object members ending =>
      obtain ⟨bs, hbs, h⟩ := bind_eq_ok.mp h
      obtain ⟨hending, h⟩ := check_eq_ok.mp h
      obtain rfl := Except.ok.inj h
      exact ⟨members, by rw [Ending.ofObject_eq_ok.mp hending], hbs⟩
    | _ => exact nomatch h
  · rintro ⟨members, rfl, h⟩
    exact bind_eq_ok.mpr ⟨es, h, rfl⟩

theorem putEntry_eq_ok {κ : Type} [DecidableEq κ] {readKey : Quoted → Except Problem κ}
    {before : κ → κ → Bool} {es fs : List (κ × α)} {m : Quoted × Value} :
    putEntry readKey before c depth es m = .ok fs ↔ ∃ k, readKey m.1 = .ok k ∧
      ∃ a, c.decode (depth + 1) m.2 = .ok a ∧ insertEntry before k a es = fs := by
  simp [putEntry, bind_eq_ok, pure, Except.pure]

theorem pick_eq_ok {known : List (String × α)} {s : String} {a : α} :
    variant.pick known s = .ok a ↔ known.lookup s = some a := by
  unfold variant.pick
  cases known.lookup s with
  | none => exact ⟨nofun, nofun⟩
  | some b => simp

theorem decode_variant_iff {known : List (String × α)} {name : α → String} {a : α} :
    (variant known name).decode depth v = .ok a ↔ ∃ q s, q.read = .ok s ∧ known.lookup s = some a ∧
      (v = .text q ∨ v = .object [(q, .null)] .closed) := by
  constructor
  · intro h
    cases v with
    | text q =>
      obtain ⟨s, hs, h⟩ := bind_eq_ok.mp h
      exact ⟨q, s, hs, pick_eq_ok.mp h, .inl rfl⟩
    | object members ending =>
      cases members with
      | nil => cases ending <;> exact nomatch h
      | cons m ms =>
        obtain ⟨s, hs, h⟩ := bind_eq_ok.mp h
        obtain ⟨b, hb, h⟩ := bind_eq_ok.mp h
        obtain ⟨k, w⟩ := m
        cases w with
        | null =>
          cases ms with
          | nil =>
            cases ending with
            | closed =>
              obtain rfl := Except.ok.inj h
              exact ⟨k, s, hs, pick_eq_ok.mp hb, .inr rfl⟩
            | _ => exact nomatch h
          | cons => exact nomatch h
        | _ => exact nomatch h
    | fault f => cases f <;> exact nomatch h
    | _ => exact nomatch h
  · rintro ⟨q, s, hs, ha, rfl | rfl⟩
    · exact bind_eq_ok.mpr ⟨s, hs, pick_eq_ok.mpr ha⟩
    · exact bind_eq_ok.mpr ⟨s, hs, bind_eq_ok.mpr ⟨a, pick_eq_ok.mpr ha, rfl⟩⟩

end Codec

namespace Slots

theorem put_cons_iff {depth : Nat} {key : String} {v : Value} {f : Field} {fs : List Field}
    {slot : Option f.α} {slots : Slots fs} {next : Slots (f :: fs)} :
    @put depth key v (f :: fs) (slot, slots) = some (.ok next) ↔
      (f.name = key ∧ slot = none ∧ ∃ a, f.codec.decode depth v = .ok a ∧ next = (some a, slots)) ∨
        (f.name ≠ key ∧ ∃ others, put depth key v slots = some (.ok others) ∧
          next = (slot, others)) := by
  rw [put]
  by_cases hname : f.name = key
  · rw [if_pos hname]
    constructor
    · intro h
      have h := Option.some.inj h
      cases slot with
      | some b => exact nomatch h
      | none =>
        obtain ⟨a, ha, h⟩ := bind_eq_ok.mp h
        exact .inl ⟨hname, rfl, a, ha, (Except.ok.inj h).symm⟩
    · rintro (⟨_, rfl, a, ha, rfl⟩ | ⟨hother, _⟩)
      · exact congrArg some (bind_eq_ok.mpr ⟨a, ha, rfl⟩)
      · exact absurd hname hother
  · rw [if_neg hname]
    constructor
    · intro h
      obtain ⟨_, hput, h⟩ := Option.map_eq_some_iff.mp h
      obtain ⟨others, rfl, rfl⟩ := map_eq_ok.mp h
      exact .inr ⟨hname, others, hput, rfl⟩
    · rintro (⟨hsame, _⟩ | ⟨_, others, hput, rfl⟩)
      · exact absurd hsame hname
      · rw [hput]
        rfl

/-- A member goes into the slot of its key. One that no field knows is passed over, where that is
allowed. -/
theorem fill_cons_iff {lenient : Bool} {depth : Nat} {fs : List Field} {k : Quoted} {v : Value}
    {members : List (Quoted × Value)} {slots filled : Slots fs} :
    fill lenient depth ((k, v) :: members) slots = .ok filled ↔ ∃ key, k.read = .ok key ∧
      ((∃ next, put depth key v slots = some (.ok next) ∧
          fill lenient depth members next = .ok filled) ∨
        (put depth key v slots = none ∧ lenient = true ∧ v.skip = .ok () ∧
          fill lenient depth members slots = .ok filled)) := by
  rw [fill, bind_eq_ok]
  refine exists_congr fun key => and_congr_right fun _ => ?_
  cases hput : put depth key v slots with
  | some r =>
    simp only [bind_eq_ok]
    simp
  | none =>
    cases lenient with
    | false => exact ⟨nofun, nofun⟩
    | true =>
      simp only [if_true, check_eq_ok]
      simp

end Slots

namespace Record
variable {α : Type} {r : Record α} {depth : Nat} {x : α}

theorem ofMembers_iff {members : List (Quoted × Value)} {ending : Ending} :
    r.ofMembers depth members ending = .ok x ↔ ending = .closed ∧ ∃ slots as,
      (Slots.empty r.fields).fill r.lenient (depth + 1) members = .ok slots ∧
        slots.finish = .ok as ∧ r.build as = x := by
  unfold ofMembers
  constructor
  · intro h
    obtain ⟨slots, hslots, h⟩ := bind_eq_ok.mp h
    obtain ⟨hending, h⟩ := check_eq_ok.mp h
    obtain ⟨as, has, h⟩ := bind_eq_ok.mp h
    exact ⟨Ending.ofObject_eq_ok.mp hending, slots, as, hslots, has, Except.ok.inj h⟩
  · rintro ⟨rfl, slots, as, hslots, has, rfl⟩
    exact bind_eq_ok.mpr ⟨slots, hslots, check_eq_ok.mpr ⟨rfl, bind_eq_ok.mpr ⟨as, has, rfl⟩⟩⟩

theorem closeItems_eq_ok {rest : List Value} {ending : Ending} :
    Values.closeItems rest ending = .ok () ↔ rest = [] ∧ ending = .closed := by
  cases rest <;> cases ending <;> simp [Values.closeItems]

theorem ofItems_iff {items : List Value} {ending : Ending} :
    r.ofItems depth items ending = .ok x ↔ ending = .closed ∧ ∃ as,
      Values.ofItems (depth + 1) (fun n => .wrongLength n r.name r.fields.length) ending r.fields 0
        items = .ok (as, []) ∧ r.build as = x := by
  unfold ofItems
  constructor
  · intro h
    obtain ⟨⟨as, rest⟩, has, h⟩ := bind_eq_ok.mp h
    obtain ⟨hclose, h⟩ := check_eq_ok.mp h
    obtain ⟨rfl, rfl⟩ := closeItems_eq_ok.mp hclose
    exact ⟨rfl, as, has, Except.ok.inj h⟩
  · rintro ⟨rfl, as, has, rfl⟩
    exact bind_eq_ok.mpr ⟨(as, []), has, rfl⟩

end Record

section Choices
open Settings (Choice choiceCodec)
variable {α : Type} {c : Codec α} {depth : Nat} {v : Value}

/-- The members of a choice that count. -/
def isNot (m : Quoted × Value) : Bool := m.1.read.toOption = some "not"

theorem isNot_iff {m : Quoted × Value} : isNot m = true ↔ m.1.read = .ok "not" := by
  unfold isNot
  cases m.1.read with
  | error _ => simp [Except.toOption]
  | ok s => simp [Except.toOption]

theorem decode_choice_iff {x : Choice α} : (choiceCodec c).decode depth v = .ok x ↔
    v.survey depth = .ok () ∧
      ((∃ vs, c.list.decode depth v = .ok vs ∧ x = .among vs) ∨
        ∃ members ending k w vs, v = .object members ending ∧ members.filter isNot = [(k, w)] ∧
          c.list.decode depth w = .ok vs ∧ x = .outside vs) := by
  show (v.survey depth >>= fun _ => _) = _ ↔ _
  rw [check_eq_ok]
  refine and_congr_right fun _ => ?_
  constructor
  · intro h
    split at h
    · split at h
      · rename_i hvs
        exact .inl ⟨_, hvs, (Except.ok.inj h).symm⟩
      · exact nomatch h
    · split at h
      · rename_i hnot
        split at h
        · rename_i hvs
          exact .inr ⟨_, _, _, _, _, rfl, hnot, hvs, (Except.ok.inj h).symm⟩
        · exact nomatch h
      · exact nomatch h
    · exact nomatch h
  · rintro (⟨vs, hvs, rfl⟩ | ⟨members, ending, k, w, vs, rfl, hnot, hvs, rfl⟩)
    · obtain ⟨items, rfl, _⟩ := Codec.decode_list_iff.mp hvs
      simp only [hvs]
      rfl
    · unfold isNot at hnot
      simp only [hnot, hvs]
      rfl

end Choices

theorem read_eq_ok {α : Type} {c : Codec α} {bs : List Byte} {a : α} :
    c.read bs = .ok a ↔ c.decode 0 (Document.read bs).1 = .ok a ∧ (Document.read bs).2 = false := by
  unfold Codec.read
  generalize Document.read bs = x
  obtain ⟨v, trailing⟩ := x
  constructor
  · intro h
    obtain ⟨b, hb, h⟩ := bind_eq_ok.mp h
    cases trailing with
    | true => exact nomatch h
    | false =>
      obtain rfl := Except.ok.inj h
      exact ⟨hb, rfl⟩
  · rintro ⟨ha, rfl⟩
    exact bind_eq_ok.mpr ⟨a, ha, rfl⟩

end Document

theorem readDocument_eq_ok {α : Type} {c : Document.Codec α} {key : String}
    {bs : List Document.Byte} {a : α} : readDocument c key bs = .ok a ↔ c.read bs = .ok a := by
  unfold readDocument
  cases c.read bs with
  | error _ => exact ⟨nofun, nofun⟩
  | ok b => simp [Except.mapError]

end Peering
