import Peering.Proofs.Decoding

/-!
Which keys the structure of a document declares. Records refuse all others; a choice passes over
what stands beside its `not`.
-/
namespace Peering.Document

/-- What may stand at a place of a document, as far as keys go. -/
inductive Shape where
  | plain
  /-- A name, or an object that has it as its key. -/
  | word
  | list (elements : Shape)
  /-- An object whose keys are free. -/
  | map (values : Shape)
  /-- A list of plain values, or an object with such a list under `not`. -/
  | choice
  | record (fields : List (String × Shape))

namespace Shape

def ofRecord {α : Type} (r : Record α) (shapes : List Shape) : Shape :=
  .record ((r.fields.map Field.name).zip shapes)

def member : Shape → Quoted → Option Shape
  | map s, _ => some s
  | word, _ => some .plain
  | choice, k => if k.read.toOption = some "not" then some (list plain) else none
  | record fields, k => k.read.toOption.bind fun key => fields.lookup key
  | _, _ => none

/-- The shape of the first element of a list, and of the list without it. A record that is written
as a list has its fields in order. -/
def first : Shape → Shape
  | list s => s
  | record (f :: _) => f.2
  | _ => plain

def rest : Shape → Shape
  | choice => list plain
  | record (_ :: fs) => record fs
  | s => s

end Shape

namespace Value

/-- The keys that are not declared, each with the shape of the object that it stands in. What stands
under such a key is not looked at. -/
def undeclared (s : Shape) : Value → List (Shape × Quoted)
  | list items _ => undeclaredItems s items
  | object members _ => undeclaredMembers s members
  | _ => []
where
  undeclaredItems (s : Shape) : List Value → List (Shape × Quoted)
    | [] => []
    | v :: vs => undeclared s.first v ++ undeclaredItems s.rest vs
  undeclaredMembers (s : Shape) : List (Quoted × Value) → List (Shape × Quoted)
    | [] => []
    | (k, v) :: ms =>
      ((s.member k).elim [(s, k)] fun t => undeclared t v) ++ undeclaredMembers s ms

def declared (s : Shape) : Value → Value
  | list items ending => list (declaredItems s items) ending
  | object members ending => object (declaredMembers s members) ending
  | v => v
where
  declaredItems (s : Shape) : List Value → List Value
    | [] => []
    | v :: vs => declared s.first v :: declaredItems s.rest vs
  declaredMembers (s : Shape) : List (Quoted × Value) → List (Quoted × Value)
    | [] => []
    | (k, v) :: ms =>
      ((s.member k).elim [] fun t => [(k, declared t v)]) ++ declaredMembers s ms

def isFlat : Value → Bool
  | list _ _ | object _ _ => false
  | _ => true

theorem undeclared_flat (s : Shape) {v : Value} (h : v.isFlat = true) : v.undeclared s = [] := by
  cases v <;> first | rfl | exact nomatch h

theorem declared_flat (s : Shape) {v : Value} (h : v.isFlat = true) : v.declared s = v := by
  cases v <;> first | rfl | exact nomatch h

mutual

theorem undeclared_declared (s : Shape) : ∀ v : Value, undeclared s (declared s v) = []
  | null | bool _ | number _ | text _ | fault _ => rfl
  | list items _ => undeclared_items s items
  | object members _ => undeclared_members s members

theorem undeclared_items (s : Shape) :
    ∀ vs : List Value, undeclared.undeclaredItems s (declared.declaredItems s vs) = []
  | [] => rfl
  | v :: vs => by
    rw [declared.declaredItems, undeclared.undeclaredItems, undeclared_declared s.first v,
      undeclared_items s.rest vs]
    rfl

theorem undeclared_members (s : Shape) : ∀ ms : List (Quoted × Value),
    undeclared.undeclaredMembers s (declared.declaredMembers s ms) = []
  | [] => rfl
  | (k, v) :: ms => by
    have others := undeclared_members s ms
    rw [declared.declaredMembers]
    cases hk : s.member k with
    | none => exact others
    | some t =>
      simp [undeclared.undeclaredMembers, hk, undeclared_declared t v, others]

end

mutual

theorem survey_declared (s : Shape) : ∀ (v : Value) (depth : Nat), v.survey depth = .ok () →
    (declared s v).survey depth = .ok ()
  | null, _, h | bool _, _, h | number _, _, h | text _, _, h | fault _, _, h => h
  | list items _, depth, h => by
    obtain ⟨hd, hitems, rfl⟩ := survey_list_iff.mp h
    exact survey_list_iff.mpr ⟨hd, survey_items s items _ hitems, rfl⟩
  | object members _, depth, h => by
    obtain ⟨hd, hmembers, rfl⟩ := survey_object_iff.mp h
    exact survey_object_iff.mpr ⟨hd, survey_members s members _ hmembers, rfl⟩

theorem survey_items (s : Shape) : ∀ (vs : List Value) (depth : Nat),
    survey.surveyItems depth vs = .ok () →
    survey.surveyItems depth (declared.declaredItems s vs) = .ok ()
  | [], _, _ => rfl
  | v :: vs, depth, h => by
    obtain ⟨_, hv, h⟩ := ok_of_bind h
    rw [declared.declaredItems, survey.surveyItems, survey_declared s.first v depth hv]
    exact survey_items s.rest vs depth h

theorem survey_members (s : Shape) : ∀ (ms : List (Quoted × Value)) (depth : Nat),
    survey.surveyMembers depth ms = .ok () →
    survey.surveyMembers depth (declared.declaredMembers s ms) = .ok ()
  | [], _, _ => rfl
  | (k, v) :: ms, depth, h => by
    obtain ⟨key, hkey, h⟩ := ok_of_bind h
    obtain ⟨_, hv, h⟩ := ok_of_bind h
    have others := survey_members s ms depth h
    rw [declared.declaredMembers]
    cases hk : s.member k with
    | none => exact others
    | some t =>
      have member := survey_declared t v depth hv
      simp only [Option.elim_some, List.singleton_append, survey.surveyMembers, hkey, member]
      exact others

end

end Value

/-- The values that a codec takes have undeclared keys in choices only, and it takes them for the
same without these. -/
structure Codec.Shaped {α : Type} (c : Codec α) (s : Shape) : Prop where
  keys : ∀ {depth v a}, c.decode depth v = .ok a → ∀ k ∈ v.undeclared s, k.1 = .choice
  declared : ∀ {depth v a}, c.decode depth v = .ok a → c.decode depth (v.declared s) = .ok a

namespace Codec
variable {α : Type} {c : Codec α} {s : Shape}

theorem shaped_of_flat (h : ∀ {depth v a}, c.decode depth v = .ok a → v.isFlat = true) :
    c.Shaped s where
  keys hx k hk := by
    rw [Value.undeclared_flat s (h hx)] at hk
    exact nomatch hk
  declared hx := by rwa [Value.declared_flat s (h hx)]

theorem shaped_bool : bool.Shaped s := shaped_of_flat fun {_ v _} h => by
  cases v <;> first | rfl | exact nomatch h

theorem shaped_u32 : u32.Shaped s := shaped_of_flat fun {_ v _} h => by
  cases v <;> first | rfl | exact nomatch h

theorem shaped_parsed {wanted : String} {parse : String → Except Problem α} {print : α → String} :
    (parsed wanted parse print).Shaped s := shaped_of_flat fun {_ v _} h => by
  cases v <;> first | rfl | exact nomatch h

theorem Shaped.option (h : c.Shaped s) : c.option.Shaped s where
  keys {_ v _} hx := by
    obtain ⟨rfl, _⟩ | ⟨_, a, ha, _⟩ := decode_option_iff.mp hx
    · exact nofun
    · exact h.keys ha
  declared {_ v _} hx := by
    obtain ⟨rfl, rfl⟩ | ⟨hv, a, ha, rfl⟩ := decode_option_iff.mp hx
    · rfl
    · refine decode_option_iff.mpr (.inr ⟨?_, a, h.declared ha, rfl⟩)
      cases v <;> first | exact absurd rfl hv | exact nofun

theorem Shaped.list (h : c.Shaped s) : c.list.Shaped (.list s) where
  keys {depth v as} has := by
    obtain ⟨items, rfl, hitems⟩ := decode_list_iff.mp has
    clear has
    induction items generalizing as with
    | nil => exact nofun
    | cons v vs ih =>
      rw [List.mapM_cons] at hitems
      obtain ⟨a, ha, hitems⟩ := bind_eq_ok.mp hitems
      obtain ⟨bs, hbs, _⟩ := bind_eq_ok.mp hitems
      intro k hk
      obtain hk | hk := List.mem_append.mp hk
      · exact h.keys ha k hk
      · exact ih hbs k hk
  declared {depth v as} has := by
    obtain ⟨items, rfl, hitems⟩ := decode_list_iff.mp has
    clear has
    refine decode_list_iff.mpr ⟨_, rfl, ?_⟩
    induction items generalizing as with
    | nil => exact hitems
    | cons v vs ih =>
      rw [List.mapM_cons] at hitems
      obtain ⟨a, ha, hitems⟩ := bind_eq_ok.mp hitems
      obtain ⟨bs, hbs, hitems⟩ := bind_eq_ok.mp hitems
      rw [Value.declared.declaredItems, List.mapM_cons]
      exact bind_eq_ok.mpr ⟨a, h.declared ha, bind_eq_ok.mpr ⟨bs, ih hbs, hitems⟩⟩

theorem shaped_variant {known : List (String × α)} {name : α → String} :
    (variant known name).Shaped .word where
  keys h := by
    obtain ⟨q, _, _, _, rfl | rfl⟩ := decode_variant_iff.mp h
    · exact nofun
    · simp [Value.undeclared, Value.undeclared.undeclaredMembers, Shape.member]
  declared h := by
    obtain ⟨q, _, _, _, rfl | rfl⟩ := decode_variant_iff.mp h
    · exact h
    · exact h

theorem Shaped.textMap (h : c.Shaped s) : c.textMap.Shaped (.map s) where
  keys {depth v es} hes := by
    obtain ⟨members, rfl, hmembers⟩ := decode_map_iff.mp hes
    clear hes
    revert hmembers
    generalize [] = start
    induction members generalizing start with
    | nil => exact fun _ => nofun
    | cons m ms ih =>
      intro hmembers k hk
      rw [List.foldlM_cons] at hmembers
      obtain ⟨next, hput, hmembers⟩ := bind_eq_ok.mp hmembers
      obtain ⟨_, _, a, ha, _⟩ := putEntry_eq_ok.mp hput
      obtain hk | hk := List.mem_append.mp hk
      · exact h.keys ha k hk
      · exact ih next hmembers k hk
  declared {depth v es} hes := by
    obtain ⟨members, rfl, hmembers⟩ := decode_map_iff.mp hes
    refine decode_map_iff.mpr ⟨_, rfl, ?_⟩
    clear hes
    revert hmembers
    generalize [] = start
    induction members generalizing start with
    | nil => exact id
    | cons m ms ih =>
      intro hmembers
      rw [List.foldlM_cons] at hmembers
      obtain ⟨next, hput, hmembers⟩ := bind_eq_ok.mp hmembers
      obtain ⟨k, hk, a, ha, hnext⟩ := putEntry_eq_ok.mp hput
      exact bind_eq_ok.mpr ⟨next, putEntry_eq_ok.mpr ⟨k, hk, a, h.declared ha, hnext⟩,
        ih next hmembers⟩

theorem undeclared_choice (ms : List (Quoted × Value)) {k : Shape × Quoted}
    (hk : k ∈ Value.undeclared.undeclaredMembers .choice ms) :
    k.1 = .choice ∨ ∃ m ∈ ms.filter isNot, k ∈ m.2.undeclared (.list .plain) := by
  induction ms with
  | nil => exact nomatch hk
  | cons m ms ih =>
    obtain ⟨key, v⟩ := m
    obtain hk | hk := List.mem_append.mp hk
    · by_cases hnot : key.read.toOption = some "not"
      · rw [Shape.member, if_pos hnot] at hk
        exact .inr ⟨(key, v), List.mem_filter.mpr ⟨List.mem_cons_self, decide_eq_true hnot⟩, hk⟩
      · rw [Shape.member, if_neg hnot] at hk
        exact .inl (by rw [List.mem_singleton.mp hk])
    · refine (ih hk).imp_right ?_
      rintro ⟨m, hm, hkm⟩
      have hmem := List.mem_filter.mp hm
      exact ⟨m, List.mem_filter.mpr ⟨List.mem_cons_of_mem _ hmem.1, hmem.2⟩, hkm⟩

theorem declared_choice (ms : List (Quoted × Value)) :
    Value.declared.declaredMembers .choice ms =
      (ms.filter isNot).map fun m => (m.1, m.2.declared (.list .plain)) := by
  induction ms with
  | nil => rfl
  | cons m ms ih =>
    obtain ⟨key, v⟩ := m
    rw [Value.declared.declaredMembers, ih, Shape.member]
    by_cases hnot : key.read.toOption = some "not" <;> simp [isNot, hnot]

/-- Only the member under `not` is looked at. -/
theorem Shaped.choice (h : c.Shaped .plain) : (Settings.choiceCodec c).Shaped .choice where
  keys {depth v x} hx := by
    obtain ⟨_, ⟨vs, hvs, _⟩ | ⟨ms, _, k, w, vs, rfl, hnot, hvs, _⟩⟩ := decode_choice_iff.mp hx
    · have keys := h.list.keys hvs
      obtain ⟨items, rfl, _⟩ := decode_list_iff.mp hvs
      cases items <;> exact keys
    · intro key hkey
      obtain hkey | ⟨m, hm, hkey⟩ := undeclared_choice ms hkey
      · exact hkey
      · rw [hnot, List.mem_singleton] at hm
        subst hm
        exact h.list.keys hvs key hkey
  declared {depth v x} hx := by
    obtain ⟨survey, found⟩ := decode_choice_iff.mp hx
    refine decode_choice_iff.mpr ⟨Value.survey_declared _ v depth survey, ?_⟩
    obtain ⟨vs, hvs, rfl⟩ | ⟨ms, ending, k, w, vs, rfl, hnot, hvs, rfl⟩ := found
    · have again := h.list.declared hvs
      obtain ⟨items, rfl, _⟩ := decode_list_iff.mp hvs
      refine .inl ⟨vs, ?_, rfl⟩
      cases items <;> exact again
    · have key : isNot (k, w.declared (.list .plain)) = true :=
        List.of_mem_filter (p := isNot) (a := (k, w)) (l := ms) (by rw [hnot]; simp)
      refine .inr ⟨_, ending, k, w.declared (.list .plain), vs, rfl, ?_, h.list.declared hvs, rfl⟩
      rw [declared_choice, hnot, List.map_singleton, List.filter_singleton, key]
      rfl

end Codec

section Records

abbrev Shaped (fs : List Field) (ss : List Shape) : Prop :=
  List.Forall₂ (fun f s => f.codec.Shaped s) fs ss

theorem Slots.put_shaped {depth : Nat} {key : String} {v : Value} {fs : List Field}
    {ss : List Shape} (h : Shaped fs ss) {slots next : Slots fs}
    (hput : put depth key v slots = some (.ok next)) :
    ∃ s, ((fs.map Field.name).zip ss).lookup key = some s ∧
      (∀ k ∈ v.undeclared s, k.1 = .choice) ∧
      put depth key (v.declared s) slots = some (.ok next) := by
  induction h with
  | nil => exact nomatch hput
  | @cons f s fs ss hf hfs ih =>
    obtain ⟨slot, slots⟩ := slots
    rw [List.map_cons, List.zip_cons_cons]
    obtain ⟨rfl, empty, a, ha, hnext⟩ | ⟨hname, others, hothers, hnext⟩ := put_cons_iff.mp hput
    · exact ⟨s, List.lookup_cons_self, hf.keys ha,
        put_cons_iff.mpr (.inl ⟨rfl, empty, a, hf.declared ha, hnext⟩)⟩
    · obtain ⟨t, hlookup, keys, again⟩ := ih hothers
      have other : (key == f.name) = false := beq_false_of_ne (Ne.symm hname)
      exact ⟨t, by rw [List.lookup_cons, other, hlookup], keys,
        put_cons_iff.mpr (.inr ⟨hname, others, again, hnext⟩)⟩

theorem Slots.fill_shaped {depth : Nat} {fs : List Field} {ss : List Shape} (h : Shaped fs ss)
    {ms : List (Quoted × Value)} {slots filled : Slots fs}
    (hfill : fill false depth ms slots = .ok filled) :
    (∀ k ∈ Value.undeclared.undeclaredMembers (.record ((fs.map Field.name).zip ss)) ms,
        k.1 = .choice) ∧
      fill false depth
        (Value.declared.declaredMembers (.record ((fs.map Field.name).zip ss)) ms) slots =
          .ok filled := by
  induction ms generalizing slots with
  | nil => exact ⟨nofun, hfill⟩
  | cons m ms ih =>
    obtain ⟨k, v⟩ := m
    obtain ⟨key, hkey, ⟨next, hput, hfill⟩ | ⟨_, hlenient, _⟩⟩ := fill_cons_iff.mp hfill
    · obtain ⟨keys, again⟩ := ih hfill
      obtain ⟨s, hlookup, hkeys, hput⟩ := put_shaped h hput
      have hmember : (Shape.record ((fs.map Field.name).zip ss)).member k = some s := by
        rw [Shape.member, hkey]
        exact hlookup
      constructor
      · rw [Value.undeclared.undeclaredMembers, hmember]
        intro k hk
        exact (List.mem_append.mp hk).elim (hkeys k) (keys k)
      · rw [Value.declared.declaredMembers, hmember]
        exact fill_cons_iff.mpr ⟨key, hkey, .inl ⟨next, hput, again⟩⟩
    · exact nomatch hlenient

theorem Values.ofItems_shaped {depth : Nat} {wrongLength : Nat → Problem} {ending : Ending}
    {fs : List Field} {ss : List Shape} (h : Shaped fs ss) {taken : Nat} {vs : List Value}
    {as : Values fs} (hitems : ofItems depth wrongLength ending fs taken vs = .ok (as, [])) :
    (∀ k ∈ Value.undeclared.undeclaredItems (.record ((fs.map Field.name).zip ss)) vs,
        k.1 = .choice) ∧
      ofItems depth wrongLength ending fs taken
        (Value.declared.declaredItems (.record ((fs.map Field.name).zip ss)) vs) =
          .ok (as, []) := by
  induction h generalizing taken vs with
  | nil =>
    obtain ⟨_, rfl⟩ := Prod.mk.inj (Except.ok.inj hitems)
    exact ⟨nofun, hitems⟩
  | @cons f s fs ss hf hfs ih =>
    cases vs with
    | nil => exact ⟨nofun, hitems⟩
    | cons v vs =>
      rw [ofItems] at hitems
      obtain ⟨a, ha, hitems⟩ := bind_eq_ok.mp hitems
      obtain ⟨⟨others, left⟩, hothers, hitems⟩ := bind_eq_ok.mp hitems
      obtain ⟨rfl, rfl⟩ := Prod.mk.inj (Except.ok.inj hitems)
      obtain ⟨keys, again⟩ := ih hothers
      constructor
      · intro k hk
        exact (List.mem_append.mp hk).elim (hf.keys ha k) (keys k)
      · exact bind_eq_ok.mpr ⟨a, hf.declared ha, bind_eq_ok.mpr ⟨(others, []), again, rfl⟩⟩

namespace Record
variable {α : Type} {r : Record α} {ss : List Shape} {depth : Nat}

theorem ofMembers_shaped (strict : r.lenient = false) (h : Shaped r.fields ss)
    {members : List (Quoted × Value)} {ending : Ending} {x : α}
    (hx : r.ofMembers depth members ending = .ok x) :
    (∀ k ∈ (Value.object members ending).undeclared (.ofRecord r ss), k.1 = .choice) ∧
      r.ofMembers depth (Value.declared.declaredMembers (.ofRecord r ss) members) ending =
        .ok x := by
  obtain ⟨hending, slots, as, hslots, has, hx⟩ := ofMembers_iff.mp hx
  rw [strict] at hslots
  obtain ⟨keys, again⟩ := Slots.fill_shaped h hslots
  rw [← strict] at again
  exact ⟨keys, ofMembers_iff.mpr ⟨hending, slots, as, again, has, hx⟩⟩

theorem shaped (strict : r.lenient = false) (h : Shaped r.fields ss) :
    r.codec.Shaped (.ofRecord r ss) where
  keys {_ v _} hx := by
    cases v with
    | list items ending =>
      obtain ⟨_, as, has, _⟩ := ofItems_iff.mp hx
      exact (Values.ofItems_shaped h has).1
    | object members ending => exact (ofMembers_shaped strict h hx).1
    | _ => exact nomatch hx
  declared {_ v _} hx := by
    cases v with
    | list items ending =>
      obtain ⟨hending, as, has, hx⟩ := ofItems_iff.mp hx
      exact ofItems_iff.mpr ⟨hending, as, (Values.ofItems_shaped h has).2, hx⟩
    | object members ending => exact (ofMembers_shaped strict h hx).2
    | _ => exact nomatch hx

end Record

theorem shaped_of_ofMembers {α β : Type} {c : Codec α} {r : Record β} {ss : List Shape}
    (strict : r.lenient = false) (h : Shaped r.fields ss) (build : β → α)
    (object : ∀ depth members ending, c.decode depth (.object members ending) =
      (r.ofMembers depth members ending).map build)
    (noList : ∀ depth items ending a, c.decode depth (.list items ending) ≠ .ok a) :
    c.Shaped (.ofRecord r ss) where
  keys {depth v a} ha := by
    cases v with
    | object members ending =>
      rw [object] at ha
      obtain ⟨x, hx, _⟩ := map_eq_ok.mp ha
      exact (Record.ofMembers_shaped strict h hx).1
    | list items ending => exact absurd ha (noList depth items ending a)
    | _ => exact nofun
  declared {depth v a} ha := by
    cases v with
    | object members ending =>
      rw [object] at ha
      obtain ⟨x, hx, hbuild⟩ := map_eq_ok.mp ha
      rw [Value.declared, object, (Record.ofMembers_shaped strict h hx).2, ← hbuild]
      rfl
    | list items ending => exact absurd ha (noList depth items ending a)
    | _ => exact ha

end Records
end Peering.Document
