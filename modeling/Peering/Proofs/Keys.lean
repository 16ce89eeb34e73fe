import Peering.Proofs.Decoding

/-! Every value in a record comes from its field, and the entries of a map have different keys. -/
namespace Peering.Document
open Codec (insertEntry)

/-- An order in which keys can stand: of two different keys, one comes before the other. -/
structure KeyOrder {κ : Type} (before : κ → κ → Bool) : Prop where
  irrefl : ∀ k, before k k = false
  trans : ∀ {k l m}, before k l = true → before l m = true → before k m = true
  total : ∀ {k l}, k ≠ l → before k l = false → before l k = true

theorem KeyOrder.asymm {κ : Type} {before : κ → κ → Bool} (order : KeyOrder before) {k l : κ}
    (h : before k l = true) : k ≠ l ∧ ¬ before l k = true := by
  constructor
  · rintro rfl
    exact absurd h (by simp [order.irrefl])
  · intro hback
    exact absurd (order.trans h hback) (by simp [order.irrefl])

def InOrder {κ α : Type} (before : κ → κ → Bool) (es : List (κ × α)) : Prop :=
  es.Pairwise fun a b => before a.1 b.1 = true

section Maps
variable {κ α : Type} {before : κ → κ → Bool}

theorem nodup_of_inOrder (order : KeyOrder before) {es : List (κ × α)} (h : InOrder before es) :
    (es.map Prod.fst).Nodup := by
  rw [List.Nodup, List.pairwise_map]
  refine h.imp fun hab heq => ?_
  rw [heq, order.irrefl] at hab
  exact nomatch hab

variable [DecidableEq κ]

theorem mem_insertEntry {k : κ} {a : α} {es : List (κ × α)} {e : κ × α}
    (h : e ∈ insertEntry before k a es) : e = (k, a) ∨ e ∈ es := by
  induction es with
  | nil =>
    obtain rfl := List.mem_singleton.mp h
    exact .inl rfl
  | cons d es ih =>
    rw [insertEntry] at h
    split at h
    · obtain rfl | he := List.mem_cons.mp h
      · exact .inl rfl
      · exact .inr (List.mem_cons_of_mem d he)
    · split at h
      · obtain rfl | he := List.mem_cons.mp h
        · exact .inl rfl
        · exact .inr he
      · obtain rfl | he := List.mem_cons.mp h
        · exact .inr List.mem_cons_self
        · exact (ih he).imp_right (List.mem_cons_of_mem d)

theorem insertEntry_of_fresh {k : κ} {es : List (κ × α)} (fresh : k ∉ es.map Prod.fst) (a : α) :
    ∃ front back, es = front ++ back ∧ insertEntry before k a es = front ++ (k, a) :: back := by
  induction es with
  | nil => exact ⟨[], [], rfl, rfl⟩
  | cons d es ih =>
    obtain ⟨hd, hes⟩ := not_or.mp (mt List.mem_cons.mpr fresh)
    rw [insertEntry, if_neg hd]
    split
    · exact ⟨[], d :: es, rfl, rfl⟩
    · obtain ⟨front, back, rfl, hinsert⟩ := ih hes
      exact ⟨d :: front, back, rfl, congrArg (d :: ·) hinsert⟩

theorem inOrder_insertEntry (order : KeyOrder before) (k : κ) (a : α) {es : List (κ × α)}
    (h : InOrder before es) : InOrder before (insertEntry before k a es) := by
  induction es with
  | nil => exact List.pairwise_singleton _ _
  | cons d es ih =>
    obtain ⟨hd, hes⟩ := List.pairwise_cons.mp h
    rw [insertEntry]
    by_cases hkd : k = d.1
    · rw [if_pos hkd]
      exact List.pairwise_cons.mpr ⟨fun e he => hkd ▸ hd e he, hes⟩
    · rw [if_neg hkd]
      by_cases hbefore : before k d.1 = true
      · rw [if_pos hbefore]
        refine List.pairwise_cons.mpr ⟨fun e he => ?_, h⟩
        obtain rfl | he := List.mem_cons.mp he
        · exact hbefore
        · exact order.trans hbefore (hd e he)
      · rw [if_neg hbefore]
        refine List.pairwise_cons.mpr ⟨fun e he => ?_, ih hes⟩
        obtain rfl | he := mem_insertEntry he
        · exact order.total hkd (Bool.not_eq_true _ ▸ hbefore)
        · exact hd e he

theorem inOrder_of_decode (order : KeyOrder before) {readKey : Quoted → Except Problem κ}
    {writeKey : κ → String} {c : Codec α} {depth : Nat} {v : Value} {es : List (κ × α)}
    (h : (Codec.map readKey writeKey before c).decode depth v = .ok es) : InOrder before es := by
  obtain ⟨members, _, hfold⟩ := Codec.decode_map_iff.mp h
  refine foldlM_induct (P := fun _ es => InOrder before es) hfold List.Pairwise.nil ?_
  intro _ m _ _ hes hput
  obtain ⟨k, _, a, _, rfl⟩ := Codec.putEntry_eq_ok.mp hput
  exact inOrder_insertEntry order k a hes

end Maps

theorem stringOrder : KeyOrder fun s t : String => decide (s < t) where
  irrefl s := decide_eq_false (String.lt_irrefl s)
  trans h k := decide_eq_true (String.lt_trans (of_decide_eq_true h) (of_decide_eq_true k))
  total := by
    intro s t hne h
    have hle : t ≤ s := String.not_lt.mp (of_decide_eq_false h)
    refine decide_eq_true (Decidable.byContradiction fun hlt => hne ?_)
    exact String.le_antisymm (String.not_lt.mp hlt) hle

/-- How a field can come by its value: it was read, or it was missing. -/
def Field.Yields (f : Field) (a : f.α) : Prop :=
  (∃ depth v, f.codec.decode depth v = .ok a) ∨ f.absent = .optional a ∨ f.absent = .standard a

def Values.Yielded : {fs : List Field} → Values fs → Prop
  | [], _ => True
  | f :: _, (a, as) => f.Yields a ∧ Yielded as

def Slots.Yielded : {fs : List Field} → Slots fs → Prop
  | [], _ => True
  | f :: _, (slot, slots) => (∀ a, slot = some a → f.Yields a) ∧ Yielded slots

namespace Slots

theorem yielded_empty (fs : List Field) : (empty fs).Yielded := by
  induction fs with
  | nil => trivial
  | cons f fs ih => exact ⟨nofun, ih⟩

theorem yielded_put {depth : Nat} {key : String} {v : Value} {fs : List Field}
    {slots filled : Slots fs} (hs : slots.Yielded)
    (h : put depth key v slots = some (.ok filled)) : filled.Yielded := by
  induction fs with
  | nil => exact nomatch h
  | cons f fs ih =>
    obtain ⟨slot, slots⟩ := slots
    obtain ⟨_, _, a, ha, rfl⟩ | ⟨_, others, hothers, rfl⟩ := put_cons_iff.mp h
    · refine ⟨fun b hb => ?_, hs.2⟩
      obtain rfl := Option.some.inj hb
      exact .inl ⟨depth, v, ha⟩
    · exact ⟨hs.1, ih hs.2 hothers⟩

theorem yielded_fill {lenient : Bool} {depth : Nat} {fs : List Field}
    {members : List (Quoted × Value)} {slots filled : Slots fs} (hs : slots.Yielded)
    (h : fill lenient depth members slots = .ok filled) : filled.Yielded := by
  induction members generalizing slots with
  | nil =>
    obtain rfl := Except.ok.inj h
    exact hs
  | cons m ms ih =>
    obtain ⟨key, _, ⟨next, hput, h⟩ | ⟨_, _, _, h⟩⟩ := fill_cons_iff.mp h
    · exact ih (yielded_put hs hput) h
    · exact ih hs h

theorem yielded_finish {fs : List Field} {slots : Slots fs} {as : Values fs} (hs : slots.Yielded)
    (h : slots.finish = .ok as) : as.Yielded := by
  induction fs with
  | nil => trivial
  | cons f fs ih =>
    rw [finish.eq_def] at h
    obtain ⟨slot, slots⟩ := slots
    have found : ∃ a, f.Yields a ∧ (do
        let others ← slots.finish
        return (a, others) : Except Problem (f.α × Values fs)) = .ok as := by
      cases slot with
      | some a => exact ⟨a, hs.1 a rfl, h⟩
      | none =>
        cases habsent : f.absent with
        | required =>
          simp only [habsent] at h
          exact nomatch h
        | optional a =>
          simp only [habsent] at h
          exact ⟨a, .inr (.inl habsent), h⟩
        | standard a =>
          simp only [habsent] at h
          exact ⟨a, .inr (.inr habsent), h⟩
    obtain ⟨a, ha, h⟩ := found
    obtain ⟨others, hothers, h⟩ := ok_of_bind h
    obtain rfl := Except.ok.inj h
    exact ⟨ha, ih hs.2 hothers⟩

end Slots

theorem Values.yielded_ofItems {depth : Nat} {wrongLength : Nat → Problem} {ending : Ending}
    {fs : List Field} {taken : Nat} {vs rest : List Value} {as : Values fs}
    (h : ofItems depth wrongLength ending fs taken vs = .ok (as, rest)) : as.Yielded := by
  induction fs generalizing taken vs with
  | nil => trivial
  | cons f fs ih =>
    cases vs with
    | nil =>
      rw [ofItems] at h
      obtain ⟨_, _, h⟩ := ok_of_bind h
      cases ha : f.absent with
      | standard a =>
        rw [ha] at h
        obtain ⟨⟨others, left⟩, hothers, h⟩ := ok_of_bind h
        obtain ⟨rfl, rfl⟩ := Prod.mk.inj (Except.ok.inj h)
        exact ⟨.inr (.inr ha), ih hothers⟩
      | required | optional a =>
        rw [ha] at h
        exact nomatch h
    | cons v vs =>
      rw [ofItems] at h
      obtain ⟨a, ha, h⟩ := ok_of_bind h
      obtain ⟨⟨others, left⟩, hothers, h⟩ := ok_of_bind h
      obtain ⟨rfl, rfl⟩ := Prod.mk.inj (Except.ok.inj h)
      exact ⟨.inl ⟨depth, v, ha⟩, ih hothers⟩

theorem Record.yielded_of_decode {α : Type} {r : Record α} {depth : Nat} {v : Value} {x : α}
    (h : r.codec.decode depth v = .ok x) : ∃ as, r.build as = x ∧ as.Yielded := by
  cases v with
  | list items ending =>
    obtain ⟨_, as, has, hx⟩ := ofItems_iff.mp h
    exact ⟨as, hx, Values.yielded_ofItems has⟩
  | object members ending =>
    obtain ⟨_, slots, as, hslots, has, hx⟩ := ofMembers_iff.mp h
    exact ⟨as, hx, Slots.yielded_finish (Slots.yielded_fill (Slots.yielded_empty _) hslots) has⟩
  | _ => exact nomatch h

end Peering.Document

namespace Peering
open Document

/-- No two peers that a document configures have one name. -/
theorem names_readSettings {bs : List Byte} {s : Settings.Router} (h : readSettings bs = .ok s) :
    (s.peers.map Prod.fst).Nodup := by
  have hv := (read_eq_ok.mp (readDocument_eq_ok.mp h)).1
  obtain ⟨⟨asn, routerId, clusterId, fromMaster, originate, peers, _⟩, rfl, yielded⟩ :=
    Record.yielded_of_decode hv
  obtain ⟨_, _, _, _, _, hpeers, _⟩ := yielded
  show (List.map Prod.fst peers).Nodup
  obtain ⟨depth, v, hread⟩ | hmissing | hmissing := hpeers
  · exact nodup_of_inOrder stringOrder (inOrder_of_decode stringOrder hread)
  · exact nomatch hmissing
  · obtain rfl := Absent.standard.inj hmissing
    exact List.Pairwise.nil

end Peering
