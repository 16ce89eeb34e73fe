import Mathlib.Data.List.Forall2
import Mathlib.Data.List.Perm.Basic
import Peering.Proofs.Decoding

/-!
Documents that say the same with the members of their objects in another order. Their texts and
numbers may be written in other ways too.
-/
namespace Peering.Document

theorem skip_of_unescape {closed : Bool} {bs out : List Byte}
    (h : Quoted.unescape closed bs = .ok out) : Quoted.skip closed bs = .ok () := by
  fun_induction Quoted.unescape closed bs generalizing out with
  | case1 hc => rw [Quoted.skip, if_pos hc]
  | case3 a b c d rest ihPair ih =>
    obtain ⟨n, hn, h⟩ := bind_eq_ok.mp h
    rw [Quoted.skip, hn]
    split at h
    · exact nomatch h
    · split at h
      · -- a surrogate pair, whose second half is passed over as an escape of its own
        split at h
        · obtain ⟨m, hm, h⟩ := bind_eq_ok.mp h
          split at h
          · obtain ⟨_, hrest, _⟩ := bind_eq_ok.mp h
            show Quoted.skip closed _ = .ok ()
            rw [Quoted.skip, hm]
            exact ihPair hrest
          · exact nomatch h
        all_goals exact nomatch h
      · obtain ⟨_, hrest, _⟩ := bind_eq_ok.mp h
        exact ih hrest
  | case5 a rest hu hu' b hb ih =>
    obtain ⟨_, hrest, _⟩ := bind_eq_ok.mp h
    rw [Quoted.skip, hb]
    · exact ih hrest
    · exact hu
    · exact hu'
  | case9 b rest h1 h2 h3 h4 hb ih =>
    obtain ⟨_, hrest, _⟩ := bind_eq_ok.mp h
    rw [Quoted.skip, if_neg hb]
    · exact ih hrest
    · exact h1
    · exact h2
    · exact h3
    · exact h4
  | case2 | case4 | case6 | case7 | case8 => exact nomatch h

theorem closed_of_skip {closed : Bool} {bs : List Byte} (h : Quoted.skip closed bs = .ok ()) :
    closed = true := by
  fun_induction Quoted.skip closed bs with
  | case1 hc => exact hc
  | case3 _ _ _ _ _ ih =>
    obtain ⟨_, _, h⟩ := bind_eq_ok.mp h
    exact ih h
  | case5 _ _ _ _ _ ih => exact ih h
  | case9 _ _ _ _ _ _ _ ih => exact ih h
  | case2 | case4 | case6 | case7 | case8 => exact nomatch h

theorem Quoted.closed_of_read {q : Quoted} {s : String} (h : q.read = .ok s) : q.closed = true := by
  obtain ⟨_, hbytes, _⟩ := bind_eq_ok.mp h
  exact closed_of_skip (skip_of_unescape hbytes)

/-- The same text, however it is written. Nothing is the same as a text that does not end. -/
def Quoted.Same (q r : Quoted) : Prop :=
  q.closed = true ∧ r.closed = true ∧ (q.raw = r.raw ∨ ∃ s, q.read = .ok s ∧ r.read = .ok s)

/-- The same number, however it is written. An integer is told apart from a real. -/
def Numeral.Same (m n : Numeral) : Prop :=
  m.fault = none ∧ n.fault = none ∧ (m = n ∨ ∃ x, m.read = .ok x ∧ n.read = .ok x)

namespace Quoted.Same
variable {q r t : Quoted}

theorem symm : q.Same r → r.Same q
  | ⟨hq, hr, .inl h⟩ => ⟨hr, hq, .inl h.symm⟩
  | ⟨hq, hr, .inr ⟨s, hqs, hrs⟩⟩ => ⟨hr, hq, .inr ⟨s, hrs, hqs⟩⟩

theorem eq_or_read (h : q.Same r) : q = r ∨ ∃ s, q.read = .ok s ∧ r.read = .ok s := by
  obtain ⟨hq, hr, hraw | hread⟩ := h
  · cases q
    cases r
    simp only at hq hr hraw
    subst hq hr hraw
    exact .inl rfl
  · exact .inr hread

theorem read (h : q.Same r) {s : String} (hq : q.read = .ok s) : r.read = .ok s := by
  obtain rfl | ⟨t, ht, hr⟩ := h.eq_or_read
  · exact hq
  · exact hr.trans (ht.symm.trans hq)

theorem trans (h : q.Same r) (h' : r.Same t) : q.Same t := by
  obtain rfl | ⟨s, hq, hr⟩ := h.eq_or_read
  · exact h'
  · exact ⟨h.1, h'.2.1, .inr ⟨s, hq, h'.read hr⟩⟩

end Quoted.Same

theorem Quoted.Same.of_read {q r : Quoted} {s : String} (hq : q.read = .ok s)
    (hr : r.read = .ok s) : q.Same r :=
  ⟨closed_of_read hq, closed_of_read hr, .inr ⟨s, hq, hr⟩⟩

namespace Numeral.Same
variable {m n : Numeral}

theorem symm : m.Same n → n.Same m
  | ⟨hm, hn, .inl h⟩ => ⟨hn, hm, .inl h.symm⟩
  | ⟨hm, hn, .inr ⟨x, hmx, hnx⟩⟩ => ⟨hn, hm, .inr ⟨x, hnx, hmx⟩⟩

theorem read (h : m.Same n) {x : Number} (hm : m.read = .ok x) : n.read = .ok x := by
  obtain ⟨_, _, rfl | ⟨y, hy, hn⟩⟩ := h
  · exact hm
  · exact hn.trans (hy.symm.trans hm)

theorem skip (h : m.Same n) : n.skip = .ok () := by
  simp [Numeral.skip, h.2.1]

end Numeral.Same

theorem Quoted.Same.skip {q r : Quoted} (h : q.Same r) (hq : Quoted.skip q.closed q.raw = .ok ()) :
    Quoted.skip r.closed r.raw = .ok () := by
  obtain rfl | ⟨s, _, hr⟩ := h.eq_or_read
  · exact hq
  · obtain ⟨bytes, hbytes, _⟩ := bind_eq_ok.mp hr
    exact skip_of_unescape hbytes

def OtherKey (m n : Quoted × Value) : Prop := ¬ m.1.Same n.1

theorem OtherKey.symm {m n : Quoted × Value} (h : OtherKey m n) : OtherKey n m :=
  fun same => h same.symm

section Lists
variable {α β : Type} {R : α → β → Prop} {as : List α} {bs : List β}

theorem exists_of_mem_right (h : List.Forall₂ R as bs) {b : β} (hb : b ∈ bs) : ∃ a ∈ as, R a b := by
  induction h with
  | nil => exact nomatch hb
  | cons hab _ ih =>
    obtain rfl | hb := List.mem_cons.mp hb
    · exact ⟨_, List.mem_cons_self, hab⟩
    · obtain ⟨a, ha, hab⟩ := ih hb
      exact ⟨a, List.mem_cons_of_mem _ ha, hab⟩

theorem pairwise_of_forall₂ {D : α → α → Prop} {E : β → β → Prop}
    (transfer : ∀ a b c d, R a b → R c d → D a c → E b d) (h : List.Forall₂ R as bs)
    (pairwise : as.Pairwise D) : bs.Pairwise E := by
  induction h with
  | nil => exact .nil
  | cons hab htail ih =>
    obtain ⟨first, others⟩ := List.pairwise_cons.mp pairwise
    refine List.pairwise_cons.mpr ⟨fun d hd => ?_, ih others⟩
    obtain ⟨c, hc, hcd⟩ := exists_of_mem_right htail hd
    exact transfer _ _ _ _ hab hcd (first c hc)

theorem forall₂_and_right {p : β → Prop} (h : List.Forall₂ R as bs) (hp : ∀ b ∈ bs, p b) :
    List.Forall₂ (fun a b => R a b ∧ p b) as bs := by
  induction h with
  | nil => exact .nil
  | cons hab _ ih =>
    obtain ⟨hb, hbs⟩ := List.forall_mem_cons.mp hp
    exact .cons ⟨hab, hb⟩ (ih hbs)

end Lists

namespace Value

/-- The same value, up to the order of members. A value with a fault is the same as none. -/
def Same : Value → Value → Prop
  | null, null => True
  | bool a, bool b => a = b
  | number m, number n => m.Same n
  | text q, text r => q.Same r
  | list vs .closed, list ws .closed => sameItems vs ws
  | object ms .closed, object ns .closed => ∃ os, os.Perm ns ∧ sameMembers ms os
  | _, _ => False
where
  sameItems : List Value → List Value → Prop
    | [], [] => True
    | v :: vs, w :: ws => Same v w ∧ sameItems vs ws
    | _, _ => False
  sameMembers : List (Quoted × Value) → List (Quoted × Value) → Prop
    | [], [] => True
    | (k, v) :: ms, (l, w) :: ns => k.Same l ∧ Same v w ∧ sameMembers ms ns
    | _, _ => False

def Distinct : Value → Prop
  | list vs _ => distinctItems vs
  | object ms _ => ms.Pairwise OtherKey ∧ distinctMembers ms
  | _ => True
where
  distinctItems : List Value → Prop
    | [] => True
    | v :: vs => Distinct v ∧ distinctItems vs
  distinctMembers : List (Quoted × Value) → Prop
    | [] => True
    | (_, v) :: ms => Distinct v ∧ distinctMembers ms

def SameMember (m n : Quoted × Value) : Prop := m.1.Same n.1 ∧ Same m.2 n.2

theorem sameItems_iff {vs ws : List Value} : Same.sameItems vs ws ↔ List.Forall₂ Same vs ws := by
  induction vs generalizing ws with
  | nil => cases ws <;> simp [Same.sameItems]
  | cons v vs ih => cases ws <;> simp [Same.sameItems, ih]

theorem sameMembers_iff {ms ns : List (Quoted × Value)} :
    Same.sameMembers ms ns ↔ List.Forall₂ SameMember ms ns := by
  induction ms generalizing ns with
  | nil => cases ns <;> simp [Same.sameMembers]
  | cons m ms ih => cases ns <;> simp [Same.sameMembers, SameMember, ih, and_assoc]

theorem distinctItems_iff {vs : List Value} :
    Distinct.distinctItems vs ↔ ∀ v ∈ vs, Distinct v := by
  induction vs with
  | nil => simp [Distinct.distinctItems]
  | cons v vs ih => simp [Distinct.distinctItems, ih]

theorem distinctMembers_iff {ms : List (Quoted × Value)} :
    Distinct.distinctMembers ms ↔ ∀ m ∈ ms, Distinct m.2 := by
  induction ms with
  | nil => simp [Distinct.distinctMembers]
  | cons m ms ih => simp [Distinct.distinctMembers, ih]

theorem Same.null_left {w : Value} (h : Same .null w) : w = .null := by
  cases w <;> first | rfl | exact h.elim

theorem Same.bool_left {b : Bool} {w : Value} (h : Same (.bool b) w) : w = .bool b := by
  cases w <;> first | exact (congrArg Value.bool h).symm | exact h.elim

theorem Same.number_left {m : Numeral} {w : Value} (h : Same (.number m) w) :
    ∃ n, w = .number n ∧ m.Same n := by
  cases w <;> first | exact ⟨_, rfl, h⟩ | exact h.elim

theorem Same.text_left {q : Quoted} {w : Value} (h : Same (.text q) w) :
    ∃ r, w = .text r ∧ q.Same r := by
  cases w <;> first | exact ⟨_, rfl, h⟩ | exact h.elim

theorem Same.list_left {vs : List Value} {ending : Ending} {w : Value}
    (h : Same (.list vs ending) w) :
    ending = .closed ∧ ∃ ws, w = .list ws .closed ∧ List.Forall₂ Same vs ws := by
  cases ending <;> cases w <;> first | exact h.elim | skip
  rename_i ws f
  cases f <;> first | exact h.elim | skip
  exact ⟨rfl, ws, rfl, sameItems_iff.mp h⟩

theorem Same.object_left {ms : List (Quoted × Value)} {ending : Ending} {w : Value}
    (h : Same (.object ms ending) w) : ending = .closed ∧ ∃ os ns, w = .object ns .closed ∧
      os.Perm ns ∧ List.Forall₂ SameMember ms os := by
  cases ending <;> cases w <;> first | exact h.elim | skip
  rename_i ns f
  cases f <;> first | exact h.elim | skip
  obtain ⟨os, perm, members⟩ := h
  exact ⟨rfl, os, ns, rfl, perm, sameMembers_iff.mp members⟩

mutual

theorem Same.symm : ∀ {v w : Value}, Same v w → Same w v
  | null, w, h => by
    obtain rfl := h.null_left
    exact h
  | bool b, w, h => by
    obtain rfl := h.bool_left
    exact h
  | number m, w, h => by
    obtain ⟨n, rfl, hmn⟩ := h.number_left
    exact Numeral.Same.symm hmn
  | text q, w, h => by
    obtain ⟨r, rfl, hqr⟩ := h.text_left
    exact Quoted.Same.symm hqr
  | fault f, w, h => by cases w <;> exact h.elim
  | list vs e, w, h => by
    obtain ⟨rfl, ws, rfl, items⟩ := h.list_left
    exact sameItems_symm (sameItems_iff.mpr items)
  | object ms e, w, h => by
    obtain ⟨rfl, os, ns, rfl, perm, members⟩ := h.object_left
    have back := sameMembers_iff.mp (sameMembers_symm (sameMembers_iff.mpr members))
    obtain ⟨ps, hps, hperm⟩ := List.perm_comp_forall₂ perm.symm back
    exact ⟨ps, hperm, sameMembers_iff.mpr hps⟩

theorem sameItems_symm : ∀ {vs ws : List Value}, Same.sameItems vs ws → Same.sameItems ws vs
  | [], [], _ => trivial
  | _ :: _, _ :: _, h => ⟨Same.symm h.1, sameItems_symm h.2⟩

theorem sameMembers_symm : ∀ {ms ns : List (Quoted × Value)},
    Same.sameMembers ms ns → Same.sameMembers ns ms
  | [], [], _ => trivial
  | (_, _) :: _, (_, _) :: _, h => ⟨Quoted.Same.symm h.1, Same.symm h.2.1, sameMembers_symm h.2.2⟩

end

theorem SameMember.otherKey {m m' n n' : Quoted × Value} (hm : SameMember m m')
    (hn : SameMember n n') (h : OtherKey m n) : OtherKey m' n' :=
  fun same => h ((hm.1.trans same).trans hn.1.symm)

theorem pairwise_otherKey {ms os ns : List (Quoted × Value)}
    (members : List.Forall₂ SameMember ms os) (perm : os.Perm ns) (h : ms.Pairwise OtherKey) :
    ns.Pairwise OtherKey :=
  (perm.pairwise_iff OtherKey.symm).mp
    (pairwise_of_forall₂ (E := OtherKey) (fun _ _ _ _ hm hn h => hm.otherKey hn h) members h)

mutual

theorem Same.distinct : ∀ {v w : Value}, Same v w → Distinct v → Distinct w
  | null, w, h, _ | bool _, w, h, _ | number _, w, h, _ | text _, w, h, _ | fault _, w, h, _ => by
    cases w <;> trivial
  | list vs e, w, h, d => by
    obtain ⟨rfl, ws, rfl, items⟩ := h.list_left
    exact distinctItems_of_same (sameItems_iff.mpr items) d
  | object ms e, w, h, d => by
    obtain ⟨rfl, os, ns, rfl, perm, members⟩ := h.object_left
    refine ⟨pairwise_otherKey members perm d.1, ?_⟩
    have inside := distinctMembers_of_same (sameMembers_iff.mpr members) d.2
    rw [distinctMembers_iff] at inside ⊢
    exact fun n hn => inside n (perm.mem_iff.mpr hn)

theorem distinctItems_of_same : ∀ {vs ws : List Value}, Same.sameItems vs ws →
    Distinct.distinctItems vs → Distinct.distinctItems ws
  | [], [], _, _ => trivial
  | _ :: _, _ :: _, h, d => ⟨Same.distinct h.1 d.1, distinctItems_of_same h.2 d.2⟩

theorem distinctMembers_of_same : ∀ {ms ns : List (Quoted × Value)}, Same.sameMembers ms ns →
    Distinct.distinctMembers ms → Distinct.distinctMembers ns
  | [], [], _, _ => trivial
  | (_, _) :: _, (_, _) :: _, h, d =>
    ⟨Same.distinct h.2.1 d.1, distinctMembers_of_same h.2.2 d.2⟩

end

theorem surveyMembers_iff {depth : Nat} {ms : List (Quoted × Value)} :
    survey.surveyMembers depth ms = .ok () ↔
      ∀ m ∈ ms, (∃ s, m.1.read = .ok s) ∧ m.2.survey depth = .ok () := by
  induction ms with
  | nil => simp [survey.surveyMembers]
  | cons m ms ih =>
    rw [List.forall_mem_cons, ← ih]
    constructor
    · intro h
      obtain ⟨s, hk, h⟩ := bind_eq_ok.mp h
      obtain ⟨hv, hms⟩ := check_eq_ok.mp h
      exact ⟨⟨⟨s, hk⟩, hv⟩, hms⟩
    · rintro ⟨⟨⟨s, hk⟩, hv⟩, hms⟩
      exact bind_eq_ok.mpr ⟨s, hk, check_eq_ok.mpr ⟨hv, hms⟩⟩

mutual

theorem Same.survey : ∀ {v w : Value} {depth : Nat}, Same v w → v.survey depth = .ok () →
    w.survey depth = .ok ()
  | null, w, _, h, hs => by
    obtain rfl := h.null_left
    exact hs
  | bool b, w, _, h, hs => by
    obtain rfl := h.bool_left
    exact hs
  | number m, w, _, h, hs => by
    obtain ⟨n, rfl, hmn⟩ := h.number_left
    obtain ⟨x, hx, _⟩ := bind_eq_ok.mp hs
    exact bind_eq_ok.mpr ⟨x, hmn.read hx, rfl⟩
  | text q, w, _, h, hs => by
    obtain ⟨r, rfl, hqr⟩ := h.text_left
    obtain ⟨s, hq, _⟩ := bind_eq_ok.mp hs
    exact bind_eq_ok.mpr ⟨s, hqr.read hq, rfl⟩
  | fault f, w, _, h, _ => by cases w <;> exact h.elim
  | list vs e, w, _, h, hs => by
    obtain ⟨rfl, ws, rfl, items⟩ := h.list_left
    obtain ⟨hd, hitems, _⟩ := survey_list_iff.mp hs
    exact survey_list_iff.mpr ⟨hd, surveyItems_of_same (sameItems_iff.mpr items) hitems, rfl⟩
  | object ms e, w, _, h, hs => by
    obtain ⟨rfl, os, ns, rfl, perm, members⟩ := h.object_left
    obtain ⟨hd, hmembers, _⟩ := survey_object_iff.mp hs
    have taken := surveyMembers_of_same (sameMembers_iff.mpr members) hmembers
    refine survey_object_iff.mpr ⟨hd, surveyMembers_iff.mpr fun n hn => ?_, rfl⟩
    exact surveyMembers_iff.mp taken n (perm.mem_iff.mpr hn)

theorem surveyItems_of_same : ∀ {vs ws : List Value} {depth : Nat}, Same.sameItems vs ws →
    survey.surveyItems depth vs = .ok () → survey.surveyItems depth ws = .ok ()
  | [], [], _, _, _ => rfl
  | _ :: _, _ :: _, _, h, hs => by
    obtain ⟨hv, hvs⟩ := check_eq_ok.mp hs
    exact check_eq_ok.mpr ⟨Same.survey h.1 hv, surveyItems_of_same h.2 hvs⟩

theorem surveyMembers_of_same : ∀ {ms ns : List (Quoted × Value)} {depth : Nat},
    Same.sameMembers ms ns → survey.surveyMembers depth ms = .ok () →
    survey.surveyMembers depth ns = .ok ()
  | [], [], _, _, _ => rfl
  | (_, _) :: _, (_, _) :: _, _, h, hs => by
    obtain ⟨s, hk, hs⟩ := bind_eq_ok.mp hs
    obtain ⟨hv, hms⟩ := check_eq_ok.mp hs
    exact bind_eq_ok.mpr ⟨s, Quoted.Same.read h.1 hk,
      check_eq_ok.mpr ⟨Same.survey h.2.1 hv, surveyMembers_of_same h.2.2 hms⟩⟩

end

theorem skipMembers_iff {ms : List (Quoted × Value)} :
    skip.skipMembers ms = .ok () ↔
      ∀ m ∈ ms, Quoted.skip m.1.closed m.1.raw = .ok () ∧ m.2.skip = .ok () := by
  induction ms with
  | nil => simp [skip.skipMembers]
  | cons m ms ih =>
    rw [List.forall_mem_cons, ← ih, and_assoc]
    exact check_eq_ok.trans (and_congr_right fun _ => check_eq_ok)

mutual

theorem Same.skip : ∀ {v w : Value}, Same v w → v.skip = .ok () → w.skip = .ok ()
  | null, w, h, hs => by
    obtain rfl := h.null_left
    exact hs
  | bool b, w, h, hs => by
    obtain rfl := h.bool_left
    exact hs
  | number m, w, h, hs => by
    obtain ⟨n, rfl, hmn⟩ := h.number_left
    exact hmn.skip
  | text q, w, h, hs => by
    obtain ⟨r, rfl, hqr⟩ := h.text_left
    exact Quoted.Same.skip hqr hs
  | fault f, w, h, _ => by cases w <;> exact h.elim
  | list vs e, w, h, hs => by
    obtain ⟨rfl, ws, rfl, items⟩ := h.list_left
    obtain ⟨hitems, _⟩ := check_eq_ok.mp hs
    exact check_eq_ok.mpr ⟨skipItems_of_same (sameItems_iff.mpr items) hitems, rfl⟩
  | object ms e, w, h, hs => by
    obtain ⟨rfl, os, ns, rfl, perm, members⟩ := h.object_left
    obtain ⟨hmembers, _⟩ := check_eq_ok.mp hs
    have passed := skipMembers_of_same (sameMembers_iff.mpr members) hmembers
    refine check_eq_ok.mpr ⟨skipMembers_iff.mpr fun n hn => ?_, rfl⟩
    exact skipMembers_iff.mp passed n (perm.mem_iff.mpr hn)

theorem skipItems_of_same : ∀ {vs ws : List Value}, Same.sameItems vs ws →
    skip.skipItems vs = .ok () → skip.skipItems ws = .ok ()
  | [], [], _, _ => rfl
  | _ :: _, _ :: _, h, hs => by
    obtain ⟨hv, hvs⟩ := check_eq_ok.mp hs
    exact check_eq_ok.mpr ⟨Same.skip h.1 hv, skipItems_of_same h.2 hvs⟩

theorem skipMembers_of_same : ∀ {ms ns : List (Quoted × Value)}, Same.sameMembers ms ns →
    skip.skipMembers ms = .ok () → skip.skipMembers ns = .ok ()
  | [], [], _, _ => rfl
  | (_, _) :: _, (_, _) :: _, h, hs => by
    obtain ⟨hk, hs⟩ := check_eq_ok.mp hs
    obtain ⟨hv, hms⟩ := check_eq_ok.mp hs
    exact check_eq_ok.mpr ⟨Quoted.Same.skip h.1 hk,
      check_eq_ok.mpr ⟨Same.skip h.2.1 hv, skipMembers_of_same h.2.2 hms⟩⟩

end

/-- The same value up to the order of members, with no key twice in an object. -/
structure Reordered (v w : Value) : Prop where
  same : Same v w
  distinct : Distinct v

namespace Reordered

theorem symm {v w : Value} (h : Reordered v w) : Reordered w v :=
  ⟨h.same.symm, h.same.distinct h.distinct⟩

theorem of_forall₂ {vs ws : List Value} (same : List.Forall₂ Same vs ws)
    (distinct : ∀ v ∈ vs, Distinct v) : List.Forall₂ Reordered vs ws := by
  induction same with
  | nil => exact .nil
  | cons hv _ ih =>
    obtain ⟨dv, dvs⟩ := List.forall_mem_cons.mp distinct
    exact .cons ⟨hv, dv⟩ (ih dvs)

theorem list_left {vs : List Value} {ending : Ending} {w : Value}
    (h : Reordered (.list vs ending) w) :
    ending = .closed ∧ ∃ ws, w = .list ws .closed ∧ List.Forall₂ Reordered vs ws := by
  obtain ⟨closed, ws, hw, items⟩ := h.same.list_left
  exact ⟨closed, ws, hw, of_forall₂ items (distinctItems_iff.mp h.distinct)⟩

/-- The members of one object are, one by one, those of the other in some order. -/
theorem object_left {ms : List (Quoted × Value)} {ending : Ending} {w : Value}
    (h : Reordered (.object ms ending) w) : ending = .closed ∧ ∃ os ns, w = .object ns .closed ∧
      os.Perm ns ∧ List.Forall₂ (fun m n => m.1.Same n.1 ∧ m.2.Reordered n.2) ms os ∧
        os.Pairwise OtherKey := by
  obtain ⟨closed, os, ns, hw, perm, members⟩ := h.same.object_left
  refine ⟨closed, os, ns, hw, perm, ?_, pairwise_otherKey members (.refl os) h.distinct.1⟩
  have distinct := distinctMembers_iff.mp h.distinct.2
  clear perm hw h
  induction members with
  | nil => exact .nil
  | cons hm _ ih =>
    obtain ⟨dm, dms⟩ := List.forall_mem_cons.mp distinct
    exact .cons ⟨hm.1, hm.2, dm⟩ (ih dms)

end Reordered
end Value
end Peering.Document
