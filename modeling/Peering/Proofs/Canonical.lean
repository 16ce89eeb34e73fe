import Mathlib
import Peering.Proofs.AllowLists
import Peering.Proofs.PatternText

/-!
Lists in canonical form do not depend on how they are written. Settings and registries whose lists
have the same entries, in any order and spelling, make the same router.
-/
namespace Peering

section Order
variable {α κ : Type} [LinearOrder κ] {rank : α → κ} {as bs : List α}

/-- The items in order, none of them twice. -/
def Ascending (rank : α → κ) (as : List α) : Prop := as.Pairwise fun a b => rank a < rank b

theorem Ascending.nodup (h : Ascending rank as) : as.Nodup :=
  h.imp fun hlt heq => hlt.ne (congrArg rank heq)

theorem Ascending.ext (ha : Ascending rank as) (hb : Ascending rank bs)
    (h : ∀ a, a ∈ as ↔ a ∈ bs) : as = bs := by
  apply List.Perm.eq_of_pairwise (fun a b _ _ hab hba => absurd hab (lt_asymm hba)) ha hb
  exact (List.perm_ext_iff_of_nodup ha.nodup hb.nodup).mpr h

variable [DecidableEq α] {le : α → α → Bool}

theorem ascending_dropRepeats (inj : Function.Injective rank)
    (h : as.Pairwise fun a b => rank a ≤ rank b) : Ascending rank (dropRepeats as) := by
  induction as using dropRepeats.induct with
  | case1 => exact .nil
  | case2 a => exact List.pairwise_singleton _ a
  | case3 a as ih =>
    rw [dropRepeats, if_pos rfl]
    exact ih h.of_cons
  | case4 a b as hne ih =>
    obtain ⟨first, rest⟩ := List.pairwise_cons.mp h
    rw [dropRepeats, if_neg hne]
    refine List.pairwise_cons.mpr ⟨fun c hc => ?_, ih rest⟩
    have hab : rank a < rank b :=
      lt_of_le_of_ne (first b List.mem_cons_self) fun heq => hne (inj heq)
    obtain rfl | hc := List.mem_cons.mp (mem_dropRepeats.mp hc)
    · exact hab
    · exact lt_of_lt_of_le hab (List.rel_of_pairwise_cons rest hc)

theorem ascending_canonical (inj : Function.Injective rank)
    (hle : ∀ a b, le a b = true ↔ rank a ≤ rank b) (as : List α) :
    Ascending rank (canonical le as) := by
  have trans (a b c : α) (hab : le a b = true) (hbc : le b c = true) : le a c = true :=
    (hle a c).mpr (le_trans ((hle a b).mp hab) ((hle b c).mp hbc))
  have total (a b : α) : (le a b || le b a) = true := by
    rw [Bool.or_eq_true, hle, hle]
    exact le_total (rank a) (rank b)
  have sorted := List.pairwise_mergeSort trans total as
  exact ascending_dropRepeats inj (sorted.imp fun {a b} hab => (hle a b).mp hab)

theorem canonical_ext (inj : Function.Injective rank)
    (hle : ∀ a b, le a b = true ↔ rank a ≤ rank b) (h : ∀ a, a ∈ as ↔ a ∈ bs) :
    canonical le as = canonical le bs :=
  (ascending_canonical inj hle as).ext (ascending_canonical inj hle bs) fun a => by
    rw [mem_canonical, mem_canonical, h]

end Order

theorem Pattern.le_iff (p q : Pattern) : p.le q = true ↔ p.key ≤ q.key := by
  rw [Pattern.le, Bool.not_eq_true', ← Bool.not_eq_true, List.lex_eq_true_iff_lt]
  exact not_lt

theorem asn_le_iff (m n : UInt32) : decide (m ≤ n) = true ↔ m.toNat ≤ n.toNat := by
  rw [decide_eq_true_eq, UInt32.le_iff_toNat_le]

theorem Pattern.injective_key : Function.Injective Pattern.key := fun _ _ h => key_inj h

theorem injective_asn : Function.Injective UInt32.toNat := fun _ _ h => UInt32.toNat_inj.mp h

/-! Two runs of a computation, of which one may fail where the other does not. -/

/-- Wherever both succeed, the results are related. -/
def Agree {ε α : Type} (R : α → α → Prop) (e e' : Except ε α) : Prop :=
  ∀ a a', e = .ok a → e' = .ok a' → R a a'

section Agree
variable {ε α β γ : Type} {R : α → α → Prop} {S : β → β → Prop}

theorem Agree.refl (e : Except ε α) : Agree Eq e e :=
  fun _ _ h h' => Except.ok.inj (h.symm.trans h')

theorem agree_ok {a a' : α} (h : R a a') : Agree R (.ok a : Except ε α) (.ok a') := by
  intro b b' hb hb'
  obtain rfl := Except.ok.inj hb
  obtain rfl := Except.ok.inj hb'
  exact h

theorem Agree.bind {e e' : Except ε α} {k k' : α → Except ε β} (he : Agree R e e')
    (hk : ∀ a a', R a a' → Agree S (k a) (k' a')) : Agree S (e >>= k) (e' >>= k') := by
  intro b b' h h'
  obtain ⟨a, ha, hb⟩ := ok_of_bind h
  obtain ⟨a', ha', hb'⟩ := ok_of_bind h'
  exact hk a a' (he a a' ha ha') b b' hb hb'

theorem agree_step {e : Except ε α} {k k' : α → Except ε β} (hk : ∀ a, Agree S (k a) (k' a)) :
    Agree S (e >>= k) (e >>= k') :=
  (Agree.refl e).bind fun a _ h => h ▸ hk a

theorem agree_mapM {k k' : γ → Except ε α} {cs cs' : List γ}
    (h : List.Forall₂ (fun c c' => Agree Eq (k c) (k' c')) cs cs') :
    Agree Eq (cs.mapM k) (cs'.mapM k') := by
  induction h with
  | nil => exact .refl _
  | cons hc _ ih =>
    rw [List.mapM_cons, List.mapM_cons]
    refine hc.bind fun a _ ha => ?_
    obtain rfl := ha
    refine ih.bind fun as _ has => ?_
    obtain rfl := has
    exact .refl _

theorem agree_foldlM {k k' : α → γ → Except ε α} (h : ∀ a c, Agree Eq (k a c) (k' a c))
    (cs : List γ) (a : α) : Agree Eq (cs.foldlM k a) (cs.foldlM k' a) := by
  induction cs generalizing a with
  | nil => exact .refl _
  | cons c cs ih =>
    rw [List.foldlM_cons, List.foldlM_cons]
    refine (h a c).bind fun b _ hb => ?_
    obtain rfl := hb
    exact ih b

end Agree

/-! What may be written in another way. -/

/-- The same text, or two texts of one pattern: both spell it, or both are read as it. -/
inductive SamePattern : String → String → Prop
  | refl (s : String) : SamePattern s s
  | spelled {s t : String} {p : Pattern} (hs : Pattern.Written s.toList p)
    (ht : Pattern.Written t.toList p) : SamePattern s t
  | read {s t : String} {p : Pattern} (hs : Pattern.parse s = .ok p)
    (ht : Pattern.parse t = .ok p) : SamePattern s t

/-- Texts of the same patterns, in any order and however often. -/
structure SamePatterns (ss ts : List String) : Prop where
  left : ∀ s ∈ ss, ∃ t ∈ ts, SamePattern s t
  right : ∀ t ∈ ts, ∃ s ∈ ss, SamePattern s t

/-- The same ASNs and the same patterns, and exactly the same objects. -/
structure Settings.Allow.Same (a b : Allow) : Prop where
  asns : ∀ n, n ∈ a.asns ↔ n ∈ b.asns
  patterns : SamePatterns a.patterns b.patterns
  asSets : a.asSets = b.asSets

/-- Nothing but the lists of what peers may announce is written in another way. -/
structure Settings.Router.Same (s t : Settings.Router) : Prop where
  rest : { s with peers := [] } = { t with peers := [] }
  peers : List.Forall₂ (fun x y => x.1 = y.1 ∧
    { x.2 with allow := y.2.allow } = y.2 ∧ x.2.allow.Same y.2.allow) s.peers t.peers

/-- The same ASNs and the same patterns, be they listed under one family or the other. -/
structure RegistryObject.Same (o u : RegistryObject) : Prop where
  asns : ∀ n, n ∈ o.asns ↔ n ∈ u.asns
  patterns : SamePatterns (o.ipv4 ++ o.ipv6) (u.ipv4 ++ u.ipv6)

structure Registry.Same (r u : Registry) : Prop where
  counts : r.counts = u.counts
  objects : List.Forall₂ (fun x y => x.1 = y.1 ∧ x.2.Same y.2) r.objects u.objects

theorem SamePattern.eq_of_parse {s t : String} (h : SamePattern s t) {p q : Pattern}
    (hs : Pattern.parse s = .ok p) (ht : Pattern.parse t = .ok q) : p = q := by
  cases h with
  | refl => exact Except.ok.inj (hs.symm.trans ht)
  | spelled written written' => exact (written.eq_of_parse hs).trans (written'.eq_of_parse ht).symm
  | read hs' ht' =>
    obtain rfl := Except.ok.inj (hs.symm.trans hs')
    exact Except.ok.inj (ht'.symm.trans ht)

theorem mem_readLiterals_iff {key : String} {texts : List String} {ps : List Pattern}
    (h : readLiterals key texts = .ok ps) (q : Pattern) :
    q ∈ ps ↔ ∃ text ∈ texts, Pattern.parse text = .ok q := by
  rw [← List.mem_map, parse_of_readLiterals h, List.mem_map_of_injective]
  exact fun _ _ => Except.ok.inj

theorem exists_parse {key : String} {texts : List String} {ps : List Pattern}
    (h : readLiterals key texts = .ok ps) {text : String} (ht : text ∈ texts) :
    ∃ p, Pattern.parse text = .ok p := by
  have hmem : Pattern.parse text ∈ texts.map Pattern.parse := List.mem_map_of_mem ht
  rw [parse_of_readLiterals h] at hmem
  obtain ⟨p, _, hp⟩ := List.mem_map.mp hmem
  exact ⟨p, hp.symm⟩

theorem SamePatterns.agree {ss ts : List String} (h : SamePatterns ss ts) (key : String) :
    Agree (fun ps qs : List Pattern => ∀ q, q ∈ ps ↔ q ∈ qs) (readLiterals key ss)
      (readLiterals key ts) := by
  intro ps qs hps hqs q
  rw [mem_readLiterals_iff hps, mem_readLiterals_iff hqs]
  constructor
  · rintro ⟨s, hs, hq⟩
    obtain ⟨t, ht, same⟩ := h.left s hs
    obtain ⟨r, hr⟩ := exists_parse hqs ht
    exact ⟨t, ht, same.eq_of_parse hq hr ▸ hr⟩
  · rintro ⟨t, ht, hq⟩
    obtain ⟨s, hs, same⟩ := h.right t ht
    obtain ⟨r, hr⟩ := exists_parse hps hs
    exact ⟨s, hs, same.eq_of_parse hr hq ▸ hr⟩

theorem Registry.Same.object {reg reg' : Registry} (h : reg.Same reg') (name : String) :
    Option.Rel RegistryObject.Same (reg.object name) (reg'.object name) := by
  have objects := h.objects
  rw [Registry.object, Registry.object]
  generalize reg.objects = xs, reg'.objects = ys at objects ⊢
  induction objects with
  | nil => exact .none
  | @cons x y _ _ same _ ih =>
    obtain ⟨k, o⟩ := x
    obtain ⟨l, u⟩ := y
    obtain ⟨hkey, same⟩ := same
    obtain rfl : k = l := hkey
    rw [List.lookup_cons, List.lookup_cons]
    cases name == k with
    | true => exact .some same
    | false => exact ih

namespace Policy.Allowed

theorem ofLists_ext (object : Option String) {as bs : List UInt32} {ps qs : List Pattern}
    (hasns : ∀ n, n ∈ as ↔ n ∈ bs) (hpatterns : ∀ q, q ∈ ps ↔ q ∈ qs) :
    ofLists object as ps = ofLists object bs qs := by
  rw [ofLists, ofLists, canonical_ext injective_asn asn_le_iff hasns,
    canonical_ext Pattern.injective_key Pattern.le_iff hpatterns]

variable {reg reg' : Registry}

theorem agree_ofObject (h : reg.Same reg') (key name : String) :
    Agree Eq (ofObject reg key name) (ofObject reg' key name) := by
  have found := h.object name
  rw [ofObject, ofObject]
  generalize reg.object name = o, reg'.object name = u at found ⊢
  cases found with
  | none => exact .refl _
  | some same =>
    refine (same.patterns.agree _).bind fun ps qs hpatterns => ?_
    exact agree_ok (ofLists_ext (some name) same.asns hpatterns)

theorem agree_resolve (h : reg.Same reg') {a b : Settings.Allow} (same : a.Same b) (key : String) :
    Agree Eq (resolve reg key a) (resolve reg' key b) := by
  rw [resolve, resolve, same.asSets]
  refine (same.patterns.agree _).bind fun ps qs hpatterns => ?_
  rw [ofLists_ext none same.asns hpatterns]
  refine agree_foldlM (fun sum name => ?_) _ _
  refine (agree_ofObject h key name).bind fun c _ hc => ?_
  obtain rfl := hc
  exact .refl _

end Policy.Allowed

theorem Policy.agree_resolve {reg reg' : Registry} (h : reg.Same reg') {s t : Settings.Peer}
    (rest : { s with allow := t.allow } = t) (same : s.allow.Same t.allow) (ctx : Context)
    (name : String) : Agree Eq (resolve ctx reg name s) (resolve ctx reg' name t) := by
  generalize t.allow = allow at rest same
  subst rest
  have limits : limits reg s = limits reg' { s with allow } := by
    simp only [Policy.limits, Registry.countsOf, h.counts]
  refine agree_step fun _ => agree_step fun redistribution => ?_
  refine (Allowed.agree_resolve h same _).bind fun allowed _ hallowed => ?_
  obtain rfl := hallowed
  refine agree_step fun rules => agree_step fun incoming => agree_step fun outgoing => ?_
  rw [limits]
  exact .refl _

theorem Router.agree_resolve {s t : Settings.Router} (hs : s.Same t) {reg reg' : Registry}
    (hr : reg.Same reg') : Agree Eq (resolve s reg) (resolve t reg') := by
  obtain ⟨asn, routerId, clusterId, fromMaster, originate, peers⟩ := s
  obtain ⟨asn', routerId', clusterId', fromMaster', originate', peers'⟩ := t
  obtain ⟨rest, same⟩ := hs
  obtain ⟨rfl, rfl, rfl, rfl, rfl, _⟩ := rest
  have resolved : Agree Eq
      (peers.mapM fun x => Policy.resolve ⟨asn, clusterId, fromMaster⟩ reg x.1 x.2)
      (peers'.mapM fun x => Policy.resolve ⟨asn, clusterId, fromMaster⟩ reg' x.1 x.2) := by
    refine agree_mapM (same.imp ?_)
    rintro x y ⟨hname, rest, allow⟩
    rw [hname]
    exact Policy.agree_resolve hr rest allow _ y.1
  unfold resolve
  split
  · exact .refl _
  · refine agree_step fun originate => resolved.bind fun ps _ hps => ?_
    obtain rfl := hps
    exact .refl _

end Peering
