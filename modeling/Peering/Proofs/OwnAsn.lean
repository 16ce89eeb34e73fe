import Peering.Proofs.AllowLists
import Peering.Proofs.DefaultRoutes

/-!
What depends on our own ASN. Tags are written under it, and most filters tag routes or look for
tags. The others can be built before the ASN is known, and are the same whatever it turns out to be.
-/
namespace Peering

/-- What is made fails for want of an ASN exactly where one is needed. With an ASN it is always
made, and where none is needed it does not depend on the ASN. -/
structure NeedsAsn {α : Type} (make : Tagger → Except Error α) (needed : Prop) : Prop where
  made : ∀ own, ∃ a, make ⟨some own⟩ = .ok a
  missing : needed → make ⟨none⟩ = .error (.configuration "asn" .noOwnAsn)
  same : ¬ needed → ∀ own, make ⟨none⟩ = make ⟨some own⟩

namespace NeedsAsn
variable {α β : Type} {P Q : Prop} {make : Tagger → Except Error α}

theorem congr (h : NeedsAsn make P) (hPQ : P ↔ Q) : NeedsAsn make Q := propext hPQ ▸ h

theorem pure (a : α) : NeedsAsn (fun _ => .ok a) False :=
  ⟨fun _ => ⟨a, rfl⟩, False.elim, fun _ _ => rfl⟩

theorem own : NeedsAsn Tagger.own True :=
  ⟨fun own => ⟨own, rfl⟩, fun _ => rfl, fun h => absurd trivial h⟩

theorem bind {next : Tagger → α → Except Error β} (hm : NeedsAsn make P)
    (hn : ∀ a, NeedsAsn (next · a) Q) : NeedsAsn (fun t => make t >>= next t) (P ∨ Q) where
  made own := by
    obtain ⟨a, ha⟩ := hm.made own
    obtain ⟨b, hb⟩ := (hn a).made own
    exact ⟨b, by rw [ha]; exact hb⟩
  missing h := by
    by_cases first : P
    · rw [hm.missing first]
      rfl
    · -- The first step is the same with any ASN.
      obtain ⟨a, ha⟩ := hm.made 0
      rw [hm.same first 0, ha]
      exact (hn a).missing (h.resolve_left first)
  same h own := by
    obtain ⟨first, second⟩ := not_or.mp h
    obtain ⟨a, ha⟩ := hm.made own
    rw [hm.same first own, ha]
    exact (hn a).same second own

theorem map (h : NeedsAsn make P) (g : α → β) : NeedsAsn (fun t => do return g (← make t)) P :=
  (h.bind fun a => .pure (g a)).congr (by rw [or_false])

theorem mapM {make : Tagger → α → Except Error β} {P : α → Prop} {as : List α}
    (h : ∀ a ∈ as, NeedsAsn (make · a) (P a)) :
    NeedsAsn (fun t => as.mapM (make t)) (∃ a ∈ as, P a) := by
  induction as with
  | nil => exact (NeedsAsn.pure []).congr (by simp)
  | cons a as ih =>
    obtain ⟨ha, has⟩ := List.forall_mem_cons.mp h
    simp only [List.mapM_cons, List.exists_mem_cons_iff]
    exact ha.bind fun b => (ih has).map (b :: ·)

theorem each {make : Tagger → α → Except Error β} {as : List α}
    (h : ∀ a, NeedsAsn (make · a) True) : NeedsAsn (fun t => as.mapM (make t)) (as ≠ []) :=
  (mapM fun a _ => h a).congr
    ⟨fun ⟨_, ha, _⟩ => List.ne_nil_of_mem ha,
      fun h => (List.exists_mem_of_ne_nil as h).imp fun _ ha => ⟨ha, trivial⟩⟩

end NeedsAsn

namespace Filter
open Command

section Builders
variable {P : Prop} {p : Policy} {f : Family}

theorem provided_needs {b : Bool} {make : Tagger → Except Error (List Command)}
    (h : NeedsAsn make P) : NeedsAsn (fun t => provided b (make t)) (b = true ∧ P) := by
  cases b with
  | false => exact (NeedsAsn.pure []).congr (by simp)
  | true => exact h.congr (by simp)

theorem given_needs {α : Type} {o : Option α} {make : Tagger → α → Except Error Command}
    (h : ∀ a, NeedsAsn (make · a) P) :
    NeedsAsn (fun t => given o (make t)) (o.isSome = true ∧ P) := by
  cases o with
  | none => exact (NeedsAsn.pure []).congr (by simp)
  | some a => exact ((h a).map fun c => [c]).congr (by simp)

theorem pattern_needs (function value : Part) : NeedsAsn (·.pattern function value) True :=
  NeedsAsn.own.map fun own => (⟨own, function, value⟩ : LargePattern)

theorem tag_needs (k : TagKind) (value : UInt32) : NeedsAsn (·.tag k value) True :=
  NeedsAsn.own.map fun own => Tag.encode ⟨own, k, value⟩

theorem tagWith_needs (r : Reason) : NeedsAsn (tagWith · r) True :=
  (tag_needs .filtered r.code).map addLarge

theorem tagWhen_needs (test : Test) (r : Reason) : NeedsAsn (tagWhen · test r) True :=
  (tagWith_needs r).map fun c => when test [c]

theorem single_needs {make : Tagger → Except Error Command} (h : NeedsAsn make P) :
    NeedsAsn (fun t => do return [← make t]) P :=
  h.map fun c => [c]

theorem stripTags_needs (s : Stripping) : NeedsAsn (stripTags · s) (s ≠ .nothing) := by
  cases s with
  | all => exact ((pattern_needs .any .any).map _).congr (by simp)
  | exceptActions =>
    have internal : NeedsAsn Tagger.internalPatterns True :=
      ((pattern_needs _ _).bind fun below => (pattern_needs _ _).map _).congr (by simp)
    exact (internal.map _).congr (by simp)
  | nothing => exact (NeedsAsn.pure []).congr (by simp)

theorem sanityChecks_needs : NeedsAsn (sanityChecks · p f) True := by
  refine (NeedsAsn.bind (.each fun (_, r) => tagWhen_needs _ r) fun ofNet =>
    .bind (.each fun (_, r) => tagWhen_needs _ r) fun ofPath =>
    .bind (provided_needs (single_needs (tagWhen_needs _ _))) fun firstAs =>
    .bind (provided_needs (given_needs fun _ => tagWhen_needs _ _)) fun nextHop =>
    .bind (provided_needs (single_needs (tagWhen_needs _ _))) fun transitFree =>
    (tagWhen_needs _ _).map _).congr (by simp)

/-- Where lists are looked up at all, a route is tagged that is not on them. -/
theorem allowChecks_needs : NeedsAsn (allowChecks · p f) (p.isRestricted = true) := by
  have origin : NeedsAsn (fun t => provided (!p.asnGroups.isEmpty) do
      return [← tagWhen t (.not (.originAsnIn (.named (.peerAsns p.name)))) .originFiltered])
      (p.asnGroups ≠ []) :=
    (provided_needs (single_needs (tagWhen_needs _ _))).congr (by simp)
  rw [Policy.isRestricted_iff_listed]
  refine origin.bind fun origin => ?_
  by_cases h : (!(p.groups f).isEmpty) = true
  · simp only [if_pos h]
    have listed : p.listsNets = true := List.any_eq_true.mpr ⟨f, f.mem_all, h⟩
    exact ((tagWhen_needs _ _).map _).congr (by simp [listed])
  · simp only [if_neg h]
    have any : (Family.all.any fun g => !(p.groups g).isEmpty) = true ∧ True ↔
        p.listsNets = true := and_iff_left trivial
    exact ((provided_needs (single_needs (tagWith_needs _))).map _).congr any

theorem baseline_needs : NeedsAsn (baseline · p f) (p.role.isExternal = true ∨
    p.acceptDefault = false ∨ p.isRestricted = true ∨ p.quarantine = true) := by
  refine (NeedsAsn.bind (stripTags_needs _) fun stripped =>
    .bind (given_needs fun r : Relation => (tag_needs .relation r.code).map addLarge)
      fun relation =>
    .bind (provided_needs ((tagWhen_needs _ _).map _)) fun default =>
    .bind (provided_needs ((tagWith_needs _).map _)) fun collector =>
    .bind (provided_needs sanityChecks_needs) fun sanity =>
    .bind (provided_needs allowChecks_needs) fun allowed =>
    (provided_needs ((tagWith_needs _).map _)).map _).congr ?_
  -- What the baseline does for single roles it does for external ones only.
  have external : p.role.stripping ≠ .nothing ∨ p.role.relation.isSome = true ∨
      p.role = .routeCollector → p.role.isExternal = true := by
    cases p.role <;> decide
  simp only [Bool.not_eq_true', decide_eq_true_eq, and_true, and_self]
  tauto

theorem receive_needs : NeedsAsn (receive · p f) (p.role.isExternal = true ∨
    p.acceptDefault = false ∨ p.isRestricted = true ∨ p.quarantine = true ∨ p.inbound ≠ []) := by
  refine (baseline_needs.bind fun base =>
    (provided_needs ((tagWith_needs _).map _)).map _).congr ?_
  simp [or_assoc]

theorem toMain_needs : NeedsAsn toMain True := (pattern_needs _ _).map _

theorem provenance_needs (s : Source) :
    NeedsAsn (provenance · p f s) (s ∈ Source.byRelation) := by
  have patterns : NeedsAsn (fun t =>
      s.relations.mapM fun r => t.kindPattern .relation (.exactly r.code)) (s.relations ≠ []) :=
    .each fun r : Relation => pattern_needs _ (.exactly r.code)
  cases s with
  | bgpOwn | bgpCustomer | bgpPeering | bgpTransit =>
    exact (patterns.map _).congr (by decide)
  | default | connected | kernel | static | originated | bgp =>
    exact (NeedsAsn.pure _).congr (by decide)

theorem exportBans_needs : NeedsAsn (exportBans · p) True :=
  ((NeedsAsn.each fun _ => NeedsAsn.own.map _).map _).congr (by simp)

theorem redistribute_needs (s : Source) :
    NeedsAsn (redistribute · p f s) (s ∈ Source.byRelation) :=
  (provenance_needs s).map _

theorem deliver_needs : NeedsAsn (deliver · p) (p.role.isExternal = true) := by
  have internal : NeedsAsn internalTags True :=
    ((pattern_needs _ _).bind fun relation => (pattern_needs _ _).bind fun actions =>
      (pattern_needs _ _).map _).congr (by simp)
  exact ((provided_needs (internal.map _)).map _).congr (by simp)

theorem toPeer_needs : NeedsAsn (toPeer · p f) (p.role.isExternal = true ∨
    ∃ s ∈ Source.byRelation, p.redistribution.enabled s = true) := by
  refine (NeedsAsn.bind (provided_needs exportBans_needs) fun bans =>
    .bind (.mapM fun s _ => redistribute_needs s) fun sources =>
    deliver_needs.map _).congr ?_
  have relations : (∃ s ∈ p.redistribution.sources.filter (· ≠ .default), s ∈ Source.byRelation) ↔
      ∃ s ∈ Source.byRelation, p.redistribution.enabled s = true := by
    have named : ∀ s ∈ Source.byRelation, s ≠ .default := by decide
    simp only [List.mem_filter, Redistribution.mem_sources, decide_eq_true_eq]
    exact exists_congr fun s => ⟨fun h => ⟨h.2, h.1.1⟩, fun h => ⟨⟨h.2, named s h.1⟩, h.1⟩⟩
  rw [relations, and_true, or_left_comm, or_self, or_comm]

end Builders

theorem sharedBody_needs (g : SharedFunction) : NeedsAsn (sharedBody · g)
    (g = .hasFiltered ∨ (∃ f, g = .canExport f) ∨ g = .exportPrepend) := by
  cases g with
  | hasFiltered => exact ((pattern_needs _ _).map _).congr (by simp)
  | canExport f => exact (NeedsAsn.own.map _).congr (by simp)
  | exportPrepend => exact (NeedsAsn.own.map _).congr (by simp)
  | isBogon | tooLong | tooShort | pathTooLong | pathTooShort | hasBogonAsn | hasTransitFreeAsn
    | tooManyCommunities => exact (NeedsAsn.pure _).congr (by simp)

theorem sharedFunctions_needs : NeedsAsn sharedFunctions True := by
  refine (NeedsAsn.mapM fun g _ => (sharedBody_needs g).map _).congr ?_
  exact iff_true_intro ⟨.hasFiltered, SharedFunction.mem_all _, .inl rfl⟩

end Filter

/-- The filter of a peer at a stage does not name our own ASN. For received routes, the peer is one
of our reflectors, and nothing is held against a route: default routes are welcome, no list
restricts the peer, it is not quarantined and it has no rules. For routes to a reflector, no source
that is enabled goes by tags. -/
def Policy.OmitsAsn (p : Policy) : Stage → Prop
  | .receive => p.role.isReflector = true ∧ p.acceptDefault = true ∧ p.asnGroups = [] ∧
      p.groups4 = [] ∧ p.groups6 = [] ∧ p.quarantine = false ∧ p.inbound = []
  | .toMain => False
  | .toPeer => p.role.isReflector = true ∧
      ∀ s ∈ [Source.bgpOwn, .bgpCustomer, .bgpPeering, .bgpTransit],
        p.redistribution.enabled s = false

namespace Filter

theorem ofPeer_needs (p : Policy) (f : Family) (s : Stage) :
    NeedsAsn (ofPeer · p f s) (¬ p.OmitsAsn s) := by
  cases s with
  | receive =>
    refine (receive_needs.map _).congr (not_iff_comm.mp ?_).symm
    simp [Policy.OmitsAsn, Role.isExternal, Policy.isRestricted, and_assoc]
  | toMain => exact (toMain_needs.map _).congr (not_false_iff).symm
  | toPeer =>
    refine (toPeer_needs.map _).congr (not_iff_comm.mp ?_).symm
    simp [Policy.OmitsAsn, Role.isExternal, Source.byRelation]

end Filter

open Peering.Filter (ofPeer sharedFunctions)

/-- Our own ASN and the filters of a peer. With an ASN every filter and all shared functions can be
built. Without one the filter of a stage can be built exactly if it does not name the ASN; then it
is the same with any ASN, and otherwise the ASN is reported as missing, as it is for the shared
functions. -/
theorem filters_without_asn (p : Policy) (f : Family) (s : Stage) :
    (∀ own, ∃ program, ofPeer ⟨some own⟩ p f s = .ok program) ∧
      ((∃ program, ofPeer ⟨none⟩ p f s = .ok program) ↔ p.OmitsAsn s) ∧
      (p.OmitsAsn s → ∀ own, ofPeer ⟨none⟩ p f s = ofPeer ⟨some own⟩ p f s) ∧
      (¬ p.OmitsAsn s → ofPeer ⟨none⟩ p f s = .error (.configuration "asn" .noOwnAsn)) ∧
      sharedFunctions ⟨none⟩ = .error (.configuration "asn" .noOwnAsn) ∧
      ∀ own, ∃ functions, sharedFunctions ⟨some own⟩ = .ok functions := by
  have filter := Filter.ofPeer_needs p f s
  have shared := Filter.sharedFunctions_needs
  refine ⟨filter.made, ⟨?_, fun omits => ?_⟩, fun omits => filter.same (not_not_intro omits),
    filter.missing, shared.missing trivial, shared.made⟩
  · rintro ⟨program, h⟩
    by_contra names
    exact nomatch h.symm.trans (filter.missing names)
  · obtain ⟨program, h⟩ := filter.made 0
    exact ⟨program, (filter.same (not_not_intro omits) 0).trans h⟩

/-- A reflector whose default routes are welcome: only its filter to the main table names our ASN.
With a list of origins the filter for received routes does so too, and with our own routes sent to
it the filter to it. -/
theorem filters_without_asn_reflector :
    let s : Settings.Peer := { Settings.Peer.plain .reflectorServer 65000 with
      accept := ⟨some true⟩ }
    let p : Policy := { Policy.plain "a" .reflectorServer 65000 with acceptDefault := true }
    let listed : Policy := { p with asnGroups := [⟨none, [3333]⟩] }
    let tagged : Policy := { p with redistribution := p.redistribution.override .bgpOwn true [] }
    Policy.resolve ⟨65000, none, .off⟩ .empty "a" s = .ok p ∧
      (∃ program, ofPeer ⟨none⟩ p .v6 .receive = .ok program ∧
        ∀ own, ofPeer ⟨some own⟩ p .v6 .receive = .ok program) ∧
      (∃ program, ofPeer ⟨none⟩ p .v6 .toPeer = .ok program ∧
        ∀ own, ofPeer ⟨some own⟩ p .v6 .toPeer = .ok program) ∧
      ofPeer ⟨none⟩ p .v6 .toMain = .error (.configuration "asn" .noOwnAsn) ∧
      ofPeer ⟨none⟩ listed .v6 .receive = .error (.configuration "asn" .noOwnAsn) ∧
      ofPeer ⟨none⟩ tagged .v6 .toPeer = .error (.configuration "asn" .noOwnAsn) := by
  intro s p listed tagged
  have built (stage : Stage) (omits : p.OmitsAsn stage) :
      ∃ program, ofPeer ⟨none⟩ p .v6 stage = .ok program ∧
        ∀ own, ofPeer ⟨some own⟩ p .v6 stage = .ok program := by
    obtain ⟨_, builds, same, _⟩ := filters_without_asn p .v6 stage
    obtain ⟨program, h⟩ := builds.mpr omits
    exact ⟨program, h, fun own => (same omits own).symm.trans h⟩
  have unlisted : ¬ listed.OmitsAsn .receive := fun h => List.cons_ne_nil _ _ h.2.2.1
  have untagged : ¬ tagged.OmitsAsn .toPeer := fun h =>
    absurd (h.2 .bgpOwn List.mem_cons_self) (by decide)
  refine ⟨by with_unfolding_all rfl, built .receive ⟨rfl, rfl, rfl, rfl, rfl, rfl, rfl⟩,
    built .toPeer ⟨rfl, by decide⟩, ?_, ?_, ?_⟩
  · exact (filters_without_asn p .v6 .toMain).2.2.2.1 id
  · exact (filters_without_asn listed .v6 .receive).2.2.2.1 unlisted
  · exact (filters_without_asn tagged .v6 .toPeer).2.2.2.1 untagged

end Peering
