import Peering.Proofs.Receiving
import Peering.Proofs.Resolution

/-!
What a peer may announce. The lists of a policy hold what the settings name and what registry
objects stand for, so a route that neither has is tagged as soon as anything is listed at all.
-/
namespace Peering
open Peering.Filter (itemsOf)

namespace Settings.Allow
variable (reg : Registry) (a : Allow)

/-- The ASNs that are named, or that a named object stands for. -/
def expandedAsns : List UInt32 :=
  a.asns ++ a.asSets.flatMap fun name => (reg.object name).elim [] (·.asns)

/-- The networks that are named, or that a named object stands for, as they are spelled. -/
def expandedPatterns : List String :=
  a.patterns ++ a.asSets.flatMap fun name => (reg.object name).elim [] fun o => o.ipv4 ++ o.ipv6

/-- Whether the route has an origin or a network that the settings allow. -/
def Admits (r : Route) : Prop :=
  r.originAsn ∈ a.expandedAsns reg ∨
    ∃ text ∈ a.expandedPatterns reg, ∃ q, Pattern.parse text = .ok q ∧ q.admits r.net = true

def IsExpanded : Prop := a.expandedAsns reg ≠ [] ∨ a.expandedPatterns reg ≠ []

end Settings.Allow

theorem parse_of_readLiterals {key : String} {texts : List String} {ps : List Pattern}
    (h : readLiterals key texts = .ok ps) : texts.map Pattern.parse = ps.map .ok := by
  have read : List.Forall₂ (fun text q => Pattern.parse text = .ok q) texts ps :=
    (forall₂_of_mapM h).imp fun text q hq => mapError_eq_ok.mp (mapError_eq_ok.mp hq)
  rwa [← List.forall₂_eq_eq_eq, List.forall₂_map_left_iff, List.forall₂_map_right_iff]

namespace Policy.Allowed

def nets (a : Allowed) : Family → List (Group Pattern)
  | .v4 => a.nets4
  | .v6 => a.nets6

/-- The groups hold some ASNs and patterns, the patterns by their families, and none is empty. -/
structure Holds (a : Allowed) (asns : List UInt32) (patterns : List Pattern) : Prop where
  asns : ∀ n, n ∈ itemsOf a.asns ↔ n ∈ asns
  nets : ∀ f q, q ∈ itemsOf (a.nets f) ↔ q.family = f ∧ q ∈ patterns
  fullAsns : ∀ g ∈ a.asns, g.items ≠ []
  fullNets : ∀ f, ∀ g ∈ a.nets f, g.items ≠ []

theorem itemsOf_ofItems {α : Type} (object : Option String) (items : List α) :
    itemsOf (Group.ofItems object items) = items := by
  cases items <;> simp [Group.ofItems, itemsOf]

theorem full_ofItems {α : Type} {object : Option String} {items : List α} {g : Group α}
    (h : g ∈ Group.ofItems object items) : g.items ≠ [] := by
  cases items with
  | nil => exact nomatch h
  | cons a as =>
    obtain rfl := List.mem_singleton.mp h
    exact List.cons_ne_nil a as

theorem holds_ofLists (object : Option String) (asns : List UInt32) (patterns : List Pattern) :
    (ofLists object asns patterns).Holds asns patterns where
  asns n := by rw [ofLists, itemsOf_ofItems, mem_canonical]
  nets f q := by
    cases f <;> simp [nets, ofLists, itemsOf_ofItems, mem_canonical, and_comm]
  fullAsns g hg := full_ofItems hg
  fullNets f g hg := by
    cases f with
    | v4 => exact full_ofItems hg
    | v6 => exact full_ofItems hg

theorem holds_append {a b : Allowed} {as bs : List UInt32} {ps qs : List Pattern}
    (ha : a.Holds as ps) (hb : b.Holds bs qs) : (a.append b).Holds (as ++ bs) (ps ++ qs) where
  asns n := by
    have h : itemsOf (a.append b).asns = itemsOf a.asns ++ itemsOf b.asns := List.flatMap_append
    rw [h, List.mem_append, List.mem_append, ha.asns, hb.asns]
  nets f q := by
    have h : itemsOf ((a.append b).nets f) = itemsOf (a.nets f) ++ itemsOf (b.nets f) := by
      cases f <;> exact List.flatMap_append
    rw [h, List.mem_append, List.mem_append, ha.nets, hb.nets, and_or_left]
  fullAsns g hg := (List.mem_append.mp hg).elim (ha.fullAsns g) (hb.fullAsns g)
  fullNets f g hg := by
    have h : (a.append b).nets f = a.nets f ++ b.nets f := by cases f <;> rfl
    rw [h] at hg
    exact (List.mem_append.mp hg).elim (ha.fullNets f g) (hb.fullNets f g)

theorem ofObject_eq_ok {reg : Registry} {key name : String} {a : Allowed}
    (h : ofObject reg key name = .ok a) :
    ∃ o, reg.object name = some o ∧
      ∃ patterns, readLiterals s!"{key}.as-set.{name}" (o.ipv4 ++ o.ipv6) = .ok patterns ∧
        a = ofLists (some name) o.asns patterns := by
  unfold ofObject at h
  cases ho : reg.object name with
  | none =>
    rw [ho] at h
    exact nomatch h
  | some o =>
    rw [ho] at h
    obtain ⟨patterns, hpatterns, h⟩ := ok_of_bind h
    exact ⟨o, rfl, patterns, hpatterns, (Except.ok.inj h).symm⟩

theorem holds_resolve {reg : Registry} {key : String} {s : Settings.Allow} {a : Allowed}
    (h : resolve reg key s = .ok a) :
    ∃ patterns, (s.expandedPatterns reg).map Pattern.parse = patterns.map .ok ∧
      a.Holds (s.expandedAsns reg) patterns := by
  obtain ⟨own, hown, h⟩ := ok_of_bind h
  -- After some objects, the groups hold what the settings list and what these objects stand for.
  refine foldlM_induct (P := fun done a => ∃ patterns,
    (({ s with asSets := done } : Settings.Allow).expandedPatterns reg).map Pattern.parse =
        patterns.map .ok ∧
      a.Holds (({ s with asSets := done } : Settings.Allow).expandedAsns reg) patterns) h ?_ ?_
  · refine ⟨own, ?_, ?_⟩
    · rw [Settings.Allow.expandedPatterns, List.flatMap_nil, List.append_nil]
      exact parse_of_readLiterals hown
    · rw [Settings.Allow.expandedAsns, List.flatMap_nil, List.append_nil]
      exact holds_ofLists none s.asns own
  · intro done name a c hdone hstep
    obtain ⟨patterns, hpatterns, held⟩ := hdone
    obtain ⟨b, hb, hc⟩ := ok_of_bind hstep
    obtain rfl := Except.ok.inj hc
    obtain ⟨o, ho, hb⟩ := ofObject_eq_ok hb
    obtain ⟨more, hmore, rfl⟩ := hb
    refine ⟨patterns ++ more, ?_, ?_⟩
    · rw [List.map_append, ← hpatterns, ← parse_of_readLiterals hmore, ← List.map_append]
      simp [Settings.Allow.expandedPatterns, ho]
    · have hasns : ({ s with asSets := done ++ [name] } : Settings.Allow).expandedAsns reg =
          ({ s with asSets := done } : Settings.Allow).expandedAsns reg ++ o.asns := by
        simp [Settings.Allow.expandedAsns, ho]
      rw [hasns]
      exact holds_append held (holds_ofLists (some name) o.asns more)

end Policy.Allowed

theorem groups_eq_nil_iff {α : Type} {gs : List (Group α)} (full : ∀ g ∈ gs, g.items ≠ []) :
    gs = [] ↔ ∀ a, a ∉ itemsOf gs := by
  constructor
  · intro hnil a
    rw [hnil]
    exact List.not_mem_nil
  · intro h
    cases gs with
    | nil => rfl
    | cons g gs =>
      have hitems := full g List.mem_cons_self
      obtain ⟨a, ha⟩ := List.exists_mem_of_ne_nil _ hitems
      exact absurd (List.mem_flatMap.mpr ⟨g, List.mem_cons_self, ha⟩) (h a)

namespace Policy
variable {ctx : Context} {reg : Registry} {name : String} {s : Settings.Peer} {p : Policy}

def allowed (p : Policy) : Allowed := ⟨p.asnGroups, p.groups4, p.groups6⟩

theorem nets_allowed (f : Family) : p.allowed.nets f = p.groups f := by cases f <;> rfl

theorem holds_allowed (h : resolve ctx reg name s = .ok p) :
    ∃ patterns, (s.allow.expandedPatterns reg).map Pattern.parse = patterns.map .ok ∧
      p.allowed.Holds (s.allow.expandedAsns reg) patterns :=
  Allowed.holds_resolve (resolved_of_resolve h).allowed

theorem asnGroups_eq_nil_iff (h : resolve ctx reg name s = .ok p) :
    p.asnGroups = [] ↔ s.allow.expandedAsns reg = [] := by
  obtain ⟨patterns, _, held⟩ := holds_allowed h
  have hgroups := groups_eq_nil_iff held.fullAsns
  rw [allowed] at hgroups
  rw [hgroups, List.eq_nil_iff_forall_not_mem]
  exact forall_congr' fun n => not_congr (held.asns n)

theorem listsNets_iff (h : resolve ctx reg name s = .ok p) :
    p.listsNets = true ↔ s.allow.expandedPatterns reg ≠ [] := by
  obtain ⟨patterns, hpatterns, held⟩ := holds_allowed h
  have hempty : s.allow.expandedPatterns reg = [] ↔ patterns = [] := by
    rw [← List.map_eq_nil_iff, hpatterns, List.map_eq_nil_iff]
  have hgroups : ∀ f, p.groups f = [] ↔ ∀ q, ¬ (q.family = f ∧ q ∈ patterns) := by
    intro f
    have hfull := held.fullNets f
    rw [← nets_allowed, groups_eq_nil_iff hfull]
    exact forall_congr' fun q => not_congr (held.nets f q)
  rw [listsNets, List.any_eq_true, Ne, hempty]
  constructor
  · intro hsome hnone
    obtain ⟨f, _, hf⟩ := hsome
    have : p.groups f = [] := (hgroups f).mpr fun q hq => by
      rw [hnone] at hq
      exact List.not_mem_nil hq.2
    simp [this] at hf
  · intro hsome
    obtain ⟨q, hq⟩ := List.exists_mem_of_ne_nil _ hsome
    refine ⟨q.family, Family.mem_all _, ?_⟩
    have : p.groups q.family ≠ [] := fun h => (hgroups _).mp h q ⟨rfl, hq⟩
    simpa using this

theorem isRestricted_iff_listed :
    p.isRestricted = true ↔ p.asnGroups ≠ [] ∨ p.listsNets = true := by
  simp [isRestricted, listsNets, Family.all, groups, or_assoc]

theorem originFiltered_mem_allowFailures (h : resolve ctx reg name s = .ok p) (f : Family)
    (r : Route) : Reason.originFiltered ∈ p.allowFailures f r ↔
      s.allow.expandedAsns reg ≠ [] ∧ r.originAsn ∉ s.allow.expandedAsns reg := by
  obtain ⟨patterns, _, held⟩ := holds_allowed h
  have hnil := asnGroups_eq_nil_iff h
  have horigin : r.originAsn ∈ itemsOf p.asnGroups ↔ _ := held.asns r.originAsn
  rw [allowFailures, List.mem_append, Reason.mem_given, Reason.mem_given]
  simp [hnil, horigin]

theorem prefixFiltered_mem_allowFailures (h : resolve ctx reg name s = .ok p) (f : Family)
    (r : Route) : Reason.prefixFiltered ∈ p.allowFailures f r ↔
      s.allow.expandedPatterns reg ≠ [] ∧
        ¬ ∃ text ∈ s.allow.expandedPatterns reg, ∃ q, Pattern.parse text = .ok q ∧
          q.family = f ∧ q.admits r.net = true := by
  obtain ⟨patterns, hpatterns, held⟩ := holds_allowed h
  have hparsed : ∀ q, q ∈ patterns ↔
      ∃ text ∈ s.allow.expandedPatterns reg, Pattern.parse text = .ok q := by
    intro q
    rw [← List.mem_map, hpatterns]
    simp
  have hnets : (∃ q ∈ itemsOf (p.groups f), q.admits r.net = true) ↔
      ∃ text ∈ s.allow.expandedPatterns reg, ∃ q, Pattern.parse text = .ok q ∧
        q.family = f ∧ q.admits r.net = true := by
    constructor
    · intro hlisted
      obtain ⟨q, hq, hadmits⟩ := hlisted
      rw [← nets_allowed, held.nets, hparsed] at hq
      obtain ⟨hfamily, text, htext, hparse⟩ := hq
      exact ⟨text, htext, q, hparse, hfamily, hadmits⟩
    · intro hlisted
      obtain ⟨text, htext, q, hparse, hfamily, hadmits⟩ := hlisted
      refine ⟨q, ?_, hadmits⟩
      rw [← nets_allowed, held.nets, hparsed]
      exact ⟨hfamily, text, htext, hparse⟩
  rw [allowFailures, List.mem_append, Reason.mem_given, Reason.mem_given, ← hnets,
    ← listsNets_iff h]
  simp

theorem mem_failures_iff_allow {own : UInt32} {f : Family} {r : Route} {reason : Reason}
    (hreason : reason = .originFiltered ∨ reason = .prefixFiltered) :
    reason ∈ p.failures own f r ↔ reason ∈ p.allowFailures f r := by
  have hfirst : reason ∉ p.firstFailures f r := by
    intro h
    simp only [firstFailures, sanityFailures, netFailures, pathFailures, List.mem_append,
      List.mem_ite_nil_left, List.mem_ite_nil_right, Reason.mem_given] at h
    cases hreason with
    | inl horigin => simp [horigin] at h
    | inr hnet => simp [hnet] at h
  have hlast : reason ≠ .tooManyCommunities ∧ reason ≠ .quarantined := by
    cases hreason with
    | inl horigin => simp [horigin]
    | inr hnet => simp [hnet]
  rw [failures, lastFailures, countFailures, List.mem_append, List.mem_append, List.mem_append,
    Reason.mem_given, Reason.mem_given]
  constructor
  · intro h
    obtain (hmem | hcount) | hallow | hquarantine := h
    · exact absurd hmem hfirst
    · exact absurd hcount.1 hlast.1
    · exact hallow
    · exact absurd hquarantine.1 hlast.2
  · intro hallow
    exact .inr (.inl hallow)

theorem failureTag_mem_judged_iff {own : UInt32} {f : Family} {r : Route} {reason : Reason} :
    failureTag own reason ∈ (p.judged own f r).large ↔
      reason ∈ p.failures own f (p.admitted own r) ∨
        failureTag own reason ∈ r.large ∧
          p.role.stripping.keeps own (failureTag own reason) = true := by
  rw [mem_judged, mem_admitted]
  simp [failureTag_inj, failureTag_ne_relationTag]

theorem isRestricted_iff (h : resolve ctx reg name s = .ok p) :
    p.isRestricted = true ↔ s.allow.IsExpanded reg := by
  rw [isRestricted_iff_listed, Ne, asnGroups_eq_nil_iff h, listsNets_iff h]
  rfl

/-- The lists find something against a route that they do not admit, unless they are all empty. -/
theorem allowFailures_iff_isExpanded (h : resolve ctx reg name s = .ok p) (f : Family)
    {own : UInt32} {r : Route} (unadmitted : ¬ s.allow.Admits reg r) :
    (∃ reason, (reason = .originFiltered ∨ reason = .prefixFiltered) ∧
      reason ∈ p.allowFailures f (p.admitted own r)) ↔ s.allow.IsExpanded reg := by
  constructor
  · intro hfound
    obtain ⟨reason, horigin | hnet, hmem⟩ := hfound
    · rw [horigin, originFiltered_mem_allowFailures h] at hmem
      exact .inl hmem.1
    · rw [hnet, prefixFiltered_mem_allowFailures h] at hmem
      exact .inr hmem.1
  · intro expanded
    cases expanded with
    | inl hasns =>
      refine ⟨.originFiltered, .inl rfl, (originFiltered_mem_allowFailures h f _).mpr ⟨hasns, ?_⟩⟩
      exact fun horigin => unadmitted (.inl horigin)
    | inr hpatterns =>
      refine ⟨.prefixFiltered, .inr rfl,
        (prefixFiltered_mem_allowFailures h f _).mpr ⟨hpatterns, ?_⟩⟩
      intro hlisted
      obtain ⟨text, htext, q, hparse, _, hadmits⟩ := hlisted
      exact unadmitted (.inr ⟨text, htext, q, hparse, hadmits⟩)

end Policy

open Peering.Filter (baseline ofPeer scope)
open Peering.Filter.Command.perform (performAll)

theorem Filter.receive_parts {t : Tagger} {p : Policy} {f : Family} {program : Program}
    (h : ofPeer t p f .receive = .ok program) :
    ∃ base rules, baseline t p f = .ok base ∧
      program.body = base ++ rules ++ p.incoming.map addLarge ++ [.accept] ∧
      ∀ c ∈ rules, ∃ no, c = .consult (rulesOf p .inbound) no := by
  obtain ⟨cs, hcs, h⟩ := ok_of_bind h
  obtain rfl := Except.ok.inj h
  obtain ⟨base, hbase, hcs⟩ := ok_of_bind hcs
  obtain ⟨rules, hrules, hcs⟩ := ok_of_bind hcs
  obtain rfl := Except.ok.inj hcs
  refine ⟨base, rules, hbase, rfl, ?_⟩
  cases hempty : p.inbound.isEmpty with
  | true =>
    rw [hempty] at hrules
    obtain rfl := Except.ok.inj hrules
    nofun
  | false =>
    rw [hempty] at hrules
    obtain ⟨tag, _, hrules⟩ := ok_of_bind hrules
    obtain rfl := Except.ok.inj hrules
    exact fun c hc => ⟨[tag], List.mem_singleton.mp hc⟩

theorem Filter.baseline_starts_receive {t : Tagger} {p : Policy} {f : Family} {program : Program}
    (h : ofPeer t p f .receive = .ok program) :
    ∃ base rest, baseline t p f = .ok base ∧ program.body = base ++ rest := by
  obtain ⟨base, rules, hbase, hbody, _⟩ := receive_parts h
  exact ⟨base, rules ++ p.incoming.map addLarge ++ [.accept], hbase, by
    rw [hbody, List.append_assoc, List.append_assoc, List.append_assoc]⟩

/-- Routes that nothing in the settings admits are tagged before the rules of the peer are asked,
provided that the settings, with the objects that they name, list anything at all. Where they do
not, no list is checked and no route is tagged. -/
theorem unadmitted_tagged_iff {ctx : Context} {reg : Registry} {name : String}
    {s : Settings.Peer} {p : Policy} (h : Policy.resolve ctx reg name s = .ok p)
    {peers : List Policy} (hp : p ∈ peers) (hn : (peers.map (·.name)).Nodup) (own : UInt32)
    (f : Family) :
    (p.isRestricted = true ↔ s.allow.IsExpanded reg) ∧
    ∃ program base rest,
      ofPeer ⟨some own⟩ p f .receive = .ok program ∧ program.body = base ++ rest ∧
      baseline ⟨some own⟩ p f = .ok base ∧
      ∀ r, ¬ s.allow.Admits reg r → ∃ tagged,
        (∀ decided, performAll (scope own peers) (scope own peers).calls 0 ⟨r, decided⟩ base =
          (none, ⟨tagged, decided⟩)) ∧
        ((∃ reason, (reason = .originFiltered ∨ reason = .prefixFiltered) ∧
            failureTag own reason ∈ tagged.large) ↔
          s.allow.IsExpanded reg ∨
            ∃ reason, (reason = .originFiltered ∨ reason = .prefixFiltered) ∧
              failureTag own reason ∈ r.large ∧
              p.role.stripping.keeps own (failureTag own reason) = true) := by
  refine ⟨Policy.isRestricted_iff h, ?_⟩
  obtain ⟨program, hprogram, _⟩ := Filter.receive_runs peers hp hn
  obtain ⟨base, rest, hbase, hbody⟩ := Filter.baseline_starts_receive hprogram
  obtain ⟨base', hbase', hchanges⟩ := Filter.baseline_changes peers hp hn
  obtain rfl := Except.ok.inj (hbase.symm.trans hbase')
  refine ⟨program, base, rest, hprogram, hbody, hbase, fun r unadmitted =>
    ⟨p.judged own f r, fun decided => hchanges ⟨r, decided⟩, ?_⟩⟩
  have listed : (∃ reason, (reason = .originFiltered ∨ reason = .prefixFiltered) ∧
      reason ∈ p.allowFailures f (p.admitted own r)) ↔ s.allow.IsExpanded reg :=
    Policy.allowFailures_iff_isExpanded h f unadmitted
  rw [← listed, ← exists_or]
  refine exists_congr fun reason => ?_
  rw [← and_or_left]
  refine and_congr_right fun hreason => ?_
  rw [Policy.failureTag_mem_judged_iff, Policy.mem_failures_iff_allow hreason]

/-- A peer that may announce only what one object stands for may announce everything if the object
is empty. -/
theorem unadmitted_tagged_iff_emptyObject :
    let reg : Registry := ⟨[], [("AS-EMPTY", ⟨[], [], []⟩)]⟩
    let s : Settings.Peer := { Settings.Peer.plain .peer 3333 with allow := ⟨[], [], ["AS-EMPTY"]⟩ }
    let p : Policy := .plain "a" .peer 3333
    let r : Route := ⟨⟨.v4 134744064, 24⟩, .bgp, "bgp4_a", [3333], .v4 3221225985, 100, [], [], []⟩
    Policy.resolve ⟨65000, none, .off⟩ reg "a" s = .ok p ∧ p.isRestricted = false ∧
      ¬ s.allow.Admits reg r ∧
      ∃ base, baseline ⟨some 65000⟩ p .v4 = .ok base ∧
        ∃ tagged, (performAll (scope 65000 [p]) (scope 65000 [p]).calls 0 ⟨r, false⟩ base) =
            (none, ⟨tagged, false⟩) ∧
          failureTag 65000 .originFiltered ∉ tagged.large ∧
          failureTag 65000 .prefixFiltered ∉ tagged.large := by
  intro reg s p r
  have resolves : Policy.resolve ⟨65000, none, .off⟩ ⟨[], [("AS-EMPTY", ⟨[], [], []⟩)]⟩ "a"
      { Settings.Peer.plain .peer 3333 with allow := ⟨[], [], ["AS-EMPTY"]⟩ } =
        .ok (.plain "a" .peer 3333) := by
    with_unfolding_all rfl
  have hasns : s.allow.expandedAsns reg = [] := by decide
  have hpatterns : s.allow.expandedPatterns reg = [] := by decide
  have empty : ¬ s.allow.IsExpanded reg := by
    intro h
    cases h with
    | inl h => exact h hasns
    | inr h => exact h hpatterns
  have unadmitted : ¬ s.allow.Admits reg r := by
    rw [Settings.Allow.Admits, hasns, hpatterns]
    simp
  obtain ⟨restricted, program, base, rest, _, _, hbase, runs⟩ :=
    unadmitted_tagged_iff resolves (List.mem_singleton_self p) (List.pairwise_singleton _ _) 65000
      .v4
  obtain ⟨tagged, hrun, htagged⟩ := runs r unadmitted
  have untagged : ¬ ∃ reason, (reason = .originFiltered ∨ reason = .prefixFiltered) ∧
      failureTag 65000 reason ∈ tagged.large := by
    rw [htagged]
    intro h
    cases h with
    | inl h => exact empty h
    | inr h =>
      obtain ⟨reason, _, hmem, _⟩ := h
      exact List.not_mem_nil hmem
  refine ⟨resolves, ?_, unadmitted, base, hbase, tagged, hrun false, ?_, ?_⟩
  · rw [← Bool.not_eq_true, restricted]
    exact empty
  · exact fun h => untagged ⟨_, .inl rfl, h⟩
  · exact fun h => untagged ⟨_, .inr rfl, h⟩

end Peering
