import Peering.Proofs.Findings

/-!
The limit on communities. What is counted is what a route carries when the count is made: the
communities that its sender may put on it, and the tag of its relation, which is there by then.
-/
namespace Peering

theorem communityCount_mark_of_fresh {r : Route} {c : LargeCommunity} (fresh : c ∉ r.large) :
    (r.mark [c]).communityCount = r.communityCount + 1 := by
  have added : (r.mark [c]).large = r.large ++ [c] := if_neg fresh
  rw [Route.communityCount, added, List.length_append, List.length_singleton]
  exact (Nat.add_assoc _ _ _).symm

theorem not_mem_strip_of_internal {own : UInt32} {role : Role} (external : role.isExternal = true)
    {c : LargeCommunity} (hown : c.admin = own)
    (internal : c.function < TagKind.firstAction ∨ TagKind.lastAction < c.function) (r : Route) :
    c ∉ (r.strip own role.stripping).large := by
  intro hc
  obtain ⟨_, above, below⟩ := (keeps_own_iff external hown).mp (List.mem_filter.mp hc).2
  exact internal.elim (UInt32.not_lt.mpr above) (UInt32.not_lt.mpr below)

namespace Policy
variable {own : UInt32} {p : Policy} {f : Family} {r : Route}

/-- The tag of the relation is one community more than those of the sender. -/
theorem communityCount_admitted (external : p.role.isExternal = true)
    (h : p.role ≠ .routeCollector) :
    (p.admitted own r).communityCount = (r.strip own p.role.stripping).communityCount + 1 := by
  obtain ⟨x, hx⟩ := Option.ne_none_iff_exists'.mp (mt (relation_eq_none_iff external).mp h)
  have fresh : relationTag own x ∉ (r.strip own p.role.stripping).large :=
    not_mem_strip_of_internal external rfl
      (.inl (show TagKind.relation.code < TagKind.firstAction by decide)) r
  have marked : (p.admitted own r).communityCount =
      ((r.strip own p.role.stripping).mark
        (p.role.relation.map (relationTag own)).toList).communityCount := rfl
  rw [marked, hx]
  exact communityCount_mark_of_fresh fresh

theorem tooManyCommunities_not_mem_firstFailures :
    Reason.tooManyCommunities ∉ p.firstFailures f r := by
  rw [firstFailures, sanityFailures, netFailures, pathFailures]
  split <;> simp [apply_ite (Reason.tooManyCommunities ∈ ·), Reason.mem_given]

theorem firstFailures_eq_nil (external : p.role.isExternal = true)
    (unwelcome : p.acceptDefault = false) (hf : p.hasFamily f = true)
    (clean : ∀ reason, ¬ p.OutsideFault f r reason) : p.firstFailures f r = [] := by
  rw [List.eq_nil_iff_forall_not_mem]
  intro reason hmem
  have other : reason ≠ .tooManyCommunities :=
    fun h => tooManyCommunities_not_mem_firstFailures (h ▸ hmem)
  have found : reason ∈ p.failures 0 f r := (mem_failures_iff other).mpr (.inl hmem)
  exact clean reason ((mem_failures_iff_outside external unwelcome hf other).mp found)

theorem mem_failures_tooManyCommunities :
    .tooManyCommunities ∈ p.failures own f r ↔
      p.role.isExternal = true ∧ (r.fail own (p.firstFailures f r)).hasManyCommunities = true := by
  have last : Reason.tooManyCommunities ∉ p.lastFailures f r := by simp [mem_lastFailures_iff]
  rw [failures, List.mem_append, or_iff_left last, List.mem_append,
    or_iff_right tooManyCommunities_not_mem_firstFailures, countFailures, Reason.mem_given,
    Bool.and_eq_true, and_iff_right rfl]

/-- A route with no other fault is found to have too many communities by those of its sender and the
tag of the relation. -/
theorem tooManyCommunities_mem_judged_iff (external : p.role.isExternal = true)
    (unwelcome : p.acceptDefault = false) (hf : p.hasFamily f = true)
    (clean : ∀ reason, ¬ p.OutsideFault f r reason) :
    failureTag own .tooManyCommunities ∈ (p.judged own f r).large ↔
      Constant.mostCommunities.limit < (r.strip own p.role.stripping).communityCount + 1 := by
  have collector : p.role ≠ .routeCollector := clean .routecollector
  have fresh : failureTag own .tooManyCommunities ∉ (r.strip own p.role.stripping).large :=
    not_mem_strip_of_internal external rfl
      (.inr (show TagKind.lastAction < TagKind.filtered.code by decide)) r
  have spoofed : failureTag own .tooManyCommunities ∉ (p.admitted own r).large := by
    rw [mem_admitted]
    rintro (⟨x, _, hx⟩ | hr)
    · exact failureTag_ne_relationTag own _ x hx
    · exact fresh (List.mem_filter.mpr hr)
  have first : p.firstFailures f (p.admitted own r) = [] :=
    firstFailures_eq_nil external unwelcome hf clean
  rw [mem_judged, or_iff_left spoofed]
  simp only [failureTag_inj, exists_eq_right]
  rw [mem_failures_tooManyCommunities, and_iff_right external, first, Route.hasManyCommunities,
    decide_eq_true_eq, ← communityCount_admitted external collector]
  rfl

theorem mem_received_of_untouched {c : LargeCommunity}
    (untouched : ∀ rule ∈ p.inbound, ¬ rule.Adds c ∧ ¬ rule.Removes c) (hin : c ∉ p.incoming)
    (hc : c ≠ failureTag own .customAction) :
    c ∈ (p.received own f r).large ↔ c ∈ (p.judged own f r).large := by
  rw [mem_received, or_iff_right hin, or_iff_right fun h => hc h.2]
  constructor
  · intro h
    obtain known | ⟨rule, hrule, adds⟩ := mem_or_adds_of_mem_evaluateRules h
    · exact known
    · exact absurd adds (untouched rule hrule).1
  · exact fun h => mem_evaluateRules_of_mem h fun rule hrule => (untouched rule hrule).2

end Policy

open Peering.Filter (addLarge baseline ofPeer rulesOf scope)
open Peering.Filter.Command.perform (performAll)

/-- The checks of received routes and the limit on communities. A route from outside our network
that no other check finds fault with is tagged for too many communities exactly if what is left of
its sender's communities, counted together with the tag of the relation, exceeds the limit. Neither
the communities of the peer nor those of its rules count, for they are added after the checks; and
where they leave that tag alone, it is on the route in the end as the checks have left it. -/
theorem communities_counted {ctx : Context} {reg : Registry} {name : String} {s : Settings.Peer}
    {p : Policy} (h : Policy.resolve ctx reg name s = .ok p)
    (external : p.role.isExternal = true) {f : Family} (hf : p.hasFamily f = true)
    {peers : List Policy} (hp : p ∈ peers) (hn : (peers.map (·.name)).Nodup) (own : UInt32) :
    ∃ receive base rules,
      ofPeer ⟨some own⟩ p f .receive = .ok receive ∧ baseline ⟨some own⟩ p f = .ok base ∧
      receive.body = base ++ rules ++ p.incoming.map addLarge ++ [.accept] ∧
      (∀ c ∈ rules, ∃ no, c = .consult (rulesOf p .inbound) no) ∧
      ∀ r, (∀ reason, ¬ p.OutsideFault f r reason) → ∃ known out,
        (∀ decided, performAll (scope own peers) (scope own peers).calls 0 ⟨r, decided⟩ base =
          (none, ⟨known, decided⟩)) ∧
        receive.run (scope own peers) r = (some .accept, out) ∧
        (failureTag own .tooManyCommunities ∈ known.large ↔
          Constant.mostCommunities.limit < (r.strip own p.role.stripping).communityCount + 1) ∧
        ((∀ rule ∈ p.inbound, ¬ rule.Adds (failureTag own .tooManyCommunities) ∧
            ¬ rule.Removes (failureTag own .tooManyCommunities)) →
          failureTag own .tooManyCommunities ∉ p.incoming →
          (failureTag own .tooManyCommunities ∈ out.large ↔
            failureTag own .tooManyCommunities ∈ known.large)) := by
  obtain ⟨receive, hreceive, runs⟩ := Filter.receive_runs peers hp hn
  obtain ⟨base, rules, hbase, hbody, hrules⟩ := Filter.receive_parts hreceive
  obtain ⟨base', hbase', hchanges⟩ := Filter.baseline_changes peers hp hn
  obtain rfl := Except.ok.inj (hbase.symm.trans hbase')
  have unwelcome := (Policy.resolved_of_resolve h).acceptDefault_eq_false external
  refine ⟨receive, base, rules, hreceive, hbase, hbody, hrules, fun r clean =>
    ⟨p.judged own f r, p.received own f r, fun decided => hchanges ⟨r, decided⟩, runs r, ?_, ?_⟩⟩
  · exact Policy.tooManyCommunities_mem_judged_iff external unwelcome hf clean
  · intro untouched hin
    exact Policy.mem_received_of_untouched untouched hin (mt failureTag_inj.mp (by decide))

def Route.withCommunities (n : Nat) (large : List LargeCommunity) : Route :=
  ⟨⟨.v4 134744064, 24⟩, .bgp, "bgp4_a", [3333], .v4 3221225985, 100,
    (List.range n).map fun i => ⟨3333, .ofNat i⟩, [], large⟩

theorem not_outsideFault_withCommunities (n : Nat) (large : List LargeCommunity) (reason : Reason) :
    ¬ (Policy.plain "a" .customer 3333).OutsideFault .v4 (.withCommunities n large) reason := by
  have bogon : ∀ q ∈ bogonNets .v4, ¬ q.admits ⟨.v4 134744064, 24⟩ = true := by decide +kernel
  cases reason with
  | bogon =>
    rintro ⟨q, hq, hadmits⟩
    exact bogon q hq hadmits
  | firstAsMismatch | nexthopMismatch => exact fun h => h.2 rfl
  | originFiltered => exact fun h => h.1 rfl
  | prefixFiltered =>
    rintro ⟨⟨f, hf⟩, _⟩
    cases f <;> exact hf rfl
  | _ =>
    simp only [Policy.OutsideFault, Route.withCommunities]
    decide

/-- A customer sends as many communities as the limit allows, and the tag of the customer is one too
many. -/
theorem relation_counts_against_limit :
    let p : Policy := .plain "a" .customer 3333
    let r : Route := .withCommunities 100 []
    Policy.resolve ⟨65000, none, .off⟩ .empty "a" (.plain .customer 3333) = .ok p ∧
      p.role.isExternal = true ∧ p.hasFamily .v4 = true ∧
      (∀ reason, ¬ p.OutsideFault .v4 r reason) ∧
      ∃ base known, baseline ⟨some 65000⟩ p .v4 = .ok base ∧
        performAll (scope 65000 [p]) (scope 65000 [p]).calls 0 ⟨r, false⟩ base =
          (none, ⟨known, false⟩) ∧
        ¬ (failureTag 65000 .tooManyCommunities ∈ known.large ↔
          Constant.mostCommunities.limit < (r.strip 65000 p.role.stripping).communityCount) := by
  intro p r
  have resolves : Policy.resolve ⟨65000, none, .off⟩ .empty "a" (.plain .customer 3333) =
      .ok (.plain "a" .customer 3333) := by
    with_unfolding_all rfl
  have clean : ∀ reason, ¬ p.OutsideFault .v4 r reason := not_outsideFault_withCommunities 100 []
  obtain ⟨base, hbase, hchanges⟩ := @Filter.baseline_changes 65000 [p] p .v4
    (List.mem_singleton_self p) (List.pairwise_singleton _ _)
  have tagged : failureTag 65000 .tooManyCommunities ∈ (p.judged 65000 .v4 r).large :=
    (Policy.tooManyCommunities_mem_judged_iff rfl rfl rfl clean).mpr (by decide +kernel)
  refine ⟨resolves, rfl, rfl, clean, base, _, hbase, hchanges ⟨r, false⟩, fun h => ?_⟩
  exact absurd (h.mp tagged) (by decide +kernel)

/-- A customer stays one below the limit with an action, next to a relation that is taken off, and
has one community too many then. -/
theorem communities_counted_customer :
    let p : Policy := .plain "a" .customer 3333
    let large : List LargeCommunity := [relationTag 65000 .own, ⟨65000, 61, 174⟩]
    Policy.resolve ⟨65000, none, .off⟩ .empty "a" (.plain .customer 3333) = .ok p ∧
      p.role.isExternal = true ∧ p.hasFamily .v4 = true ∧ [p].map (·.name) = ["a"] ∧
      ∃ receive, ofPeer ⟨some 65000⟩ p .v4 .receive = .ok receive ∧
        ∃ below above,
          receive.run (scope 65000 [p]) (.withCommunities 98 large) = (some .accept, below) ∧
          receive.run (scope 65000 [p]) (.withCommunities 99 large) = (some .accept, above) ∧
          failureTag 65000 .tooManyCommunities ∉ below.large ∧
          failureTag 65000 .tooManyCommunities ∈ above.large := by
  intro p large
  have resolves : Policy.resolve ⟨65000, none, .off⟩ .empty "a" (.plain .customer 3333) =
      .ok (.plain "a" .customer 3333) := by
    with_unfolding_all rfl
  obtain ⟨receive, _, _, hreceive, _, _, _, counts⟩ := communities_counted resolves rfl
    (show p.hasFamily .v4 = true from rfl) (List.mem_singleton_self p)
    (List.pairwise_singleton _ _) 65000
  have untouched : ∀ rule ∈ p.inbound, ¬ rule.Adds (failureTag 65000 .tooManyCommunities) ∧
      ¬ rule.Removes (failureTag 65000 .tooManyCommunities) := List.forall_mem_nil _
  have incoming : failureTag 65000 .tooManyCommunities ∉ p.incoming := List.not_mem_nil
  obtain ⟨_, below, _, hbelow, few, kept⟩ := counts _ (not_outsideFault_withCommunities 98 large)
  obtain ⟨_, above, _, habove, many, kept'⟩ := counts _ (not_outsideFault_withCommunities 99 large)
  refine ⟨resolves, rfl, rfl, rfl, receive, hreceive, below, above, hbelow, habove, ?_, ?_⟩
  · rw [kept untouched incoming, few]
    decide +kernel
  · rw [kept' untouched incoming, many]
    decide +kernel

end Peering
