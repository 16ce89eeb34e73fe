import Mathlib
import Peering.Proofs.Indifference

/-!
How often our ASN is put in front of the path of a route that is sent to a peer: as often as the
rules that apply say, and for a peer outside our network as often as the first request for it says
that the route carries when it leaves.
-/
namespace Peering

namespace Rule

def prepends (rule : Rule) : Nat :=
  match rule.action with
  | .reject => 0
  | .update u => u.prepend.getD 0

def updated (own : UInt32) (rule : Rule) (r : Route) : Route :=
  match rule.action with
  | .reject => r
  | .update u => u.perform own r

end Rule

/-- The rules that apply, each to the route as those before left it, up to one that refuses it. -/
def appliedRules (own : UInt32) : List Rule → Route → List Rule
  | [], _ => []
  | rule :: rules, r =>
    if rule.condition.applies r then
      match rule.action with
      | .reject => [rule]
      | .update u => rule :: appliedRules own rules (u.perform own r)
    else appliedRules own rules r

def updatedRoute (own : UInt32) (rules : List Rule) (r : Route) : Route :=
  rules.foldl (fun r rule => rule.updated own r) r

section Applied
variable {own : UInt32}

theorem Rule.path_updated (rule : Rule) (r : Route) :
    (rule.updated own r).path = List.replicate rule.prepends own ++ r.path := by
  rw [updated, prepends]
  cases rule.action <;> rfl

theorem path_updatedRoute (rules : List Rule) (r : Route) :
    (updatedRoute own rules r).path =
      List.replicate (rules.map Rule.prepends).sum own ++ r.path := by
  induction rules generalizing r with
  | nil => rfl
  | cons rule rules ih =>
    have rest := ih (rule.updated own r)
    rw [updatedRoute] at rest ⊢
    rw [List.foldl_cons, rest, rule.path_updated, ← List.append_assoc,
      List.replicate_append_replicate, List.map_cons, List.sum_cons, Nat.add_comm]

/-- Going through rules does what those that apply do, and goes to the end unless one of them
refuses the route. -/
theorem evaluateRules_eq_applied (rules : List Rule) (r : Route) :
    evaluateRules own rules r =
      ((appliedRules own rules r).all (·.action ≠ .reject),
        updatedRoute own (appliedRules own rules r) r) := by
  induction rules generalizing r with
  | nil => rfl
  | cons rule rules ih =>
    rw [evaluateRules, Rule.evaluate, appliedRules]
    by_cases happlies : rule.condition.applies r = true
    · rw [if_pos happlies, if_pos happlies]
      cases ha : rule.action with
      | reject => simp [updatedRoute, Rule.updated, ha]
      | update u => simp [updatedRoute, Rule.updated, ha, ih]
    · rw [if_neg happlies, if_neg happlies]
      exact ih r

theorem updatedRoute_sameBut {c : LargeCommunity} {r r' : Route} (h : Route.SameBut c r r')
    (rules : List Rule) :
    Route.SameBut c (updatedRoute own rules r) (updatedRoute own rules r') := by
  induction rules generalizing r r' with
  | nil => exact h
  | cons rule rules ih =>
    apply ih
    simp only [Rule.updated]
    cases rule.action with
    | reject => exact h
    | update u => exact h.perform own u

end Applied

namespace Policy
variable {own : UInt32} {p : Policy} {f : Family} {r : Route}

/-- The route when it leaves for the peer, before anything is done for peers outside our network. -/
def leaving (own : UInt32) (p : Policy) (f : Family) (r : Route) : Route :=
  (evaluateRules own p.outbound (p.tagged own f r)).2.mark p.outgoing

theorem path_tagAll (ss : List Source) (r : Route) : (p.tagAll own f ss r).path = r.path := by
  induction ss generalizing r with
  | nil => rfl
  | cons s ss ih =>
    rw [tagAll, ih]
    split <;> rfl

theorem path_tagged : (p.tagged own f r).path = r.path := by
  rw [tagged, tagDefault]
  split <;> exact path_tagAll _ r

theorem path_leaving : (p.leaving own f r).path =
    List.replicate ((appliedRules own p.outbound (p.tagged own f r)).map Rule.prepends).sum own ++
      r.path := by
  have ruled : (p.leaving own f r).path =
      (evaluateRules own p.outbound (p.tagged own f r)).2.path := rfl
  rw [ruled, evaluateRules_eq_applied, path_updatedRoute, path_tagged]

/-- The first request for the peer that the route carries decides, and three prepends come first. -/
theorem requested_prependRequests (asn : UInt32) (r : Route) :
    requested own asn r Filter.prependRequests =
      if ⟨own, 63, asn⟩ ∈ r.large then 3
      else if ⟨own, 62, asn⟩ ∈ r.large then 2
      else if ⟨own, 61, asn⟩ ∈ r.large then 1
      else 0 := by
  simp only [Filter.prependRequests, requested, List.contains_iff_mem]
  rfl

theorem path_sent : (p.sent own (p.tagged own f r)).path =
    List.replicate
        (((appliedRules own p.outbound (p.tagged own f r)).map Rule.prepends).sum +
          if p.role.isExternal = true then
            requested own p.asn (p.leaving own f r) Filter.prependRequests
          else 0) own ++ r.path := by
  have sent : p.sent own (p.tagged own f r) =
      if p.role.isExternal then p.shown own (p.leaving own f r) else p.leaving own f r := rfl
  rw [sent]
  split
  · rw [shown]
    dsimp only
    rw [path_leaving, ← List.append_assoc, List.replicate_append_replicate, Nat.add_comm]
  · exact path_leaving

theorem ignores_request {k n : UInt32} (hk : k ∈ [61, 62, 63]) :
    p.Ignores own ⟨own, k, n⟩ := by
  have ignores {j : UInt32} (codes : j ≠ TagKind.relation.code ∧ j ≠ TagKind.filtered.code ∧
      j ≠ TagKind.noExport.code) : p.Ignores own ⟨own, j, n⟩ :=
    fun _ => ⟨codes.1, codes.2.1, fun h => absurd h codes.2.2⟩
  simp only [List.mem_cons, List.not_mem_nil, or_false] at hk
  obtain rfl | rfl | rfl := hk
  all_goals exact ignores (by decide)

theorem requested_leaving {k n : UInt32} (hk : k ∈ [61, 62, 63]) (apart : n ≠ p.asn)
    (same : appliedRules own p.outbound (p.tagged own f (r.mark [⟨own, k, n⟩])) =
      appliedRules own p.outbound (p.tagged own f r)) :
    requested own p.asn (p.leaving own f (r.mark [⟨own, k, n⟩])) Filter.prependRequests =
      requested own p.asn (p.leaving own f r) Filter.prependRequests := by
  have ignored : p.Ignores own ⟨own, k, n⟩ := ignores_request hk
  have tagged := tagged_sameBut (f := f) ignored (.marked _ r)
  have leaving : Route.SameBut ⟨own, k, n⟩ (p.leaving own f r)
      (p.leaving own f (r.mark [⟨own, k, n⟩])) := by
    rw [Policy.leaving, Policy.leaving, evaluateRules_eq_applied, evaluateRules_eq_applied, same]
    exact (updatedRoute_sameBut tagged _).mark _
  have others (j : UInt32) : (⟨own, j, p.asn⟩ : LargeCommunity) ≠ ⟨own, k, n⟩ :=
    fun h => apart (LargeCommunity.mk.inj h).2.2.symm
  simp only [requested_prependRequests, leaving.large _ (others _)]

end Policy

/-- The filter to a peer and prepends. A route that is accepted leaves with our ASN in front of its
path as often as the rules that applied to it say together; to a peer outside our network, the
requests for it that the route then carries add to that, and the one for most prepends decides.
Requests for others count for nothing: while the same rules apply, one more of them changes neither
the verdict nor the path. -/
theorem prepends_exact {own : UInt32} {peers : List Policy} {p : Policy} (hp : p ∈ peers)
    (hn : (peers.map (·.name)).Nodup) (f : Family) :
    ∃ program, Filter.ofPeer ⟨some own⟩ p f .toPeer = .ok program ∧
      (∀ r out, program.run (Filter.scope own peers) r = (some .accept, out) →
        let ruled := ((appliedRules own p.outbound (p.tagged own f r)).map Rule.prepends).sum
        let leaving := p.leaving own f r
        let asked :=
          if p.role.isExternal = true then
            if ⟨own, 63, p.asn⟩ ∈ leaving.large then 3
            else if ⟨own, 62, p.asn⟩ ∈ leaving.large then 2
            else if ⟨own, 61, p.asn⟩ ∈ leaving.large then 1
            else 0
          else 0
        out.path = List.replicate (ruled + asked) own ++ r.path) ∧
      ∀ r k n, k ∈ [61, 62, 63] → n ≠ p.asn →
        appliedRules own p.outbound (p.tagged own f (r.mark [⟨own, k, n⟩])) =
          appliedRules own p.outbound (p.tagged own f r) →
        let out := program.run (Filter.scope own peers) r
        let other := program.run (Filter.scope own peers) (r.mark [⟨own, k, n⟩])
        other.1 = out.1 ∧ (out.1 = some .accept → other.2.path = out.2.path) := by
  obtain ⟨program, hprogram, runs⟩ := @Filter.toPeer_runs own peers p f hp hn
  have sent : ∀ r, p.exports own f r = true →
      (program.run (Filter.scope own peers) r).2.path = List.replicate
        (((appliedRules own p.outbound (p.tagged own f r)).map Rule.prepends).sum +
          if p.role.isExternal = true then
            Policy.requested own p.asn (p.leaving own f r) Filter.prependRequests
          else 0) own ++ r.path :=
    fun r exported => ((runs r).2 exported).symm ▸ Policy.path_sent
  refine ⟨program, hprogram, fun r out accepted => ?_, fun r k n hk apart same => ?_⟩
  · have exported := (Filter.Exit.eq_accept_iff (runs r).1).mp (by rw [accepted])
    have path := sent r exported
    rw [accepted, Policy.requested_prependRequests] at path
    exact path
  · have ignored : p.Ignores own ⟨own, k, n⟩ := Policy.ignores_request hk
    have exported := Policy.exports_of_sameBut (f := f) ignored (.marked _ r) (by
      rw [evaluateRules_eq_applied, evaluateRules_eq_applied, same])
    have asked : Policy.requested own p.asn (p.leaving own f (r.mark [⟨own, k, n⟩]))
        Filter.prependRequests =
          Policy.requested own p.asn (p.leaving own f r) Filter.prependRequests :=
      Policy.requested_leaving hk apart same
    refine ⟨?_, fun accepted => ?_⟩
    · rw [(runs _).1, (runs r).1, exported]
    · have hr := (Filter.Exit.eq_accept_iff (runs r).1).mp accepted
      rw [sent r hr, sent _ (exported.trans hr), same, asked]
      rfl

/-- A rule prepends twice and makes two prepends of the three that were asked for. Three that are
asked for at another peer do not matter, nor does one prepend more at a third. -/
theorem prepends_exact_replaced :
    let rule : Rule := ⟨.outbound, ⟨none, none, none, none, none⟩,
      .update ⟨.empty, .empty, ⟨[⟨65000, 62, 3333⟩], [⟨65000, 63, 3333⟩]⟩, some 2⟩⟩
    let p : Policy := { Policy.plain "a" .peer 3333 with outbound := [rule] }
    let r : Route := ⟨⟨.v4 134744064, 24⟩, .bgp, "bgp4_b", [1136], .v4 1, 750, [], [],
      [relationTag 65000 .customer, ⟨65000, 63, 3333⟩, ⟨65000, 63, 286⟩]⟩
    ∃ program out, Filter.ofPeer ⟨some 65000⟩ p .v4 .toPeer = .ok program ∧
      program.run (Filter.scope 65000 [p]) r = (some .accept, out) ∧
      out.path = [65000, 65000, 65000, 65000, 1136] ∧
      (program.run (Filter.scope 65000 [p]) (r.mark [⟨65000, 61, 174⟩])).2.path = out.path := by
  intro rule p r
  obtain ⟨program, hprogram, exact, others⟩ := @prepends_exact 65000 [p] p
    (List.mem_singleton_self p) (List.pairwise_singleton _ _) .v4
  obtain ⟨program', hprogram', runs⟩ := @Filter.toPeer_runs 65000 [p] p .v4
    (List.mem_singleton_self p) (List.pairwise_singleton _ _)
  obtain rfl := Except.ok.inj (hprogram.symm.trans hprogram')
  have exported : p.exports 65000 .v4 r = true := by decide +kernel
  have accepted := (Filter.Exit.eq_accept_iff (runs r).1).mpr exported
  have haccept : program.run (Filter.scope 65000 [p]) r =
      (some .accept, (program.run (Filter.scope 65000 [p]) r).2) := Prod.ext accepted rfl
  refine ⟨program, _, hprogram, haccept, ?_, ?_⟩
  · rw [exact r _ haccept]
    decide +kernel
  · have same : appliedRules 65000 p.outbound (p.tagged 65000 .v4 (r.mark [⟨65000, 61, 174⟩])) =
        appliedRules 65000 p.outbound (p.tagged 65000 .v4 r) := by decide +kernel
    exact (others r 61 174 (by decide) (by decide) same).2 accepted

end Peering
