import Peering.Proofs.Resolution
import Peering.Proofs.Sending

/-! Which routes are sent to a peer. -/
namespace Peering.Filter

variable {own : UInt32} {peers : List Policy} {p : Policy}

/-- The filter to a peer accepts a route if and only if no tag bans it, an enabled source covers the
route as it was received, a default route has leave of its own, and the rules of the peer let the
tagged route through. Otherwise it rejects the route. -/
theorem toPeer_accepts_iff (hp : p ∈ peers) (hn : (peers.map (·.name)).Nodup) (f : Family) :
    ∃ program, ofPeer ⟨some own⟩ p f .toPeer = .ok program ∧ ∀ r,
      ((program.run (scope own peers) r).1 = some .accept ↔
        (p.role ∈ Role.externals → ∀ n ∈ p.bans, ⟨own, 70, n⟩ ∉ r.large) ∧
        (∃ s, s ≠ .default ∧ p.redistribution.enabled s = true ∧ p.covers own f s r = true) ∧
        (r.net = .everything f → p.redistribution.enabled .default = true) ∧
        (evaluateRules own p.outbound (p.tagged own f r)).1 = true) ∧
      ((program.run (scope own peers) r).1 = some .accept ∨
        (program.run (scope own peers) r).1 = some .reject) := by
  obtain ⟨program, hprogram, hrun⟩ := toPeer_runs peers hp hn
  refine ⟨program, hprogram, fun r => ⟨?_, ?_⟩⟩
  · rw [Exit.eq_accept_iff (hrun r).1, Policy.exports_iff, Role.isExternal_iff]
    rfl
  · rw [(hrun r).1]
    cases p.exports own f r <;> simp

/-- A customer is sent what another customer announces, unless the route is to be kept from
customers. -/
theorem toPeer_accepts_iff_customer :
    let p : Policy := .plain "a" .customer 64496
    let r : Route := ⟨⟨.v4 134744064, 24⟩, .bgp, "bgp4_b", [3333], .v4 1, 750, [], [],
      [relationTag 65000 .customer]⟩
    [p].map (·.name) = ["a"] ∧
      ∃ program, ofPeer ⟨some 65000⟩ p .v4 .toPeer = .ok program ∧
        (program.run (scope 65000 [p]) r).1 = some .accept ∧
        (program.run (scope 65000 [p]) (r.mark [⟨65000, 70, 65412⟩])).1 = some .reject := by
  intro p r
  refine ⟨rfl, ?_⟩
  obtain ⟨program, hprogram, decides⟩ := @toPeer_accepts_iff 65000 [p] p
    (List.mem_singleton_self _) (List.pairwise_singleton _ _) .v4
  refine ⟨program, hprogram, (decides r).1.mpr ⟨?_, ⟨.bgpCustomer, ?_, ?_, ?_⟩, ?_, ?_⟩, ?_⟩
  · intro _ n _ hn
    have htag := List.mem_singleton.mp hn
    exact absurd (LargeCommunity.mk.inj htag).2.1 (by decide)
  · decide
  · decide
  · decide +kernel
  · decide
  · decide
  · -- The route carries a tag that bans it from customers.
    refine (decides _).2.resolve_left fun accepted => ?_
    obtain ⟨unbanned, _⟩ := (decides _).1.mp accepted
    exact unbanned (by decide) 65412 (by decide) (by decide)

end Peering.Filter
