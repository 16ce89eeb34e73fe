import Peering.Proofs.Resolution
import Peering.Proofs.Sending

/-!
Default routes on their way to a peer. They need leave of their own and a source that covers them,
and none of the sources that go by relations does: what may be sent for a relation is checked for
its length first, and a default route is too short for both families.
-/
namespace Peering

namespace Source

/-- The sources that go by where a route entered the router. -/
def byOrigin : List Source := [.connected, .kernel, .static, .originated, .bgp]

/-- The sources that go by the relation over which a route was learned. -/
def byRelation : List Source := [.bgpOwn, .bgpCustomer, .bgpPeering, .bgpTransit]

theorem default_or_mem (s : Source) : s = .default ∨ s ∈ byOrigin ∨ s ∈ byRelation := by
  cases s <;> decide

theorem relations_ne_nil : ∀ s ∈ byRelation, s.relations ≠ [] := by decide

theorem not_mem_byOrigin_of_mem : ∀ s ∈ byRelation, s ∉ byOrigin := by decide

end Source

section
variable {own : UInt32} {p : Policy} {f : Family} {r : Route}

/-- The shortest networks that are believed are longer than the one that holds everything. -/
theorem Route.isTooShort_everything (h : r.net = .everything f) : r.isTooShort f = true := by
  rw [isTooShort, h]
  cases f <;> decide

theorem Route.mayBeSent_everything (h : r.net = .everything f) (asn : UInt32) :
    r.mayBeSent own f asn = false := by
  rw [mayBeSent, isTooShort_everything h, Bool.not_true, Bool.and_false, Bool.false_and]

theorem Policy.covers_everything {s : Source} (hs : s ∈ Source.byRelation)
    (h : r.net = .everything f) : p.covers own f s r = false := by
  have sent : r.mayBeSent own f p.asn = false := Route.mayBeSent_everything h p.asn
  rw [covers_of_relations own p f (Source.relations_ne_nil s hs), sent, Bool.and_false]

/-- A default route that is exported has leave, and entered the router at an enabled source. -/
theorem Policy.exports_everything (h : r.net = .everything f)
    (exported : p.exports own f r = true) :
    p.redistribution.enabled .default = true ∧
      ∃ s ∈ Source.byOrigin, p.redistribution.enabled s = true ∧ p.covers own f s r = true := by
  obtain ⟨_, ⟨s, hs, enabled, covered⟩, leave, _⟩ := exports_iff.mp exported
  refine ⟨leave h, s, ?_, enabled, covered⟩
  obtain hdefault | horigin | hrelation := s.default_or_mem
  · exact absurd hdefault hs
  · exact horigin
  · rw [covers_everything hrelation h] at covered
    exact absurd covered Bool.false_ne_true

end

open Peering.Filter (ofPeer provenance scope)

/-- The filter to a peer and default routes. One that is accepted has the leave that default routes
need, and an enabled source covers it that goes by where it entered the router. The tests for
relations fail on it, with whatever tags, because what may be sent for a relation is never a default
route. So where no source is enabled but leave and relations, all default routes are rejected. -/
theorem default_routes_by_origin {own : UInt32} {peers : List Policy} {p : Policy} (hp : p ∈ peers)
    (hn : (peers.map (·.name)).Nodup) (f : Family) :
    ∃ program, ofPeer ⟨some own⟩ p f .toPeer = .ok program ∧
      (∀ r, r.net = .everything f → (program.run (scope own peers) r).1 = some .accept →
        p.redistribution.enabled .default = true ∧
          ∃ s ∈ Source.byOrigin, p.redistribution.enabled s = true ∧
            p.covers own f s r = true) ∧
      (∀ s ∈ Source.byRelation, ∃ test, provenance ⟨some own⟩ p f s = .ok test ∧
        ∀ st : Filter.State, st.route.net = .everything f →
          test.holds (scope own peers) (scope own peers).calls 0 st = false) ∧
      (∀ asn r, r.net = .everything f →
        (scope own peers).calls (.shared (.canExport f)) asn r = (false, r)) ∧
      ((∀ s, p.redistribution.enabled s = true → s = .default ∨ s ∈ Source.byRelation) →
        ∀ r, r.net = .everything f → (program.run (scope own peers) r).1 = some .reject) := by
  obtain ⟨program, hprogram, runs⟩ := @Filter.toPeer_runs own peers p f hp hn
  refine ⟨program, hprogram, fun r h accepted => ?_, fun s hs => ?_, fun asn r h => ?_,
    fun relations r h => ?_⟩
  · exact Policy.exports_everything h ((Filter.Exit.eq_accept_iff (runs r).1).mp accepted)
  · obtain ⟨test, htest, holds⟩ := @Filter.provenance_holds own peers p f s
    exact ⟨test, htest, fun st h => (holds st).trans (Policy.covers_everything hs h)⟩
  · rw [Filter.calls_canExport, Route.mayBeSent_everything h]
  · have unexported : p.exports own f r = false := by
      rw [← Bool.not_eq_true]
      intro exported
      obtain ⟨_, s, horigin, enabled, _⟩ := Policy.exports_everything h exported
      obtain rfl | hrelation := relations s enabled
      · exact absurd horigin (by decide)
      · exact Source.not_mem_byOrigin_of_mem s hrelation horigin
    rw [(runs r).1, unexported]
    rfl

/-- A customer that is to be sent default routes. Without any other setting it gets none, not even
one that is tagged as ours and as that of every kind of peer; if it is to be sent what the router
originates itself, it gets the default route among that. -/
theorem default_routes_by_origin_customer :
    let leave : Settings.RedistributeSet := { Settings.RedistributeSet.unset with
      default := some (.flag true) }
    let p : Policy := { Policy.plain "a" .customer 3333 with
      redistribution := (Redistribution.ofRole .customer).override .default true [] }
    let q : Policy := { p with redistribution := p.redistribution.override .originated true [] }
    let learned : Route := ⟨.everything .v4, .bgp, "bgp4_b", [174], .v4 1, 150, [], [],
      Relation.all.map (relationTag 65000)⟩
    let originated : Route := ⟨.everything .v4, .static, "originate4", [], .v4 1, 100, [], [], []⟩
    Policy.resolve ⟨65000, none, .off⟩ .empty "a"
        { Settings.Peer.plain .customer 3333 with redistribute := leave } = .ok p ∧
      Policy.resolve ⟨65000, none, .off⟩ .empty "a" { Settings.Peer.plain .customer 3333 with
        redistribute := { leave with originated := some (.flag true) } } = .ok q ∧
      ∃ toP toQ, ofPeer ⟨some 65000⟩ p .v4 .toPeer = .ok toP ∧
        ofPeer ⟨some 65000⟩ q .v4 .toPeer = .ok toQ ∧
        (toP.run (scope 65000 [p]) learned).1 = some .reject ∧
        (toP.run (scope 65000 [p]) originated).1 = some .reject ∧
        (toQ.run (scope 65000 [q]) originated).1 = some .accept ∧
        ∃ s ∈ Source.byOrigin, q.redistribution.enabled s = true ∧
          q.covers 65000 .v4 s originated = true := by
  intro leave p q learned originated
  have resolves (set : Settings.RedistributeSet) (redistribution : Redistribution)
      (h : Policy.redistributionOf ⟨65000, none, .off⟩ "peers.a"
        { Settings.Peer.plain .customer 3333 with redistribute := set } = .ok redistribution) :
      Policy.resolve ⟨65000, none, .off⟩ .empty "a"
          { Settings.Peer.plain .customer 3333 with redistribute := set } =
        .ok { Policy.plain "a" .customer 3333 with redistribution } := by
    rw [Policy.resolve]
    dsimp only
    rw [show toString "peers." ++ toString "a" = "peers.a" from rfl, h]
    with_unfolding_all rfl
  have relations : ∀ s, p.redistribution.enabled s = true →
      s = .default ∨ s ∈ Source.byRelation := by
    intro s hs
    revert hs
    cases s <;> decide
  obtain ⟨toP, htoP, _, _, _, refuses⟩ := @default_routes_by_origin 65000 [p] p
    (List.mem_singleton_self p) (List.pairwise_singleton _ _) .v4
  obtain ⟨toQ, htoQ, leaves, _⟩ := @default_routes_by_origin 65000 [q] q
    (List.mem_singleton_self q) (List.pairwise_singleton _ _) .v4
  obtain ⟨toQ', htoQ', runs⟩ := @Filter.toPeer_runs 65000 [q] q .v4 (List.mem_singleton_self q)
    (List.pairwise_singleton _ _)
  obtain rfl := Except.ok.inj (htoQ.symm.trans htoQ')
  have exported : q.exports 65000 .v4 originated = true := by decide +kernel
  have accepted := (Filter.Exit.eq_accept_iff (runs originated).1).mpr exported
  exact ⟨resolves leave _ (by with_unfolding_all rfl), resolves _ _ (by with_unfolding_all rfl),
    toP, toQ, htoP, htoQ, refuses relations learned rfl, refuses relations originated rfl, accepted,
    (leaves originated rfl accepted).2⟩

end Peering
