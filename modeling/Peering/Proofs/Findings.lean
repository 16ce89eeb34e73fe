import Peering.Proofs.Baseline

/-!
Which reasons are found against a received route. For each reason there is a condition on the peer
and the route; the reasons on the route, once all checks are done, are those whose conditions hold.
-/
namespace Peering

namespace Policy
variable (p : Policy) (f : Family) (r : Route)

def OriginUnlisted : Prop := p.asnGroups ≠ [] ∧ ∀ g ∈ p.asnGroups, r.originAsn ∉ g.items

/-- Networks are listed for the peer, be it for the other family, and none of this family admits
that of the route. -/
def NetUnlisted : Prop :=
  (∃ g, p.groups g ≠ []) ∧ ∀ g ∈ p.groups f, ∀ q ∈ g.items, q.admits r.net = false

/-- What holds against a route that comes from outside our network. The number of communities is
left out: it counts what earlier checks have added. -/
def OutsideFault : Reason → Prop
  | .defaultNotAllowed => r.net = .everything f
  | .routecollector => p.role = .routeCollector
  | .bogon => ∃ q ∈ bogonNets f, q.admits r.net = true
  | .prefixTooLong => (Constant.longest f).limit < r.net.length
  | .prefixTooShort => r.net.length < (Constant.shortest f).limit
  | .bogonAsn => ∃ n ∈ r.path, ∃ range ∈ bogonAsns, range.1 ≤ n ∧ n ≤ range.2
  | .asPathTooLong => Constant.longestPath.limit < r.path.length
  | .asPathTooShort => r.path.length < Constant.shortestPath.limit
  | .firstAsMismatch => p.role ≠ .routeServer ∧ r.firstAsn ≠ p.asn
  | .nexthopMismatch => p.role ∈ [.customer, .peer, .transit] ∧ p.neighbor f ≠ some r.nextHop
  | .transitFreeAsn => p.role ∈ [.customer, .peer] ∧ ∃ n ∈ r.path, n ∈ transitFree
  | .originFiltered => p.OriginUnlisted r
  | .prefixFiltered => p.NetUnlisted f r
  | .quarantined => p.quarantine = true
  | .rpkiUnknown | .rpkiInvalid | .tooManyCommunities | .customAction => False

end Policy

namespace Role

theorem checksFirstAs_iff {role : Role} (external : role.isExternal = true) :
    role.checksFirstAs = true ↔ role ≠ .routeServer := by
  cases role <;> simp_all [checksFirstAs, isExternal, isReflector]

theorem checksNextHop_iff {role : Role} :
    role.checksNextHop = true ↔ role ∈ [.customer, .peer, .transit] := by
  cases role <;> simp [checksNextHop]

theorem checksTransitFree_iff {role : Role} :
    role.checksTransitFree = true ↔ role ∈ [.customer, .peer] := by
  cases role <;> simp [checksTransitFree]

end Role

namespace Route
variable {f : Family} {r : Route}

theorem hasBogonAsn_iff :
    r.hasBogonAsn = true ↔ ∃ n ∈ r.path, ∃ range ∈ bogonAsns, range.1 ≤ n ∧ n ≤ range.2 := by
  rw [hasBogonAsn, List.any_eq_true]
  exact exists_congr fun n => and_congr_right fun _ => Filter.inRanges_iff

theorem hasTransitFreeAsn_iff :
    r.hasTransitFreeAsn = true ↔ ∃ n ∈ r.path, n ∈ transitFree := by
  rw [hasTransitFreeAsn, List.any_eq_true]
  exact exists_congr fun n => and_congr_right fun _ => List.contains_iff_mem

end Route

namespace Policy
variable {own : UInt32} {p : Policy} {f : Family} {r : Route} {reason : Reason}

theorem mem_allowFailures_iff :
    reason ∈ p.allowFailures f r ↔
      reason = .originFiltered ∧ p.OriginUnlisted r ∨
        reason = .prefixFiltered ∧ p.NetUnlisted f r := by
  have origins : p.OriginUnlisted r ↔
      (!p.asnGroups.isEmpty && !(Filter.itemsOf p.asnGroups).contains r.originAsn) = true := by
    simp [OriginUnlisted, Filter.itemsOf]
  have listed : p.listsNets = true ↔ ∃ g, p.groups g ≠ [] := by
    simp [listsNets, Family.mem_all]
  have nets : p.NetUnlisted f r ↔
      (p.listsNets && !(Filter.itemsOf (p.groups f)).any (·.admits r.net)) = true := by
    rw [Bool.and_eq_true, listed]
    simp [NetUnlisted, Filter.itemsOf]
  rw [allowFailures, List.mem_append, Reason.mem_given, Reason.mem_given, origins, nets]

theorem mem_lastFailures_iff :
    reason ∈ p.lastFailures f r ↔
      (reason = .originFiltered ∧ p.OriginUnlisted r ∨
        reason = .prefixFiltered ∧ p.NetUnlisted f r) ∨
      reason = .quarantined ∧ p.quarantine = true := by
  rw [lastFailures, List.mem_append, mem_allowFailures_iff, Reason.mem_given]

theorem mem_failures_iff (h : reason ≠ .tooManyCommunities) :
    reason ∈ p.failures own f r ↔ reason ∈ p.firstFailures f r ∨ reason ∈ p.lastFailures f r := by
  have count : reason ∉ p.countFailures (r.fail own (p.firstFailures f r)) := fun hmem =>
    h (Reason.mem_given.mp hmem).1
  rw [failures, List.mem_append, List.mem_append, or_iff_left count]

theorem nextHop_differs_iff (hf : p.hasFamily f = true) :
    (p.neighbor f).any (r.nextHop ≠ ·) = true ↔ p.neighbor f ≠ some r.nextHop := by
  obtain ⟨a, ha⟩ := Option.isSome_iff_exists.mp hf
  rw [ha, Option.any_some, decide_eq_true_eq, Ne, Ne, Option.some.injEq, @eq_comm _ a]

theorem mem_failures_iff_outside (external : p.role.isExternal = true)
    (unwelcome : p.acceptDefault = false) (hf : p.hasFamily f = true)
    (h : reason ≠ .tooManyCommunities) :
    reason ∈ p.failures own f r ↔ p.OutsideFault f r reason := by
  have nextHop := nextHop_differs_iff (r := r) hf
  rw [mem_failures_iff h, mem_lastFailures_iff, firstFailures, unwelcome, if_pos external,
    sanityFailures, unwelcome]
  simp only [netFailures, pathFailures, List.mem_append, Reason.mem_given, Bool.and_eq_true,
    Role.checksFirstAs_iff external, Role.checksNextHop_iff, Role.checksTransitFree_iff,
    Route.hasBogonAsn_iff, Route.hasTransitFreeAsn_iff, nextHop]
  cases reason <;>
    simp [OutsideFault, Route.isDefault, Route.isBogon, Route.isTooLong, Route.isTooShort,
      Route.hasLongPath, Route.hasShortPath, Reason.mem_given]

end Policy

open Peering.Filter (addLarge baseline ofPeer rulesOf scope)
open Peering.Filter.Command.perform (performAll)

end Peering
