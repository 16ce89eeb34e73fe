import Peering.Proofs.AllowLists

/-!
What a sender can put on a route. After the checks, a route of an external peer carries no tag of
our own but the one of its relation, the reasons that were found against it, and, where the peer is
a customer, the actions that it asks for.
-/
namespace Peering

theorem relation_eq_none_iff {role : Role} (external : role.isExternal = true) :
    role.relation = none ↔ role = .routeCollector := by
  cases role <;> simp_all [Role.relation, Role.isExternal, Role.isReflector]

/-- An external peer keeps nothing under our ASN, save that a customer keeps its actions. -/
theorem keeps_own_iff {own : UInt32} {role : Role} (external : role.isExternal = true)
    {c : LargeCommunity} (hown : c.admin = own) :
    role.stripping.keeps own c = true ↔
      role = .customer ∧ TagKind.firstAction ≤ c.function ∧ c.function ≤ TagKind.lastAction := by
  cases role <;>
    simp_all [Role.stripping, Stripping.keeps, Role.isExternal, Role.isReflector]

namespace Policy
variable {own : UInt32} {p : Policy} {f : Family} {r : Route} {c : LargeCommunity}

end Policy

open Peering.Filter (addLarge baseline ofPeer rulesOf scope)
open Peering.Filter.Command.perform (performAll)

end Peering
