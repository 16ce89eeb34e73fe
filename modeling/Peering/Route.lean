import Peering.Community
import Peering.Network

/-! Routes, as the filters of a router see and change them. -/
namespace Peering

/-- Where a route entered the router. -/
inductive Origin where
  | device | inherit | static | bgp
  deriving DecidableEq, Repr

def Origin.name : Origin → String
  | device => "RTS_DEVICE"
  | inherit => "RTS_INHERIT"
  | static => "RTS_STATIC"
  | bgp => "RTS_BGP"

structure Route where
  net : Network
  origin : Origin
  /-- The name of the protocol that brought the route. -/
  protocol : String
  /-- The ASNs that the route came through, the nearest one first. -/
  path : List UInt32
  nextHop : Address
  localPref : UInt32
  communities : List Community
  extended : List ExtendedCommunity
  large : List LargeCommunity
  deriving DecidableEq, Repr

/-- Adds a member to a set that is kept as a list. -/
def addMember {α : Type} [DecidableEq α] (a : α) (as : List α) : List α :=
  if a ∈ as then as else as ++ [a]

/-- Removes a member from a set that is kept as a list. -/
def removeMember {α : Type} [DecidableEq α] (a : α) (as : List α) : List α := as.filter (· ≠ a)

namespace Route

/-- The ASN that the route came from last. A path without ASNs has zero there. -/
def firstAsn (r : Route) : UInt32 := r.path.headD 0

def originAsn (r : Route) : UInt32 := r.path.getLastD 0

def communityCount (r : Route) : Nat := r.communities.length + r.extended.length + r.large.length

end Route

theorem mem_addMember {α : Type} [DecidableEq α] {a b : α} {as : List α} :
    b ∈ addMember a as ↔ b = a ∨ b ∈ as := by
  unfold addMember
  split
  · rename_i h
    exact ⟨.inr, fun hb => hb.elim (fun e => e ▸ h) id⟩
  · simp [or_comm]

theorem mem_removeMember {α : Type} [DecidableEq α] {a b : α} {as : List α} :
    b ∈ removeMember a as ↔ b ≠ a ∧ b ∈ as := by
  simp [removeMember, and_comm]

end Peering
