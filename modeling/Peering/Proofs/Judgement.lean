import Peering.Proofs.Checks

/-!
What becomes of a received route, said without filters: it is admitted without the tags that the
sender may not set, it is judged by the checks, and then it meets the rules of the peer.
-/
namespace Peering

def failureTag (own : UInt32) (reason : Reason) : LargeCommunity :=
  ⟨own, TagKind.filtered.code, reason.code⟩

def relationTag (own : UInt32) (relation : Relation) : LargeCommunity :=
  ⟨own, TagKind.relation.code, relation.code⟩

def Reason.given (reason : Reason) (holds : Bool) : List Reason := if holds then [reason] else []

def Stripping.keeps (own : UInt32) : Stripping → LargeCommunity → Bool
  | .all, c => own != c.admin
  | .exceptActions, c =>
    own != c.admin || (TagKind.firstAction ≤ c.function && c.function ≤ TagKind.lastAction)
  | .nothing, _ => true

namespace Route

def isDefault (f : Family) (r : Route) : Bool := r.net = .everything f

def fail (own : UInt32) (reasons : List Reason) (r : Route) : Route :=
  r.mark (reasons.map (failureTag own))

def strip (own : UInt32) (s : Stripping) (r : Route) : Route :=
  { r with large := r.large.filter (s.keeps own) }

theorem fail_append (own : UInt32) (xs ys : List Reason) (r : Route) :
    r.fail own (xs ++ ys) = (r.fail own xs).fail own ys := by
  rw [fail, List.map_append, mark_append]
  rfl

end Route

namespace Policy
variable (own : UInt32) (p : Policy) (f : Family) (r : Route)

def admitted : Route :=
  let known := (r.strip own p.role.stripping).mark
    (p.role.relation.map (relationTag own)).toList
  { known with localPref := p.localPref.getD r.localPref }

def netFailures : List Reason :=
  Reason.bogon.given (r.isBogon f) ++ Reason.prefixTooLong.given (r.isTooLong f) ++
    Reason.prefixTooShort.given (r.isTooShort f)

def pathFailures : List Reason :=
  Reason.bogonAsn.given r.hasBogonAsn ++ Reason.asPathTooLong.given r.hasLongPath ++
    Reason.asPathTooShort.given r.hasShortPath

/-- A default route that is welcome is not held against the limits of networks. -/
def sanityFailures : List Reason :=
  (if p.acceptDefault && r.isDefault f then [] else netFailures f r) ++ pathFailures r ++
    Reason.firstAsMismatch.given (p.role.checksFirstAs && r.firstAsn ≠ p.asn) ++
    Reason.nexthopMismatch.given (p.role.checksNextHop && (p.neighbor f).any (r.nextHop ≠ ·)) ++
    Reason.transitFreeAsn.given (p.role.checksTransitFree && r.hasTransitFreeAsn)

/-- What the checks find before they count communities. -/
def firstFailures : List Reason :=
  Reason.defaultNotAllowed.given (!p.acceptDefault && r.isDefault f) ++
    Reason.routecollector.given (p.role = .routeCollector) ++
    if p.role.isExternal then p.sanityFailures f r else []

def countFailures : List Reason :=
  Reason.tooManyCommunities.given (p.role.isExternal && r.hasManyCommunities)

/-- Whether networks are listed, be it for the other family. -/
def listsNets : Bool := Family.all.any fun f => !(p.groups f).isEmpty

def allowFailures : List Reason :=
  Reason.originFiltered.given
      (!p.asnGroups.isEmpty && !(Filter.itemsOf p.asnGroups).contains r.originAsn) ++
    Reason.prefixFiltered.given
      (p.listsNets && !(Filter.itemsOf (p.groups f)).any (·.admits r.net))

def lastFailures : List Reason :=
  p.allowFailures f r ++ Reason.quarantined.given p.quarantine

/-- Everything that is found against an admitted route. Communities are counted together with the
tags of the checks before. -/
def failures : List Reason :=
  p.firstFailures f r ++ p.countFailures (r.fail own (p.firstFailures f r)) ++ p.lastFailures f r

def judged : Route := (p.admitted own r).fail own (p.failures own f (p.admitted own r))

/-- The route as it comes into the table of the peer. -/
def received : Route :=
  let ruled := evaluateRules own p.inbound (p.judged own f r)
  (if ruled.1 then ruled.2 else ruled.2.fail own [.customAction]).mark p.incoming

end Policy

theorem Reason.code_inj {a b : Reason} (h : a.code = b.code) : a = b := by
  cases a <;> cases b <;> first | rfl | exact absurd h (by decide)

theorem failureTag_inj {own : UInt32} {a b : Reason} :
    failureTag own a = failureTag own b ↔ a = b := by
  constructor
  · intro h
    exact Reason.code_inj (LargeCommunity.mk.inj h).2.2
  · exact congrArg _

theorem failureTag_ne_relationTag (own : UInt32) (reason : Reason) (x : Relation) :
    failureTag own reason ≠ relationTag own x := by
  intro h
  exact absurd (LargeCommunity.mk.inj h).2.1 (by decide)

theorem Reason.mem_given {a b : Reason} {holds : Bool} :
    a ∈ b.given holds ↔ a = b ∧ holds = true := by
  cases holds <;> simp [Reason.given]

theorem given_and (reason : Reason) (a b : Bool) :
    reason.given (a && b) = if a then reason.given b else [] := by
  cases a <;> rfl

theorem Route.mem_fail {own : UInt32} {reasons : List Reason} {r : Route} {c : LargeCommunity} :
    c ∈ (r.fail own reasons).large ↔ (∃ x ∈ reasons, failureTag own x = c) ∨ c ∈ r.large := by
  rw [Route.fail, Route.mem_mark, List.mem_map]

namespace Policy
variable {own : UInt32} {p : Policy} {f : Family} {r : Route} {c : LargeCommunity}

theorem mem_admitted :
    c ∈ (p.admitted own r).large ↔
      (∃ x, p.role.relation = some x ∧ c = relationTag own x) ∨
        c ∈ r.large ∧ p.role.stripping.keeps own c = true := by
  rw [admitted, Route.mem_mark, Route.strip, List.mem_filter]
  cases p.role.relation <;> simp

theorem mem_judged :
    c ∈ (p.judged own f r).large ↔
      (∃ x ∈ p.failures own f (p.admitted own r), failureTag own x = c) ∨
        c ∈ (p.admitted own r).large :=
  Route.mem_fail

theorem mem_received :
    c ∈ (p.received own f r).large ↔
      c ∈ p.incoming ∨
        (evaluateRules own p.inbound (p.judged own f r)).1 = false ∧
          c = failureTag own .customAction ∨
        c ∈ (evaluateRules own p.inbound (p.judged own f r)).2.large := by
  rw [received, Route.mem_mark]
  cases (evaluateRules own p.inbound (p.judged own f r)).1 <;> simp [Route.mem_fail, eq_comm]

/-- Receiving keeps what the filters for other peers go by besides communities. -/
theorem received_frame :
    (p.received own f r).net = r.net ∧ (p.received own f r).origin = r.origin ∧
      (p.received own f r).protocol = r.protocol := by
  have rules := @evaluateRules_frame own p.inbound (p.judged own f r)
  rw [received]
  cases (evaluateRules own p.inbound (p.judged own f r)).1 <;> exact rules

end Policy
end Peering
