import Peering.Proofs.Judgement

/-!
What is offered to a peer, said without filters: a route that is not banned, that an enabled source
covers as it was received, and that the rules of the peer let through.
-/
namespace Peering

/-- Large communities that mean something inside our network only. -/
def LargeCommunity.isInternal (own : UInt32) (c : LargeCommunity) : Bool :=
  own == c.admin && (TagKind.relation.code == c.function ||
    (TagKind.firstAction ≤ c.function && c.function ≤ TagKind.lastAction) ||
    TagKind.filtered.code == c.function)

namespace Source

/-- The codes of the relations that the source stands for. -/
def codes : Source → List UInt32
  | .bgpOwn => [1]
  | .bgpCustomer => [2]
  | .bgpPeering => [3, 5]
  | .bgpTransit => [4]
  | _ => []

def isTagged (own : UInt32) (s : Source) (r : Route) : Bool :=
  s.codes.any fun n => r.large.contains ⟨own, 3, n⟩

theorem isTagged_eq (own : UInt32) (s : Source) (r : Route) :
    s.isTagged own r = s.relations.any fun x => r.large.contains (relationTag own x) := by
  cases s <;> rfl

end Source

namespace Policy
variable (own : UInt32) (p : Policy) (f : Family)

def covers : Source → Route → Bool
  | .connected, r => r.origin = .device
  | .kernel, r => r.origin = .inherit
  | .static, r => r.origin = .static && r.protocol ≠ (Protocol.originate f).name
  | .originated, r => r.protocol = (Protocol.originate f).name
  | .bgp, r => r.origin = .bgp
  | .default, r => r.isDefault f
  | s, r => r.origin = .bgp && s.isTagged own r && r.mayBeSent own f p.asn

theorem covers_of_relations {s : Source} (hs : s.relations ≠ []) (r : Route) :
    p.covers own f s r =
      (decide (r.origin = .bgp) && s.isTagged own r && r.mayBeSent own f p.asn) := by
  cases s with
  | default | connected | kernel | static | originated | bgp => exact absurd rfl hs
  | bgpOwn | bgpCustomer | bgpPeering | bgpTransit => rfl

def coveringSources : List Source := p.redistribution.sources.filter (· ≠ .default)

/-- The codes under which a route can be kept from the peer: its ASN, and what it is to us. -/
def bans : List UInt32 :=
  match p.role with
  | .customer => [p.asn, 65412]
  | .peer | .routeServer => [p.asn, 65413]
  | .transit => [p.asn, 65414]
  | _ => [p.asn]

theorem bans_eq : p.bans = p.asn :: (p.role.audience.map Audience.code).toList := by
  unfold bans
  cases p.role <;> rfl

def isBanned (r : Route) : Bool :=
  p.role.isExternal && p.bans.any fun n => r.large.contains ⟨own, TagKind.noExport.code, n⟩

def tagAll : List Source → Route → Route
  | [], r => r
  | s :: ss, r => tagAll ss (if p.covers own f s r then r.mark (p.redistribution.tags s) else r)

theorem isDefault_tagAll (ss : List Source) (r : Route) :
    (p.tagAll own f ss r).isDefault f = r.isDefault f := by
  induction ss generalizing r with
  | nil => rfl
  | cons s ss ih =>
    rw [tagAll, ih]
    split <;> rfl

def tagDefault (r : Route) : Route :=
  if p.redistribution.enabled .default && r.isDefault f then
    r.mark (p.redistribution.tags .default)
  else r

/-- The route as it meets the rules of the peer. -/
def tagged (r : Route) : Route := p.tagDefault f (p.tagAll own f p.coveringSources r)

def exports (r : Route) : Bool :=
  !p.isBanned own r && p.coveringSources.any (fun s => p.covers own f s r) &&
    (!r.isDefault f || p.redistribution.enabled .default) &&
    (evaluateRules own p.outbound (p.tagged own f r)).1

theorem exports_iff {own : UInt32} {p : Policy} {f : Family} {r : Route} :
    p.exports own f r = true ↔
      (p.role.isExternal = true → ∀ n ∈ p.bans, ⟨own, TagKind.noExport.code, n⟩ ∉ r.large) ∧
      (∃ s, s ≠ .default ∧ p.redistribution.enabled s = true ∧ p.covers own f s r = true) ∧
      (r.net = .everything f → p.redistribution.enabled .default = true) ∧
      (evaluateRules own p.outbound (p.tagged own f r)).1 = true := by
  have banned : (!p.isBanned own r) = true ↔
      (p.role.isExternal = true → ∀ n ∈ p.bans, ⟨own, TagKind.noExport.code, n⟩ ∉ r.large) := by
    rw [Policy.isBanned]
    cases p.role.isExternal <;> simp
  have covered : (p.coveringSources.any fun s => p.covers own f s r) = true ↔
      ∃ s, s ≠ .default ∧ p.redistribution.enabled s = true ∧ p.covers own f s r = true := by
    simp [Policy.coveringSources, Redistribution.mem_sources, and_left_comm]
  have allowed : (!r.isDefault f || p.redistribution.enabled .default) = true ↔
      (r.net = .everything f → p.redistribution.enabled .default = true) := by
    by_cases hd : r.net = .everything f <;> simp [Route.isDefault, hd]
  rw [Policy.exports, Bool.and_eq_true, Bool.and_eq_true, Bool.and_eq_true, banned, covered,
    allowed, and_assoc, and_assoc]

/-- In the order of the filter: a default route is turned down before the rules are asked. -/
theorem exports_of_not_banned {own : UInt32} {p : Policy} {f : Family} {r : Route}
    (h : p.isBanned own r = false) :
    p.exports own f r =
      (!(r.isDefault f && !((p.coveringSources.any fun s => p.covers own f s r) &&
          p.redistribution.enabled .default)) &&
        ((p.coveringSources.any fun s => p.covers own f s r) &&
          (evaluateRules own p.outbound (p.tagged own f r)).1)) := by
  have reorder : ∀ a b c d : Bool,
      (!false && a && (!b || c) && d) = (!(b && !(a && c)) && (a && d)) := by decide
  rw [exports, h]
  exact reorder _ _ _ _

/-- How many prepends the first of some requests asks for. -/
def requested (own asn : UInt32) (r : Route) : List (Nat × TagKind) → Nat
  | [] => 0
  | (n, k) :: rest =>
    if r.large.contains ⟨own, k.code, asn⟩ then n else requested own asn r rest

/-- What an external peer gets to see of a route: prepends that were asked for are done, and nothing
is left that means something inside our network only. -/
def shown (r : Route) : Route :=
  { r with
    path := List.replicate (requested own p.asn r Filter.prependRequests) own ++ r.path
    large := r.large.filter fun c => !c.isInternal own }

def sent (r : Route) : Route :=
  let ruled := (evaluateRules own p.outbound r).2.mark p.outgoing
  if p.role.isExternal then p.shown own ruled else ruled

end Policy
end Peering
