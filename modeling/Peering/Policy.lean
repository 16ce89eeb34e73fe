import Peering.Allowlist
import Peering.Redistribution
import Peering.Registry
import Peering.Rule

/-! The policy of one peer, with everything that its settings leave to its role filled in. -/
namespace Peering

/-- What the router as a whole contributes to every policy. -/
structure Context where
  asn : UInt32
  clusterId : Option Address4
  fromMaster : Settings.Import
  deriving DecidableEq, Repr

structure Policy where
  name : String
  role : Role
  asn : UInt32
  description : String
  neighbor4 : Option Address4
  source4 : Option Address4
  neighbor6 : Option Address6
  source6 : Option Address6
  passive : Bool
  localPref : Option UInt32
  redistribution : Redistribution
  acceptDefault : Bool
  limit4 : Option UInt32
  limit6 : Option UInt32
  clusterId : Option Address4
  asnGroups : List (Group UInt32)
  groups4 : List (Group Pattern)
  groups6 : List (Group Pattern)
  incoming : List LargeCommunity
  outgoing : List LargeCommunity
  quarantine : Bool
  inbound : List Rule
  outbound : List Rule

namespace Policy

def neighbor (p : Policy) : Family → Option Address
  | .v4 => p.neighbor4.map .v4
  | .v6 => p.neighbor6.map .v6

def sourceAddress (p : Policy) : Family → Option Address
  | .v4 => p.source4.map .v4
  | .v6 => p.source6.map .v6

def limit (p : Policy) : Family → Option UInt32
  | .v4 => p.limit4
  | .v6 => p.limit6

def groups (p : Policy) : Family → List (Group Pattern)
  | .v4 => p.groups4
  | .v6 => p.groups6

def hasFamily (p : Policy) (f : Family) : Bool := (p.neighbor f).isSome

def families (p : Policy) : List Family := Family.all.filter p.hasFamily

def rules (p : Policy) : Settings.Direction → List Rule
  | .inbound => p.inbound
  | .outbound => p.outbound

/-- Whether the peer may announce only what is listed. -/
def isRestricted (p : Policy) : Bool :=
  !p.asnGroups.isEmpty || !p.groups4.isEmpty || !p.groups6.isEmpty

end Policy
end Peering
