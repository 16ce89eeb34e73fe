import Peering.Address
import Peering.Role

/-! What a configuration says, before it is checked. Literals are still texts. -/
namespace Peering.Settings

/-- Which routes of the master tables enter the BGP tables. -/
structure Import where
  connected : Bool
  kernel : Bool
  static : Bool
  deriving DecidableEq, Repr

def Import.off : Import := ⟨false, false, false⟩

/-- Whether a source is sent. Naming communities for its routes sends it too. -/
inductive Redistribute where
  | flag (on : Bool)
  | tagged (communities : List String)
  deriving DecidableEq, Repr

namespace Redistribute

def on : Redistribute → Bool
  | flag b => b
  | tagged _ => true

def communities : Redistribute → List String
  | flag _ => []
  | tagged cs => cs

end Redistribute

structure RedistributeSet where
  default : Option Redistribute
  connected : Option Redistribute
  kernel : Option Redistribute
  static : Option Redistribute
  originated : Option Redistribute
  bgp : Option Redistribute
  bgpOwn : Option Redistribute
  bgpCustomer : Option Redistribute
  bgpPeering : Option Redistribute
  bgpTransit : Option Redistribute
  deriving DecidableEq, Repr

def RedistributeSet.unset : RedistributeSet :=
  ⟨none, none, none, none, none, none, none, none, none, none⟩

structure Accept where
  default : Option Bool
  deriving DecidableEq, Repr

/-- What a peer may announce: origins, networks of both families, and registry objects that stand
for more of both. -/
structure Allow where
  asns : List UInt32
  patterns : List String
  asSets : List String
  deriving DecidableEq, Repr

def Allow.nothing : Allow := ⟨[], [], []⟩

inductive Direction where
  /-- For routes received from the peer. -/
  | inbound
  /-- For routes sent to the peer. -/
  | outbound
  deriving DecidableEq, Repr

def Direction.name : Direction → String
  | .inbound => "import"
  | .outbound => "export"

/-- Values to match, or values none of which may match. -/
inductive Choice (α : Type) where
  | among (values : List α)
  | outside (values : List α)
  deriving DecidableEq, Repr

namespace Choice

def values {α : Type} : Choice α → List α
  | among vs => vs
  | outside vs => vs

def negated {α : Type} : Choice α → Bool
  | among _ => false
  | outside _ => true

end Choice

structure Match where
  originAsn : Option (Choice UInt32)
  net : Option (Choice String)
  community : Option (Choice String)
  extendedCommunity : Option (Choice String)
  largeCommunity : Option (Choice String)
  deriving DecidableEq, Repr

def Match.everything : Match := ⟨none, none, none, none, none⟩

structure Edit where
  add : List String
  remove : List String
  deriving DecidableEq, Repr

structure Update where
  community : Option Edit
  extendedCommunity : Option Edit
  largeCommunity : Option Edit
  prepend : Option UInt32
  deriving DecidableEq, Repr

inductive Action where
  | reject
  | update (u : Update)
  deriving DecidableEq, Repr

structure Rule where
  direction : Direction
  condition : Match
  action : Action
  deriving DecidableEq, Repr

structure Peer where
  role : Role
  asn : UInt32
  description : Option String
  neighbor4 : Option Address4
  source4 : Option Address4
  neighbor6 : Option Address6
  source6 : Option Address6
  /-- Taken off the local preference of routes from this peer. -/
  cost : UInt32
  limit4 : Option UInt32
  limit6 : Option UInt32
  passive : Bool
  redistribute : RedistributeSet
  accept : Accept
  allow : Allow
  incoming : List String
  outgoing : List String
  quarantine : Bool
  rules : List Rule
  deriving DecidableEq, Repr

structure Router where
  asn : UInt32
  routerId : Option Address4
  clusterId : Option Address4
  fromMaster : Import
  originate : List String
  /-- In the order of their names. -/
  peers : List (String × Peer)
  deriving DecidableEq, Repr

end Peering.Settings
