import Peering.Community.Tag

/-! What a peer is to us. The role decides what is believed, what is sent and what is checked. -/
namespace Peering

inductive Role where
  | customer | peer | transit | routeServer | routeCollector
  /-- A client of our route reflector, a reflector we are a client of, and a reflector beside us. -/
  | reflectorClient | reflectorServer | reflectorPeer
  deriving DecidableEq, Repr

/-- Which of our own communities are removed from received routes. -/
inductive Stripping where
  | all
  /-- All but the actions that a customer may ask for. -/
  | exceptActions
  | nothing
  deriving DecidableEq, Repr

namespace Role

def all : List Role :=
  [.customer, .peer, .transit, .routeServer, .routeCollector, .reflectorClient, .reflectorServer,
    .reflectorPeer]

def name : Role → String
  | .customer => "customer"
  | .peer => "peer"
  | .transit => "transit"
  | .routeServer => "routeserver"
  | .routeCollector => "routecollector"
  | .reflectorClient => "rrclient"
  | .reflectorServer => "rrserver"
  | .reflectorPeer => "rrserver-rrserver"

/-- Reflector sessions stay inside our own network. -/
def isReflector : Role → Bool
  | .reflectorClient | .reflectorServer | .reflectorPeer => true
  | _ => false

def isExternal (r : Role) : Bool := !r.isReflector

def needsClusterId : Role → Bool
  | .reflectorClient | .reflectorPeer => true
  | _ => false

def relation : Role → Option Relation
  | .customer => some .customer
  | .peer => some .peer
  | .transit => some .transit
  | .routeServer => some .routeServer
  | _ => none

def mayAcceptDefault (r : Role) : Bool := r.isReflector

def mayRedistributeDefault (r : Role) : Bool := r = .customer || r.isReflector

/-- Whether limits that are not configured come from the registry. -/
def hasRegistryLimits : Role → Bool
  | .customer | .peer => true
  | _ => false

def stripping : Role → Stripping
  | .customer => .exceptActions
  | r => if r.isReflector then .nothing else .all

def audience : Role → Option Audience
  | .customer => some .customers
  | .peer | .routeServer => some .peers
  | .transit => some .transits
  | _ => none

/-- The local preference before the cost of the peer is taken off. -/
def baseLocalPref : Role → Option UInt32
  | .customer => some 750
  | .peer => some 470
  | .routeServer => some 450
  | .transit => some 150
  | .routeCollector => some 0
  | _ => none

def checksFirstAs : Role → Bool
  | .customer | .peer | .transit | .routeCollector => true
  | _ => false

def checksNextHop : Role → Bool
  | .customer | .peer | .transit => true
  | _ => false

def checksTransitFree : Role → Bool
  | .customer | .peer => true
  | _ => false

theorem mem_all (r : Role) : r ∈ all := by cases r <;> decide

end Role
end Peering
