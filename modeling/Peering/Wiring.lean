import Peering.Declaration
import Peering.Policy

/-!
Tables and what joins them. Per family there is one main table, piped to the master table, and one
table for each peer, piped to the main one.
-/
namespace Peering.Wiring

def tables (f : Family) (peers : List Policy) : List Declaration :=
  .table (.main f) ::
    (peers.filter fun p => p.hasFamily f).map fun p => .table (.peer f p.name)

/-- The networks of the family that we originate, if there are any. -/
def originate (f : Family) (nets : List Network) : List Declaration :=
  match nets.filter fun n => n.family = f with
  | [] => []
  | nets => [.originate f nets]

def acceptFrom (o : Origin) : Filter.Command := .when (.sourceIs o) [.accept]

/-- BGP routes go to the master table. -/
def toMaster (f : Family) : Filter.Program :=
  ⟨.toMaster f, false, [acceptFrom .bgp, .reject]⟩

/-- Routes of the master table come in as far as the flags allow. -/
def fromMaster (f : Family) (i : Settings.Import) : Filter.Program where
  name := .fromMaster f
  decides := false
  body :=
    (if i.connected then [acceptFrom .device] else []) ++
      (if i.kernel then [acceptFrom .inherit] else []) ++
      (if i.static then [acceptFrom .static] else []) ++ [.reject]

def master (f : Family) (i : Settings.Import) : List Declaration :=
  [.filter (toMaster f), .filter (fromMaster f i),
    .pipe ⟨.masterPipe f, .main f, .master f, .toMaster f, .fromMaster f⟩]

def peerPipe (p : Policy) (f : Family) : Pipe where
  name := .peerPipe f p.name
  table := .peer f p.name
  other := .main f
  outward := .peer f p.name .toMain
  inward := .peer f p.name .toPeer

def session? (p : Policy) (f : Family) (localAsn : UInt32) : Option Session :=
  (p.neighbor f).map fun neighbor => {
    family := f
    peer := p.name
    description := p.description
    localAddress := p.sourceAddress f
    localAsn
    neighbor
    asn := p.asn
    passive := p.passive
    clusterId := p.clusterId
    limit := p.limit f }

end Peering.Wiring
