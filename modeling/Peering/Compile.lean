import Peering.Filter.Programs
import Peering.Policy.Resolve
import Peering.Settings.Codec
import Peering.Wiring

/-!
From settings to a router configuration. `Router.resolve` does all the checking; what comes after it
depends on nothing but its result.
-/
namespace Peering

structure Router where
  asn : UInt32
  routerId : Option Address4
  fromMaster : Settings.Import
  originate : List Network
  /-- In the order of their names. -/
  peers : List Policy

namespace Router

def readOriginate (s : String) : Except Error Network :=
  match Network.parse? s.toList with
  | none => .error (.configuration "originate" (.badOriginate s))
  | some n =>
    if n.truncate = n then .ok n else .error (.configuration "originate" (.originateHostBits s n))

def context (s : Settings.Router) : Context := ⟨s.asn, s.clusterId, s.fromMaster⟩

def resolve (s : Settings.Router) (reg : Registry) : Except Error Router := do
  if s.asn = 0 then throw (.configuration "asn" .reservedAsn)
  let originate ← s.originate.mapM readOriginate
  let peers ← s.peers.mapM fun (name, peer) => Policy.resolve (context s) reg name peer
  return ⟨s.asn, s.routerId, s.fromMaster, originate, peers⟩

def peer? (r : Router) (name : String) : Option Policy := r.peers.find? fun p => p.name = name

def constants (asn : UInt32) : List Declaration :=
  (Constant.all.map fun c => .constant c (c.bound.getD asn.toNat)) ++ globalLists.map .list

/-- The lists of a peer that have items. -/
def peerLists (p : Policy) : List Declaration :=
  let asns : NamedList := ⟨(ListName.peerAsns p.name).name, p.asnGroups.map (·.map Filter.asnText)⟩
  let nets f : NamedList :=
    ⟨(ListName.peerNets p.name f).name, (p.groups f).map (·.map Pattern.text)⟩
  ((asns :: Family.all.map nets).filter fun l => !l.isEmpty).map .list

def familyBlock (r : Router) (t : Tagger) (p : Policy) (f : Family) :
    Except Error (List Declaration) := do
  let filters ← Stage.all.mapM (Filter.ofPeer t p f)
  return filters.map .filter ++ .pipe (Wiring.peerPipe p f) ::
    ((Wiring.session? p f r.asn).map .session).toList

def peerBlock (r : Router) (t : Tagger) (p : Policy) : Except Error (List Declaration) := do
  let families ← p.families.mapM (familyBlock r t p)
  return .comment s!"Peer {p.name}: AS{p.asn.toNat} ({p.role.name})" ::
    (Filter.rulesOfPeer p).map .function ++ families.flatten ++ [.blank]

def declarations (r : Router) : Except Error (List Declaration) := do
  let t : Tagger := ⟨some r.asn⟩
  let shared ← Filter.sharedFunctions t
  let peers ← r.peers.mapM (peerBlock r t)
  let families := Family.all.map fun f =>
    Wiring.tables f r.peers ++ Wiring.originate f r.originate ++ Wiring.master f r.fromMaster ++
      [.blank]
  return .comment s!"BGP policy for AS{r.asn.toNat}, generated by bgp_policy. Do not edit." ::
    .blank :: (r.routerId.map fun a => [.routerId a, .blank]).getD [] ++
    constants r.asn ++ r.peers.flatMap peerLists ++ [.blank] ++
    shared.map .function ++ [.blank] ++ families.flatten ++ peers.flatten

def compile (r : Router) : Except Error String := return Declaration.render (← r.declarations)

end Router

/-- Reads a document; a problem with it is reported at `key`. -/
def readDocument {α : Type} (c : Document.Codec α) (key : String) (bs : List Document.Byte) :
    Except Error α :=
  (c.read bs).mapError fun p => .configuration key (.document p)

def readSettings : List Document.Byte → Except Error Settings.Router :=
  readDocument Settings.routerRecord.codec "config"

def readRegistry : List Document.Byte → Except Error Registry :=
  readDocument Registry.codec "lookup"

/-- The router of two documents. The settings are read first. -/
def readRouter (settings registry : List Document.Byte) : Except Error Router := do
  let s ← readSettings settings
  let reg ← readRegistry registry
  Router.resolve s reg

def compile (settings registry : List Document.Byte) : Except Error String := do
  (← readRouter settings registry).compile

end Peering
