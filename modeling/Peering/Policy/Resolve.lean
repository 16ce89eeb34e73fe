import Peering.Policy

/-!
From the settings of a peer to its policy. The checks run one after the other, and the first that
fails is reported.
-/
namespace Peering.Policy
open Settings (RedistributeSet)

/-- Lower case letters, digits and underscores, and at least one of them. -/
def validName (s : String) : Bool :=
  s ≠ "" && s.toList.all fun c => c.isLower || c.isDigit || c = '_'

/-- Fails at `key` unless the condition holds. -/
def require (holds : Bool) (key : String) (cause : Cause) : Except Error Unit :=
  if holds then .ok () else .error (.configuration key cause)

/-- What the settings say about a source. -/
def setting (s : RedistributeSet) : Source → Option Settings.Redistribute
  | .default => s.default
  | .connected => s.connected
  | .kernel => s.kernel
  | .static => s.static
  | .originated => s.originated
  | .bgp => s.bgp
  | .bgpOwn => s.bgpOwn
  | .bgpCustomer => s.bgpCustomer
  | .bgpPeering => s.bgpPeering
  | .bgpTransit => s.bgpTransit

/-- The flag that has to be on before routes of the source are in the BGP tables at all. -/
def importFlag (i : Settings.Import) : Source → Option (String × Bool)
  | .connected => some ("import.connected", i.connected)
  | .kernel => some ("import.kernel", i.kernel)
  | .static => some ("import.static", i.static)
  | _ => none

def checkSession (ctx : Context) (name key : String) (s : Settings.Peer) : Except Error Unit := do
  require (validName name) key .badPeerName
  require (s.neighbor4.isSome || s.neighbor6.isSome) s!"{key}.neighbor4" .noNeighbor
  require (s.role.isReflector == (s.asn == ctx.asn)) s!"{key}.asn"
    (if s.role.isReflector then .reflectorAsn ctx.asn else .foreignAsn s.role ctx.asn)
  require (!s.role.needsClusterId || ctx.clusterId.isSome) "cluster_id" (.noClusterId name s.role)
  require (!s.accept.default.getD false || s.role.mayAcceptDefault) s!"{key}.accept.default"
    (.acceptedDefault s.role)

/-- Takes the setting of one source over. -/
def redistributeFrom (ctx : Context) (role : Role) (key : String) (set : RedistributeSet)
    (r : Redistribution) (source : Source) : Except Error Redistribution :=
  match setting set source with
  | none => .ok r
  | some value => do
    let key := s!"{key}.redistribute.{source.name}"
    if value.on then
      match importFlag ctx.fromMaster source with
      | some (flag, on) => require on key (.importOff flag)
      | none => pure ()
      require (source ≠ .default || role.mayRedistributeDefault) key (.redistributedDefault role)
    let tags ← readLiterals s!"{key}.large_communities" value.communities
    return r.override source value.on tags

def redistributionOf (ctx : Context) (key : String) (s : Settings.Peer) :
    Except Error Redistribution :=
  Source.all.foldlM (redistributeFrom ctx s.role key s.redistribute) (.ofRole s.role)

/-- Limits that are configured stand. The others are those of the registry, for roles that have
such. -/
def limits (reg : Registry) (s : Settings.Peer) : Option UInt32 × Option UInt32 :=
  if s.role.hasRegistryLimits then
    let counts := (reg.countsOf s.asn).getD .unknown
    (s.limit4.or counts.count4, s.limit6.or counts.count6)
  else (s.limit4, s.limit6)

/-- What a peer may announce, as groups of ASNs and of patterns. -/
structure Allowed where
  asns : List (Group UInt32)
  nets4 : List (Group Pattern)
  nets6 : List (Group Pattern)

namespace Allowed

/-- The groups of one origin. Patterns may be listed in any order and under either family. -/
def ofLists (object : Option String) (asns : List UInt32) (patterns : List Pattern) : Allowed :=
  let patterns := canonical Pattern.le patterns
  { asns := Group.ofItems object (canonical (fun a b => decide (a ≤ b)) asns)
    nets4 := Group.ofItems object (patterns.filter fun p => p.family = .v4)
    nets6 := Group.ofItems object (patterns.filter fun p => p.family = .v6) }

def append (a b : Allowed) : Allowed := ⟨a.asns ++ b.asns, a.nets4 ++ b.nets4, a.nets6 ++ b.nets6⟩

def ofObject (reg : Registry) (key name : String) : Except Error Allowed :=
  match reg.object name with
  | none => .error (.configuration s!"{key}.as-set" (.unresolved name))
  | some o => do
    let patterns ← readLiterals s!"{key}.as-set.{name}" (o.ipv4 ++ o.ipv6)
    return ofLists (some name) o.asns patterns

/-- The groups of the settings themselves come first, then those of each object. -/
def resolve (reg : Registry) (key : String) (s : Settings.Allow) : Except Error Allowed := do
  let patterns ← readLiterals s!"{key}.prefixes" s.patterns
  s.asSets.foldlM (fun a name => return a.append (← ofObject reg key name))
    (ofLists none s.asns patterns)

end Allowed

def rulesOf (key : String) (rules : List Settings.Rule) : Except Error (List Rule) :=
  rules.zipIdx.mapM fun (r, i) => Rule.resolve s!"{key}.actions[{i}]" r

def resolve (ctx : Context) (reg : Registry) (name : String) (s : Settings.Peer) :
    Except Error Policy := do
  let key := s!"peers.{name}"
  checkSession ctx name key s
  let redistribution ← redistributionOf ctx key s
  let allowed ← Allowed.resolve reg s!"{key}.filter" s.allow
  let rules ← rulesOf key s.rules
  let incoming ← readLiterals s!"{key}.incoming-large-communities" s.incoming
  let outgoing ← readLiterals s!"{key}.outgoing-large-communities" s.outgoing
  return {
    name
    role := s.role
    asn := s.asn
    description := s.description.getD s!"AS{s.asn.toNat} {name}"
    neighbor4 := s.neighbor4
    source4 := s.source4
    neighbor6 := s.neighbor6
    source6 := s.source6
    passive := s.passive
    localPref := s.role.baseLocalPref.map fun p => if s.cost ≤ p then p - s.cost else 0
    redistribution
    acceptDefault := s.accept.default.getD false
    limit4 := (limits reg s).1
    limit6 := (limits reg s).2
    clusterId := if s.role.needsClusterId then ctx.clusterId else none
    asnGroups := allowed.asns
    groups4 := allowed.nets4
    groups6 := allowed.nets6
    incoming
    outgoing
    quarantine := s.quarantine
    inbound := rules.filter fun r => r.direction = .inbound
    outbound := rules.filter fun r => r.direction = .outbound }

end Peering.Policy
