import Peering.Filter.Shared
import Peering.Filter.Rules
import Peering.Policy

/-!
The filters of a peer. Receiving only tags: a route that fails a check gets a tag with the reason and
stays visible in the table of the peer. The filter to the main table lets untagged routes through,
and the filter back to the peer decides what is exported.
-/
namespace Peering.Filter
open Command

def addLarge (c : LargeCommunity) : Command := add (.large c)

def isDefault (f : Family) : Test := .netIs (.everything f)

def tagWith (t : Tagger) (r : Reason) : Except Error Command := do return addLarge (← t.filtered r)

def tagWhen (t : Tagger) (test : Test) (r : Reason) : Except Error Command := do
  return when test [← tagWith t r]

def callShared (f : SharedFunction) : Test := .shared f none

/-- One command, where there is something to be done. -/
def given {α : Type} (o : Option α) (make : α → Except Error Command) :
    Except Error (List Command) :=
  match o with
  | some a => do return [← make a]
  | none => .ok []

/-- Commands that stand only under a condition. -/
def provided (b : Bool) (make : Except Error (List Command)) : Except Error (List Command) :=
  if b then make else .ok []

/-- Takes off the tags that the sender may not set. -/
def stripTags (t : Tagger) : Stripping → Except Error (List Command)
  | .all => do return [comment "Remove our own communities", strip [← t.anyPattern]]
  | .exceptActions => do
    return [comment "Remove our own communities, except actions", strip (← t.internalPatterns)]
  | .nothing => .ok []

def prefixChecks (t : Tagger) (f : Family) : Except Error (List Command) :=
  [(SharedFunction.isBogon f, Reason.bogon), (.tooLong f, .prefixTooLong),
    (.tooShort f, .prefixTooShort)].mapM fun (h, r) => tagWhen t (callShared h) r

def pathChecks (t : Tagger) : Except Error (List Command) :=
  [(SharedFunction.hasBogonAsn, Reason.bogonAsn), (.pathTooLong, .asPathTooLong),
    (.pathTooShort, .asPathTooShort)].mapM fun (h, r) => tagWhen t (callShared h) r

/-- Checks that only routes from outside go through. A default route that is welcome is not held
against the limits of prefixes. -/
def sanityChecks (t : Tagger) (p : Policy) (f : Family) : Except Error (List Command) := do
  let ofNet ← prefixChecks t f
  let ofPath ← pathChecks t
  let firstAs ← provided p.role.checksFirstAs do
    return [← tagWhen t (.firstAsnIsNot p.asn) .firstAsMismatch]
  let nextHop ← provided p.role.checksNextHop <|
    given (p.neighbor f) fun a => tagWhen t (.nextHopIsNot a) .nexthopMismatch
  let transitFree ← provided p.role.checksTransitFree do
    return [← tagWhen t (callShared .hasTransitFreeAsn) .transitFreeAsn]
  let tooMany ← tagWhen t (callShared .tooManyCommunities) .tooManyCommunities
  return comment "Sanity checks" ::
    (if p.acceptDefault then [when (.not (isDefault f)) ofNet] else ofNet) ++ ofPath ++ firstAs ++
      nextHop ++ transitFree ++ [tooMany]

/-- Only listed origins and networks pass. Where networks are listed for the other family alone,
none of this one does. -/
def allowChecks (t : Tagger) (p : Policy) (f : Family) : Except Error (List Command) := do
  let origin ← provided (!p.asnGroups.isEmpty) do
    return [← tagWhen t (.not (.originAsnIn (.named (.peerAsns p.name)))) .originFiltered]
  let nets ←
    if !(p.groups f).isEmpty then do
      pure [← tagWhen t (.not (.netIn (.named (.peerNets p.name f)))) .prefixFiltered]
    else provided (Family.all.any fun g => !(p.groups g).isEmpty) do
      return [← tagWith t .prefixFiltered]
  return comment "Allowed origins and prefixes" :: origin ++ nets

def rulesOf (p : Policy) (d : Settings.Direction) : RuleFunction := .every (ruleBase p.name d)

/-- Everything up to the rules of the peer. -/
def baseline (t : Tagger) (p : Policy) (f : Family) : Except Error (List Command) := do
  let stripped ← stripTags t p.role.stripping
  let relation ← given p.role.relation fun r => do return addLarge (← t.relation r)
  let localPref := (p.localPref.map setLocalPref).toList
  let default ← provided (!p.acceptDefault) do
    return [comment "Default route", ← tagWhen t (isDefault f) .defaultNotAllowed]
  let collector ← provided (p.role = .routeCollector) do
    return [comment "Nothing from a route collector is used", ← tagWith t .routecollector]
  let sanity ← provided p.role.isExternal (sanityChecks t p f)
  let allowed ← provided p.isRestricted (allowChecks t p f)
  let quarantine ← provided p.quarantine do
    return [comment "Quarantined", ← tagWith t .quarantined]
  return stripped ++ relation ++ localPref ++ default ++ collector ++ sanity ++ allowed ++
    quarantine

def receive (t : Tagger) (p : Policy) (f : Family) : Except Error (List Command) := do
  let base ← baseline t p f
  let rules ← provided (!p.inbound.isEmpty) do
    return [consult (rulesOf p .inbound) [← tagWith t .customAction]]
  return base ++ rules ++ p.incoming.map addLarge ++ [accept]

def toMain (t : Tagger) : Except Error (List Command) := do
  return [when (.largeMatches [← t.kindPattern .filtered .any]) [reject], accept]

/-- Whether a route belongs to a source. -/
def provenance (t : Tagger) (p : Policy) (f : Family) : Source → Except Error Test
  | .connected => .ok (.sourceIs .device)
  | .kernel => .ok (.sourceIs .inherit)
  | .static => .ok (.every [.sourceIs .static, .protocolIsNot (.originate f)])
  | .originated => .ok (.protocolIs (.originate f))
  | .bgp => .ok (.sourceIs .bgp)
  | .default => .ok (isDefault f)
  | source => do
    let patterns ← source.relations.mapM fun r => t.kindPattern .relation (.exactly r.code)
    return .every [.sourceIs .bgp, .largeMatches patterns, .shared (.canExport f) (some p.asn)]

/-- The tags that forbid the export to this peer, by its ASN and by what it is to us. -/
def exportBans (t : Tagger) (p : Policy) : Except Error (List Command) := do
  let targets := p.asn :: (p.role.audience.map Audience.code).toList
  let bans ← targets.mapM fun n => do
    let own ← t.own
    return when (.carries own TagKind.noExport.code (.number n)) [reject]
  return comment "Do not export when asked not to" :: bans

def redistribute (t : Tagger) (p : Policy) (f : Family) (s : Source) :
    Except Error (List Command) := do
  let test ← provenance t p f s
  return [comment s!"Redistribute {s.name}",
    when test ((p.redistribution.tags s).map addLarge ++ [setDecided true])]

/-- A default route needs leave of its own besides a source that covers it. -/
def defaultExport (p : Policy) (f : Family) : List Command :=
  if p.redistribution.enabled .default then
    let tags := (p.redistribution.tags .default).map addLarge
    when (.every [isDefault f, .undecided]) [reject] ::
      if tags.isEmpty then [] else [when (isDefault f) tags]
  else [when (isDefault f) [reject]]

/-- The tags that mean something inside our network only. -/
def internalTags (t : Tagger) : Except Error (List LargePattern) := do
  let relation ← t.kindPattern .relation .any
  let actions ← t.actionPattern
  let filtered ← t.kindPattern .filtered .any
  return [relation, actions, filtered]

def deliver (t : Tagger) (p : Policy) : Except Error (List Command) := do
  let rules := if p.outbound.isEmpty then [] else [consult (rulesOf p .outbound) [reject]]
  let external ← provided p.role.isExternal do
    return [run .exportPrepend p.asn, strip (← internalTags t)]
  return rules ++ p.outgoing.map addLarge ++ external ++ [accept]

def toPeer (t : Tagger) (p : Policy) (f : Family) : Except Error (List Command) := do
  let bans ← provided p.role.isExternal (exportBans t p)
  let sources ← (p.redistribution.sources.filter (· ≠ .default)).mapM (redistribute t p f)
  let granted ← deliver t p
  return setDecided false :: bans ++ sources.flatten ++
    comment "Default route" :: defaultExport p f ++ [when .decided granted, reject]

def body (t : Tagger) (p : Policy) (f : Family) : Stage → Except Error (List Command)
  | .receive => receive t p f
  | .toMain => toMain t
  | .toPeer => toPeer t p f

def ofPeer (t : Tagger) (p : Policy) (f : Family) (s : Stage) : Except Error Program := do
  return ⟨.peer f p.name s, s = .toPeer, ← body t p f s⟩

/-- The rule functions of a peer, those for received routes first. -/
def rulesOfPeer (p : Policy) : List Function :=
  ruleFunctions (ruleBase p.name .inbound) p.inbound ++
    ruleFunctions (ruleBase p.name .outbound) p.outbound

end Peering.Filter
