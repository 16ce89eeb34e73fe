import Peering.Document.Record
import Peering.Settings

/-! The documents that hold settings. -/
namespace Peering.Settings
open Document

def importRecord : Record Import where
  name := "ImportSettings"
  fields := [.orElse "connected" .bool false, .orElse "kernel" .bool false,
    .orElse "static" .bool false]
  lenient := false
  build := fun (a, b, c, ()) => ⟨a, b, c⟩
  parts s := (s.connected, s.kernel, s.static, ())

def taggedRecord : Record (List String) where
  name := "TaggedRedistribute"
  fields := [.orElse "large_communities" (.list .string) []]
  lenient := false
  build := fun (a, ()) => a
  parts s := (s, ())

/-- A flag, or an object; no other form of the object is taken here. -/
def redistributeCodec : Codec Redistribute where
  decode depth v :=
    match v with
    | .bool b => .ok (.flag b)
    | .object members ending => (taggedRecord.ofMembers depth members ending).map .tagged
    | v => .error (v.unexpected "a boolean or an object with large_communities")
  encode
    | .flag b => Codec.bool.encode b
    | .tagged cs => taggedRecord.codec.encode cs

def redistributeRecord : Record RedistributeSet where
  name := "RedistributeSettings"
  fields := [.maybe "default" redistributeCodec, .maybe "connected" redistributeCodec,
    .maybe "kernel" redistributeCodec, .maybe "static" redistributeCodec,
    .maybe "originated" redistributeCodec, .maybe "bgp" redistributeCodec,
    .maybe "bgp_own" redistributeCodec, .maybe "bgp_customer" redistributeCodec,
    .maybe "bgp_peering" redistributeCodec, .maybe "bgp_transit" redistributeCodec]
  lenient := false
  build := fun (a, b, c, d, e, f, g, h, i, j, ()) => ⟨a, b, c, d, e, f, g, h, i, j⟩
  parts s := (s.default, s.connected, s.kernel, s.static, s.originated, s.bgp, s.bgpOwn,
    s.bgpCustomer, s.bgpPeering, s.bgpTransit, ())

def acceptRecord : Record Accept where
  name := "AcceptSettings"
  fields := [.maybe "default" .bool]
  lenient := false
  build := fun (a, ()) => ⟨a⟩
  parts s := (s.default, ())

def allowRecord : Record Allow where
  name := "FilterSettings"
  fields := [.orElse "asns" (.list .u32) [], .orElse "prefixes" (.list .string) [],
    .orElse "as-set" (.list .string) []]
  lenient := false
  build := fun (a, b, c, ()) => ⟨a, b, c⟩
  parts s := (s.asns, s.patterns, s.asSets, ())

def directionCodec : Codec Direction :=
  .variant [("import", .inbound), ("export", .outbound)] Direction.name

def roleCodec : Codec Role := .variant (Role.all.map fun r => (r.name, r)) Role.name

def noChoice : Problem := .noMatch "MatchList"

/-- A list of values, or an object that has such a list under `not`. The whole value is read before
its form is looked at; a form that does not fit is not told apart further. -/
def choiceCodec {α : Type} (c : Codec α) : Codec (Choice α) where
  decode depth v := do
    v.survey depth
    match v with
    | .list _ _ =>
      match (Codec.list c).decode depth v with
      | .ok vs => return .among vs
      | .error _ => throw noChoice
    | .object members _ =>
      match members.filter fun (k, _) => k.read.toOption = some "not" with
      | [(_, v)] =>
        match (Codec.list c).decode depth v with
        | .ok vs => return .outside vs
        | .error _ => throw noChoice
      | _ => throw noChoice
    | _ => throw noChoice
  encode
    | .among vs => (Codec.list c).encode vs
    | .outside vs => .object [(.ofText "not", (Codec.list c).encode vs)] .closed

def matchRecord : Record Match where
  name := "FilterMatcher"
  fields := [.maybe "origin_asn" (choiceCodec .u32), .maybe "prefix" (choiceCodec .string),
    .maybe "community" (choiceCodec .string), .maybe "extended_community" (choiceCodec .string),
    .maybe "large_community" (choiceCodec .string)]
  lenient := false
  build := fun (a, b, c, d, e, ()) => ⟨a, b, c, d, e⟩
  parts s := (s.originAsn, s.net, s.community, s.extendedCommunity, s.largeCommunity, ())

def editRecord : Record Edit where
  name := "CommunityUpdate"
  fields := [.orElse "add" (.list .string) [], .orElse "remove" (.list .string) []]
  lenient := false
  build := fun (a, b, ()) => ⟨a, b⟩
  parts s := (s.add, s.remove, ())

def updateRecord : Record Update where
  name := "UpdateAction"
  fields := [.maybe "community" editRecord.codec, .maybe "extended_community" editRecord.codec,
    .maybe "large_community" editRecord.codec, .maybe "prepend" .u32]
  lenient := false
  build := fun (a, b, c, d, ()) => ⟨a, b, c, d⟩
  parts s := (s.community, s.extendedCommunity, s.largeCommunity, s.prepend, ())

/-- The word `reject`, or an object of updates; no other form of the object is taken here. -/
def actionCodec : Codec Action where
  decode depth v :=
    match v with
    | .text q => do
      let s ← q.read
      if s = "reject" then return .reject else throw (.unknownVariant s ["reject"])
    | .object members ending => (updateRecord.ofMembers depth members ending).map .update
    | v => .error (v.unexpected "\"reject\" or an update object")
  encode
    | .reject => Codec.string.encode "reject"
    | .update u => updateRecord.codec.encode u

def ruleRecord : Record Rule where
  name := "RuleConfig"
  fields := [.orElse "direction" directionCodec .inbound,
    .orElse "matches" matchRecord.codec .everything, .needed "action" actionCodec]
  lenient := false
  build := fun (a, b, c, ()) => ⟨a, b, c⟩
  parts s := (s.direction, s.condition, s.action, ())

def peerRecord : Record Peer where
  name := "PeerConfig"
  fields := [.needed "type" roleCodec, .needed "asn" .u32, .maybe "description" .string,
    .maybe "neighbor4" .address4, .maybe "source_address4" .address4,
    .maybe "neighbor6" .address6, .maybe "source_address6" .address6,
    .orElse "cost" .u32 0, .maybe "prefix_limit4" .u32, .maybe "prefix_limit6" .u32,
    .orElse "passive" .bool false,
    .orElse "redistribute" redistributeRecord.codec .unset,
    .orElse "accept" acceptRecord.codec ⟨none⟩,
    .orElse "filter" allowRecord.codec .nothing,
    .orElse "incoming-large-communities" (.list .string) [],
    .orElse "outgoing-large-communities" (.list .string) [],
    .orElse "quarantine" .bool false,
    .orElse "actions" (.list ruleRecord.codec) []]
  lenient := false
  build := fun (a, b, c, d, e, f, g, h, i, j, k, l, m, n, o, p, q, r, ()) =>
    ⟨a, b, c, d, e, f, g, h, i, j, k, l, m, n, o, p, q, r⟩
  parts s := (s.role, s.asn, s.description, s.neighbor4, s.source4, s.neighbor6, s.source6,
    s.cost, s.limit4, s.limit6, s.passive, s.redistribute, s.accept, s.allow, s.incoming,
    s.outgoing, s.quarantine, s.rules, ())

def routerRecord : Record Router where
  name := "RouterConfig"
  fields := [.needed "asn" .u32, .maybe "router_id" .address4, .maybe "cluster_id" .address4,
    .orElse "import" importRecord.codec .off, .orElse "originate" (.list .string) [],
    .orElse "peers" (.textMap peerRecord.codec) []]
  lenient := false
  build := fun (a, b, c, d, e, f, ()) => ⟨a, b, c, d, e, f⟩
  parts s := (s.asn, s.routerId, s.clusterId, s.fromMaster, s.originate, s.peers, ())

end Peering.Settings
