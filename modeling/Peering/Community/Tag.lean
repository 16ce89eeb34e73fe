import Peering.Community

/-!
The large communities that a router tags routes with: `(own ASN, kind, value)`. The codes of kinds
and values are fixed, since routes that carry them outlive a change of configuration.
-/
namespace Peering

inductive TagKind where
  | locationIso | locationUn | relation
  | prependOne | prependTwo | prependThree
  | noExport | filtered
  deriving DecidableEq, Repr

namespace TagKind

def all : List TagKind :=
  [.locationIso, .locationUn, .relation, .prependOne, .prependTwo, .prependThree, .noExport,
    .filtered]

def code : TagKind → UInt32
  | .locationIso => 1
  | .locationUn => 2
  | .relation => 3
  | .prependOne => 61
  | .prependTwo => 62
  | .prependThree => 63
  | .noExport => 70
  | .filtered => 1101

def name : TagKind → String
  | .locationIso => "LOCATION_ISO"
  | .locationUn => "LOCATION_UN"
  | .relation => "RELATION"
  | .prependOne => "PREPEND_ONE"
  | .prependTwo => "PREPEND_TWO"
  | .prependThree => "PREPEND_THREE"
  | .noExport => "NO_EXPORT"
  | .filtered => "FILTERED"

def ofCode? (n : UInt32) : Option TagKind := all.find? fun k => k.code == n

/-- The codes that a customer may set on the routes it sends. -/
def firstAction : UInt32 := 61
def lastAction : UInt32 := 70

def isAction (k : TagKind) : Bool := firstAction ≤ k.code && k.code ≤ lastAction

/-- The kind that asks for so many prepends. -/
def prepend? : Nat → Option TagKind
  | 1 => some .prependOne
  | 2 => some .prependTwo
  | 3 => some .prependThree
  | _ => none

theorem mem_all (k : TagKind) : k ∈ all := by cases k <;> decide

theorem code_inj {a b : TagKind} (h : a.code = b.code) : a = b := by
  cases a <;> cases b <;> first | rfl | exact absurd h (by decide)

theorem ofCode?_code (k : TagKind) : ofCode? k.code = some k := by cases k <;> decide

end TagKind

/-- Over which relationship a route was learned. -/
inductive Relation where
  | own | customer | peer | transit | routeServer
  deriving DecidableEq, Repr

namespace Relation

def all : List Relation := [.own, .customer, .peer, .transit, .routeServer]

def code : Relation → UInt32
  | .own => 1
  | .customer => 2
  | .peer => 3
  | .transit => 4
  | .routeServer => 5

def name : Relation → String
  | .own => "OWN"
  | .customer => "CUSTOMER"
  | .peer => "PEER"
  | .transit => "TRANSIT"
  | .routeServer => "ROUTE_SERVER"

def ofCode? (n : UInt32) : Option Relation := all.find? fun r => r.code == n

theorem code_inj {a b : Relation} (h : a.code = b.code) : a = b := by
  cases a <;> cases b <;> first | rfl | exact absurd h (by decide)

end Relation

/-- Why a route stays in the table of the peer that sent it. -/
inductive Reason where
  | prefixTooLong | prefixTooShort | bogon | bogonAsn | asPathTooLong | asPathTooShort
  | firstAsMismatch | nexthopMismatch | prefixFiltered | originFiltered | defaultNotAllowed
  | rpkiUnknown | rpkiInvalid | transitFreeAsn | tooManyCommunities | routecollector
  | quarantined | customAction
  deriving DecidableEq, Repr

namespace Reason

def all : List Reason :=
  [.prefixTooLong, .prefixTooShort, .bogon, .bogonAsn, .asPathTooLong, .asPathTooShort,
    .firstAsMismatch, .nexthopMismatch, .prefixFiltered, .originFiltered, .defaultNotAllowed,
    .rpkiUnknown, .rpkiInvalid, .transitFreeAsn, .tooManyCommunities, .routecollector,
    .quarantined, .customAction]

def code : Reason → UInt32
  | .prefixTooLong => 1
  | .prefixTooShort => 2
  | .bogon => 3
  | .bogonAsn => 4
  | .asPathTooLong => 5
  | .asPathTooShort => 6
  | .firstAsMismatch => 7
  | .nexthopMismatch => 8
  | .prefixFiltered => 9
  | .originFiltered => 10
  | .defaultNotAllowed => 11
  | .rpkiUnknown => 12
  | .rpkiInvalid => 13
  | .transitFreeAsn => 14
  | .tooManyCommunities => 15
  | .routecollector => 16
  | .quarantined => 17
  | .customAction => 18

def name : Reason → String
  | .prefixTooLong => "PREFIX_TOO_LONG"
  | .prefixTooShort => "PREFIX_TOO_SHORT"
  | .bogon => "BOGON"
  | .bogonAsn => "BOGON_ASN"
  | .asPathTooLong => "AS_PATH_TOO_LONG"
  | .asPathTooShort => "AS_PATH_TOO_SHORT"
  | .firstAsMismatch => "FIRST_AS_MISMATCH"
  | .nexthopMismatch => "NEXTHOP_MISMATCH"
  | .prefixFiltered => "PREFIX_FILTERED"
  | .originFiltered => "ORIGIN_FILTERED"
  | .defaultNotAllowed => "DEFAULT_NOT_ALLOWED"
  | .rpkiUnknown => "RPKI_UNKNOWN"
  | .rpkiInvalid => "RPKI_INVALID"
  | .transitFreeAsn => "TRANSIT_FREE_ASN"
  | .tooManyCommunities => "TOO_MANY_COMMUNITIES"
  | .routecollector => "ROUTECOLLECTOR"
  | .quarantined => "QUARANTINED"
  | .customAction => "CUSTOM_ACTION"

def ofCode? (n : UInt32) : Option Reason := all.find? fun r => r.code == n

end Reason

/-- The kinds of peers that a route can be kept from as a whole. Their codes are private ASNs, which
no external peer should have. -/
inductive Audience where
  | customers | peers | transits
  deriving DecidableEq, Repr

namespace Audience

def all : List Audience := [.customers, .peers, .transits]

def code : Audience → UInt32
  | .customers => 65412
  | .peers => 65413
  | .transits => 65414

def name : Audience → String
  | .customers => "NO_CUSTOMER"
  | .peers => "NO_PEER"
  | .transits => "NO_TRANSIT"

end Audience

/-- A tag that was read back from a large community. -/
structure Tag where
  admin : UInt32
  kind : TagKind
  value : UInt32
  deriving DecidableEq, Repr

/-- Why a large community is no tag. -/
inductive TagFault where
  | kind (code : UInt32)
  | value (kind : TagKind) (value : UInt32)
  deriving DecidableEq, Repr

namespace Tag

def encode (t : Tag) : LargeCommunity := ⟨t.admin, t.kind.code, t.value⟩

/-- Only relations and reasons have a closed list of values. -/
def valueOk : TagKind → UInt32 → Bool
  | .relation, v => (Relation.ofCode? v).isSome
  | .filtered, v => (Reason.ofCode? v).isSome
  | _, _ => true

def decode (c : LargeCommunity) : Except TagFault Tag :=
  match TagKind.ofCode? c.function with
  | none => .error (.kind c.function)
  | some k => if valueOk k c.value then .ok ⟨c.admin, k, c.value⟩ else .error (.value k c.value)

end Tag

def TagFault.message : TagFault → String
  | .kind n => s!"unknown function code {n.toNat}"
  | .value k n => s!"unknown {k.name} value {n.toNat}"

end Peering
