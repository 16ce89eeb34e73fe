import Peering.Allowlist
import Peering.Bird.Statement
import Peering.Naming

/-! The constants that are the same for every peer, and lists as definitions. -/
namespace Peering
open Bird (Statement SetGroup)

/-- A list with a name; its items are grouped by origin. -/
structure NamedList where
  name : String
  groups : List (Group String)
  deriving DecidableEq, Repr

namespace NamedList

def isEmpty (l : NamedList) : Bool := l.groups.all fun g => g.items.isEmpty

/-- The definition of a list, with a title over each group that has items. -/
def statement (l : NamedList) : Statement :=
  .defineSet l.name ((l.groups.filter fun g => !g.items.isEmpty).map fun g => ⟨g.title, g.items⟩)

/-- A definition for every list that is not empty. -/
def statements (ls : List NamedList) : List Statement :=
  (ls.filter fun l => !l.isEmpty).map statement

def emit (ls : List NamedList) : String := Bird.render (statements ls)

end NamedList

/-- Bounds on what is believed from outside: lengths of networks, ASNs in a path, communities. -/
def Constant.bound : Constant → Option Nat
  | ownAsn => none
  | longest .v4 => some 24
  | shortest .v4 => some 8
  | longest .v6 => some 48
  | shortest .v6 => some 16
  | longestPath => some 100
  | shortestPath => some 1
  | mostCommunities => some 100

def Constant.all : List Constant :=
  [.ownAsn, .longest .v4, .shortest .v4, .longest .v6, .shortest .v6, .longestPath, .shortestPath,
    .mostCommunities]

/-- Networks that should never be seen in a route. -/
def bogons : Family → List String
  | .v4 =>
    ["0.0.0.0/8+", "10.0.0.0/8+", "100.64.0.0/10+", "127.0.0.0/8+", "169.254.0.0/16+",
      "172.16.0.0/12+", "192.0.0.0/24+", "192.0.2.0/24+", "192.168.0.0/16+", "198.18.0.0/15+",
      "198.51.100.0/24+", "203.0.113.0/24+", "224.0.0.0/4+", "240.0.0.0/4+"]
  | .v6 =>
    ["::/8+", "0100::/64+", "2001:2::/48+", "2001:10::/28+", "2001:db8::/32+", "2002::/16+",
      "3ffe::/16+", "fc00::/7+", "fe80::/10+", "fec0::/10+", "ff00::/8+"]

/-- ASNs that should never be seen in a path, as inclusive ranges. -/
def bogonAsns : List (UInt32 × UInt32) :=
  [(0, 0), (23456, 23456), (64496, 64511), (64512, 65534), (65535, 65535), (65536, 65551),
    (65552, 131071), (4200000000, 4294967294), (4294967295, 4294967295)]

def rangeText (r : UInt32 × UInt32) : String :=
  if r.1 = r.2 then toString r.1.toNat else s!"{r.1.toNat}..{r.2.toNat}"

/-- Networks that never buy transit. One of them behind a customer or a peer means a leak. -/
def transitFree : List UInt32 :=
  [174, 209, 701, 702, 1239, 1299, 2914, 3257, 3320, 3356, 3491, 5511, 6453, 6461, 6762, 6830, 7018,
    12956]

def globalLists : List NamedList :=
  [⟨(ListName.bogons .v4).name, [⟨none, bogons .v4⟩]⟩,
    ⟨(ListName.bogons .v6).name, [⟨none, bogons .v6⟩]⟩,
    ⟨ListName.bogonAsns.name, [⟨none, bogonAsns.map rangeText⟩]⟩,
    ⟨ListName.transitFree.name, [⟨none, transitFree.map fun n => toString n.toNat⟩]⟩]

end Peering
