/-! The two address families, with the words the router configuration has for each. -/
namespace Peering

inductive Family where
  | v4 | v6
  deriving DecidableEq, Repr

namespace Family

def all : List Family := [.v4, .v6]

/-- The length of an address in bits. -/
def width : Family → Nat
  | .v4 => 32
  | .v6 => 128

/-- The digit that ends every generated name of the family. -/
def digit : Family → String
  | .v4 => "4"
  | .v6 => "6"

def channel : Family → String
  | .v4 => "ipv4"
  | .v6 => "ipv6"

def netType : Family → String
  | .v4 => "NET_IP4"
  | .v6 => "NET_IP6"

def masterTable : Family → String
  | .v4 => "master4"
  | .v6 => "master6"

def rank : Family → Nat
  | .v4 => 0
  | .v6 => 1

theorem mem_all (f : Family) : f ∈ all := by cases f <;> simp [all]

theorem digit_inj {f g : Family} : f.digit = g.digit ↔ f = g := by
  cases f <;> cases g <;> decide

end Family
end Peering
