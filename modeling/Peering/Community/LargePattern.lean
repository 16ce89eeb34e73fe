import Peering.Community

/-! Patterns of large communities, as they stand in the sets that a filter matches or deletes. -/
namespace Peering
open Text

/-- A pattern of one of the two parts after the administrator. -/
inductive Part where
  | any
  | exactly (n : UInt32)
  | between (low high : UInt32)
  deriving DecidableEq, Repr

namespace Part

def admits : Part → UInt32 → Bool
  | any, _ => true
  | exactly n, m => n == m
  | between low high, m => low ≤ m && m ≤ high

def chars : Part → List Char
  | any => ['*']
  | exactly n => chars32 n
  | between low high => chars32 low ++ ['.', '.'] ++ chars32 high

end Part

structure LargePattern where
  admin : UInt32
  function : Part
  value : Part
  deriving DecidableEq, Repr

namespace LargePattern

def admits (p : LargePattern) (c : LargeCommunity) : Bool :=
  p.admin == c.admin && p.function.admits c.function && p.value.admits c.value

def chars (p : LargePattern) : List Char := tuple [chars32 p.admin, p.function.chars, p.value.chars]

def text (p : LargePattern) : String := String.ofList p.chars

end LargePattern
end Peering
