import Peering.Text.Blank
import Peering.Text.Scan

/-!
The three kinds of communities. Each is read from its colon form or its tuple form, and written as a
tuple.
-/
namespace Peering
open Text

structure Community where
  admin : UInt16
  value : UInt16
  deriving DecidableEq, Repr

inductive ExtendedKind where
  | target | origin
  deriving DecidableEq, Repr

structure ExtendedCommunity where
  kind : ExtendedKind
  admin : UInt32
  value : UInt32
  deriving DecidableEq, Repr

/-- A large community: who defines it, and two parts that are the definer's own. -/
structure LargeCommunity where
  admin : UInt32
  function : UInt32
  value : UInt32
  deriving DecidableEq, Repr

def scan16 : Scanner UInt16 := fun cs => (natural 65536 cs).map fun (n, cs) => (UInt16.ofNat n, cs)
def scan32 : Scanner UInt32 := fun cs =>
  (natural 4294967296 cs).map fun (n, cs) => (UInt32.ofNat n, cs)

def chars16 (n : UInt16) : List Char := Nat.toDigits 10 n.toNat
def chars32 (n : UInt32) : List Char := Nat.toDigits 10 n.toNat

/-- The parts with a comma and a space between them, in parentheses. -/
def tuple (parts : List (List Char)) : List Char :=
  '(' :: [',', ' '].intercalate parts ++ [')']

namespace Community

def scanColon : Scanner Community := fun cs => do
  let (a, cs) ← scan16 cs
  let ((), cs) ← char ':' cs
  let (b, cs) ← scan16 cs
  return (⟨a, b⟩, cs)

def scanTuple : Scanner Community := fun cs => do
  let ((), cs) ← opening cs
  let (a, cs) ← scan16 cs
  let ((), cs) ← comma cs
  let (b, cs) ← scan16 cs
  let ((), cs) ← closing cs
  return (⟨a, b⟩, cs)

def scan : Scanner Community := either scanColon scanTuple

def parse? (s : String) : Option Community := whole scan (trim s.toList)

def chars (c : Community) : List Char := tuple [chars16 c.admin, chars16 c.value]

def text (c : Community) : String := String.ofList c.chars

end Community

namespace ExtendedKind

def scan : Scanner ExtendedKind
  | 'r' :: 't' :: cs => some (.target, cs)
  | 'r' :: 'o' :: cs => some (.origin, cs)
  | _ => none

def chars : ExtendedKind → List Char
  | .target => ['r', 't']
  | .origin => ['r', 'o']

end ExtendedKind

namespace ExtendedCommunity

def scanColon : Scanner ExtendedCommunity := fun cs => do
  let (k, cs) ← ExtendedKind.scan cs
  let ((), cs) ← char ':' cs
  let (a, cs) ← scan32 cs
  let ((), cs) ← char ':' cs
  let (b, cs) ← scan32 cs
  return (⟨k, a, b⟩, cs)

def scanTuple : Scanner ExtendedCommunity := fun cs => do
  let ((), cs) ← opening cs
  let (k, cs) ← ExtendedKind.scan cs
  let ((), cs) ← comma cs
  let (a, cs) ← scan32 cs
  let ((), cs) ← comma cs
  let (b, cs) ← scan32 cs
  let ((), cs) ← closing cs
  return (⟨k, a, b⟩, cs)

def scan : Scanner ExtendedCommunity := either scanColon scanTuple

def parse? (s : String) : Option ExtendedCommunity := whole scan (trim s.toList)

def chars (c : ExtendedCommunity) : List Char :=
  tuple [c.kind.chars, chars32 c.admin, chars32 c.value]

def text (c : ExtendedCommunity) : String := String.ofList c.chars

end ExtendedCommunity

namespace LargeCommunity

def scanColon : Scanner LargeCommunity := fun cs => do
  let (a, cs) ← scan32 cs
  let ((), cs) ← char ':' cs
  let (b, cs) ← scan32 cs
  let ((), cs) ← char ':' cs
  let (c, cs) ← scan32 cs
  return (⟨a, b, c⟩, cs)

def scanTuple : Scanner LargeCommunity := fun cs => do
  let ((), cs) ← opening cs
  let (a, cs) ← scan32 cs
  let ((), cs) ← comma cs
  let (b, cs) ← scan32 cs
  let ((), cs) ← comma cs
  let (c, cs) ← scan32 cs
  let ((), cs) ← closing cs
  return (⟨a, b, c⟩, cs)

def scan : Scanner LargeCommunity := either scanColon scanTuple

def parse? (s : String) : Option LargeCommunity := whole scan (trim s.toList)

def chars (c : LargeCommunity) : List Char :=
  tuple [chars32 c.admin, chars32 c.function, chars32 c.value]

def text (c : LargeCommunity) : String := String.ofList c.chars

/-- The colon form, as documents hold it. -/
def colonChars (c : LargeCommunity) : List Char :=
  [':'].intercalate [chars32 c.admin, chars32 c.function, chars32 c.value]

def colonText (c : LargeCommunity) : String := String.ofList c.colonChars

example : (parse? " (65000,\t3 , 1 )\n").map text = some "(65000, 3, 1)" := by decide +kernel
example : parse? "65000 :3:1" = none := by decide +kernel
example : parse? "4294967296:1:1" = none := by decide +kernel

end LargeCommunity
end Peering
