/-!
Scanners over characters. A scanner takes a text from its front and gives what it read with what
is left, or nothing when the text does not start that way.
-/
namespace Peering.Text

abbrev Scanner (α : Type) := List Char → Option (α × List Char)

def char (c : Char) : Scanner Unit
  | d :: cs => if d = c then some ((), cs) else none
  | [] => none

def word (w : List Char) : Scanner Unit
  | cs => if w.isPrefixOf cs then some ((), cs.drop w.length) else none

/-- Spaces and tabs; there may be none. -/
def blanks (cs : List Char) : List Char :=
  cs.dropWhile fun c => c = ' ' || c = '\t'

/-- A comma with the spaces and tabs on both sides of it. -/
def comma (cs : List Char) : Option (Unit × List Char) := do
  let ((), cs) ← char ',' (blanks cs)
  return ((), blanks cs)

def opening (cs : List Char) : Option (Unit × List Char) := do
  let ((), cs) ← char '(' cs
  return ((), blanks cs)

def closing (cs : List Char) : Option (Unit × List Char) :=
  char ')' (blanks cs)

/-- The value of a digit in bases up to sixteen. -/
def digitValue (c : Char) : Nat :=
  if c.isDigit then c.toNat - 48 else if c.isLower then c.toNat - 87 else c.toNat - 55

def valueIn (base : Nat) (ds : List Char) : Nat :=
  ds.foldl (fun n d => base * n + digitValue d) 0

/-- A run of ASCII digits, leading zeros included, with a value below `bound`. -/
def natural (bound : Nat) (cs : List Char) : Option (Nat × List Char) :=
  let ds := cs.takeWhile Char.isDigit
  let n := valueIn 10 ds
  if ds = [] ∨ bound ≤ n then none else some (n, cs.dropWhile Char.isDigit)

/-- What the scanner reads when it takes the whole text. -/
def whole {α : Type} (s : Scanner α) (cs : List Char) : Option α :=
  match s cs with
  | some (a, []) => some a
  | _ => none

def either {α : Type} (s t : Scanner α) : Scanner α := fun cs => s cs <|> t cs

end Peering.Text
