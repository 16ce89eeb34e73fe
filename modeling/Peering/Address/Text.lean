import Peering.Address
import Peering.Text.Scan

/-!
Addresses as text. Hosts and networks are spelled a little differently: a network may pad its octets
with zeros, and its `::` may stand for no group at all.
-/
namespace Peering.Address
open Peering.Text

structure Spelling where
  /-- Octets may start with zeros. -/
  padded : Bool
  /-- The least number of groups that `::` stands for. -/
  elided : Nat

def Spelling.host : Spelling := ⟨false, 1⟩
def Spelling.network : Spelling := ⟨true, 0⟩

def isHexDigit (c : Char) : Bool :=
  c.isDigit || ('a' ≤ c && c ≤ 'f') || ('A' ≤ c && c ≤ 'F')

/-- The longest run of digits in front, if it has one to `most` digits and a value below `bound`. -/
def number (base most bound : Nat) (isDigit : Char → Bool) : Scanner Nat := fun cs =>
  let ds := cs.takeWhile isDigit
  let n := valueIn base ds
  if ds = [] ∨ most < ds.length ∨ bound ≤ n then none else some (n, cs.dropWhile isDigit)

def octet (sp : Spelling) : Scanner Nat := fun cs => do
  let (n, rest) ← number 10 3 256 Char.isDigit cs
  if !sp.padded && cs.head? = some '0' && 1 < cs.length - rest.length then none
  else return (n, rest)

def scanOctets (sp : Spelling) : Scanner (List Nat) := fun cs => do
  let (a, cs) ← octet sp cs
  let ((), cs) ← char '.' cs
  let (b, cs) ← octet sp cs
  let ((), cs) ← char '.' cs
  let (c, cs) ← octet sp cs
  let ((), cs) ← char '.' cs
  let (d, cs) ← octet sp cs
  return ([a, b, c, d], cs)

def scan4 (sp : Spelling) : Scanner Address4 := fun cs => do
  let (os, cs) ← scanOctets sp cs
  return (ofOctets os, cs)

def group : Scanner Nat := number 16 4 65536 isHexDigit

/-- Up to `limit` groups with colons between them, and whether they end in the dotted form, which
counts as two. -/
def scanGroups (sp : Spelling) :
    (limit : Nat) → (first : Bool) → List Char → List Nat × Bool × List Char
  | 0, _, cs => ([], false, cs)
  | limit + 1, first, cs =>
    match if first then some ((), cs) else char ':' cs with
    | none => ([], false, cs)
    | some ((), start) =>
      match if limit = 0 then none else scanOctets sp start with
      | some (os, rest) => (parts 65536 2 (join 256 os), true, rest)
      | none =>
        match group start with
        | none => ([], false, cs)
        | some (g, rest) =>
          let (gs, dotted, rest) := scanGroups sp limit false rest
          (g :: gs, dotted, rest)

def scan6 (sp : Spelling) : Scanner Address6 := fun cs =>
  let (head, dotted, rest) := scanGroups sp 8 true cs
  if head.length = 8 then some (ofGroups head, rest)
  else if dotted then none
  else do
    let ((), rest) ← word [':', ':'] rest
    let (tail, _, rest) := scanGroups sp (8 - head.length - sp.elided) true rest
    let zeros := List.replicate (8 - head.length - tail.length) 0
    return (ofGroups (head ++ zeros ++ tail), rest)

def parse4? (s : String) : Option Address4 := whole (scan4 .host) s.toList
def parse6? (s : String) : Option Address6 := whole (scan6 .host) s.toList

def chars4 (a : Address4) : List Char :=
  ['.'].intercalate ((octets a).map (Nat.toDigits 10))

/-- Where the longest run of zero groups starts, and how long it is; the first of equal runs. -/
def longestZeros : List Nat → Nat × Nat
  | [] => (0, 0)
  | g :: gs =>
    let here := ((g :: gs).takeWhile (· = 0)).length
    let (start, count) := longestZeros gs
    if count ≤ here then (0, here) else (start + 1, count)

def hexGroups (gs : List Nat) : List Char :=
  [':'].intercalate (gs.map (Nat.toDigits 16))

/-- The longest run of two or more zero groups is written `::`; an address of the mapped range ends
in the dotted form. -/
def chars6 (a : Address6) : List Char :=
  let gs := groups a
  if gs.take 6 = [0, 0, 0, 0, 0, 65535] then
    "::ffff:".toList ++ chars4 (BitVec.ofNat 32 a.toNat)
  else
    let (start, count) := longestZeros gs
    if 2 ≤ count then hexGroups (gs.take start) ++ [':', ':'] ++ hexGroups (gs.drop (start + count))
    else hexGroups gs

def chars : Address → List Char
  | v4 a => chars4 a
  | v6 a => chars6 a

def text (a : Address) : String := String.ofList a.chars

theorem longestZeros_le (gs : List Nat) :
    (longestZeros gs).1 + (longestZeros gs).2 ≤ gs.length := by
  induction gs with
  | nil => simp [longestZeros]
  | cons g gs ih =>
    simp only [longestZeros]
    split
    · simpa using (List.takeWhile_sublist (l := g :: gs) (fun x => decide (x = 0))).length_le
    · simp only [List.length_cons]; omega

example : text (.v6 (ofGroups [0, 0, 1, 0, 0, 0, 1, 0])) = "0:0:1::1:0" := by decide +kernel
example : text (.v6 (ofGroups [0, 0, 0, 0, 0, 65535, 0xc000, 0x201])) = "::ffff:192.0.2.1" := by
  decide +kernel
example : parse6? "::2:3:4:5:6:7:8" = some (ofGroups [0, 2, 3, 4, 5, 6, 7, 8]) := by decide +kernel
example : parse6? "1:2:3:4:5:6:7::8" = none := by decide +kernel
example : parse4? "192.0.02.1" = none := by decide +kernel

end Peering.Address
