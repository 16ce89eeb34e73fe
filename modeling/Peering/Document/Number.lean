import Peering.Document.Problem
import Peering.Document.Value

/-!
What a number of a document is worth. Digits are taken into a significand of 64 bits; those that no
longer fit only scale it.
-/
namespace Peering.Document
open Decimal

inductive Number where
  | integer (n : Int)
  | real (negative : Bool) (magnitude : Binary64)
  deriving DecidableEq, Repr

/-- Takes digits in as long as the significand stays below `2 ^ 64`; gives it with the number of
digits that were not taken. -/
def takeDigits : (significand : Nat) → List Byte → Nat × Nat
  | n, [] => (n, 0)
  | n, d :: ds =>
    let m := 10 * n + (d.toNat - 0x30)
    if m < Nat.pow 2 64 then takeDigits m ds else (n, ds.length + 1)

def digitsValue (ds : List Byte) : Nat := ds.foldl (fun n d => 10 * n + (d.toNat - 0x30)) 0

namespace Numeral

/-- The number that a numeral without sign and fault stands for. An exponent of 31 bits or more is
out of reach unless it makes the number vanish. -/
def real (n : Numeral) : Except Problem Number := do
  let (significand, scale) := takeDigits 0 n.whole
  let fraction := n.fraction.getD []
  let (significand, left) := takeDigits significand fraction
  let scale : Int := scale - (fraction.length - left)
  let result (x : Option Binary64) : Except Problem Number :=
    match x with
    | some x => .ok (.real n.negative x)
    | none => .error .hugeNumber
  match n.exponent with
  | none => result (Binary64.ofDecimal significand scale)
  | some (minus, ds) =>
    let e := digitsValue ds
    let total := if minus then scale - e else scale + e
    if e < Nat.pow 2 31 then result (Binary64.ofDecimal significand total)
    else if significand ≠ 0 ∧ !minus then .error .hugeNumber
    else .ok (.real n.negative .zero)

/-- An integer of 64 bits, with or without a sign, or else a real. The negative zero is a real. -/
def read (n : Numeral) : Except Problem Number :=
  match n.fault with
  | some .cut => .error .endInValue
  | some .malformed => .error .badNumber
  | none =>
    if n.fraction.isSome || n.exponent.isSome then n.real
    else
      let (significand, left) := takeDigits 0 n.whole
      if left ≠ 0 then n.real
      else if !n.negative then .ok (.integer significand)
      else if significand = 0 ∨ Nat.pow 2 63 < significand then n.real
      else .ok (.integer (-significand))

/-- Passes over a number that nobody wants, whatever its size. -/
def skip (n : Numeral) : Except Problem Unit :=
  if n.fault.isSome then .error .badNumber else .ok ()

def ofNat (n : Nat) : Numeral :=
  ⟨false, (Nat.toDigits 10 n).map fun c => c.toNat.toUInt8, none, none, none⟩

end Numeral
end Peering.Document
