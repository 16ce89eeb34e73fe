/-!
The numbers of IEEE 754 binary64 that are finite and not negative, and rounding to them. All is exact
arithmetic on naturals.
-/
namespace Peering.Decimal

/-- The number `mantissa * 2 ^ exponent`, with a mantissa below `2 ^ 53`. -/
structure Binary64 where
  mantissa : Nat
  exponent : Int
  deriving DecidableEq, Repr

namespace Binary64

def leastExponent : Int := -1074
def greatestExponent : Int := 971

def zero : Binary64 := ⟨0, leastExponent⟩

/-- `n / (d * 2 ^ e)` as a quotient of naturals. -/
def scaled (n d : Nat) (e : Int) : Nat × Nat :=
  if 0 ≤ e then (n, d * Nat.pow 2 e.toNat) else (n * Nat.pow 2 (-e).toNat, d)

/-- The natural nearest to `n / d`, the even one of two equally near. -/
def roundEven (n d : Nat) : Nat :=
  let q := n / d
  let r := n % d
  if 2 * r < d ∨ (2 * r = d ∧ q % 2 = 0) then q else q + 1

/-- The number nearest to `n / d`, or nothing when that overflows. -/
def ofRatio (n d : Nat) : Option Binary64 :=
  if n = 0 then some zero
  else
    let guess := max leastExponent ((n.log2 : Int) - d.log2 - 53)
    let (a, b) := scaled n d guess
    let e := if a / b < Nat.pow 2 53 then guess else guess + 1
    let (a, b) := scaled n d e
    let m := roundEven a b
    let (m, e) := if m = Nat.pow 2 53 then (Nat.pow 2 52, e + 1) else (m, e)
    if greatestExponent < e then none else some ⟨m, e⟩

/-- The number as a quotient of naturals. -/
def ratio (x : Binary64) : Nat × Nat :=
  if 0 ≤ x.exponent then (x.mantissa * Nat.pow 2 x.exponent.toNat, 1)
  else (x.mantissa, Nat.pow 2 (-x.exponent).toNat)

def ofNat (n : Nat) : Option Binary64 := ofRatio n 1

def mul (x y : Binary64) : Option Binary64 :=
  ofRatio (x.ratio.1 * y.ratio.1) (x.ratio.2 * y.ratio.2)

def div (x y : Binary64) : Option Binary64 :=
  ofRatio (x.ratio.1 * y.ratio.2) (x.ratio.2 * y.ratio.1)

def powerOfTen (k : Nat) : Binary64 := (ofNat (Nat.pow 10 k)).getD zero

/-- `significand * 10 ^ exponent`, rounded once for the significand, once for the power and once for
their product or quotient; powers beyond `10 ^ 308` go in steps of that size. Nothing when the
result overflows. -/
def ofDecimal (significand : Nat) (exponent : Int) : Option Binary64 := do
  let x ← ofNat significand
  if 308 < exponent then (if x.mantissa = 0 then some x else none)
  else if 0 ≤ exponent then x.mul (powerOfTen exponent.toNat)
  else if -308 ≤ exponent then x.div (powerOfTen exponent.natAbs)
  else
    let x ← x.div (powerOfTen 308)
    let exponent := exponent + 308
    if -308 ≤ exponent then x.div (powerOfTen exponent.natAbs) else some zero

example : ofRatio 1 3 = some ⟨6004799503160661, -54⟩ := by decide +kernel
example : ofNat (2 ^ 53 + 1) = some ⟨2 ^ 52, 1⟩ := by decide +kernel
example : ofDecimal 1 400 = none := by decide +kernel

end Binary64
end Peering.Decimal
