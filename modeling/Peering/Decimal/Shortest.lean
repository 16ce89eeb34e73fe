import Peering.Decimal.Binary64

/-!
The shortest decimal that a binary64 number is the nearest to. For one digit, then two, and so on,
the two neighbours of the number on that decimal grid are tested against the interval of reals that
round to it.
-/
namespace Peering.Decimal

/-- The decimal `digits * 10 ^ exponent`. -/
structure Scientific where
  digits : Nat
  exponent : Int
  deriving DecidableEq, Repr

namespace Binary64

/-- The ends of the interval that rounds to the number, and the number, in quarters of its last
place. Below a power of two the gap is half as wide. -/
def quarters (x : Binary64) : Nat × Nat × Nat :=
  let low := if x.mantissa = Nat.pow 2 52 ∧ leastExponent < x.exponent then 1 else 2
  (4 * x.mantissa - low, 4 * x.mantissa, 4 * x.mantissa + 2)

/-- `n` quarters of the last place, in units of `10 ^ k`, as a quotient. -/
def inUnits (x : Binary64) (k : Int) (n : Nat) : Nat × Nat :=
  let (n, d) := if 0 ≤ x.exponent then (n * Nat.pow 2 x.exponent.toNat, 4)
    else (n, 4 * Nat.pow 2 x.exponent.natAbs)
  if 0 ≤ k then (n, d * Nat.pow 10 k.toNat) else (n * Nat.pow 10 k.natAbs, d)

/-- Whether the decimal `c * 10 ^ k` rounds to the number. -/
def roundsTo (x : Binary64) (k : Int) (c : Nat) : Bool :=
  let (low, _, high) := x.quarters
  let (ln, ld) := x.inUnits k low
  let (hn, hd) := x.inUnits k high
  if x.mantissa % 2 = 0 then ln ≤ c * ld && c * hd ≤ hn else ln < c * ld && c * hd < hn

/-- The neighbour of the number on the grid of `10 ^ k` that rounds to it, the nearer one of two. -/
def onGrid (x : Binary64) (k : Int) : Option Nat :=
  let (n, d) := x.inUnits k (4 * x.mantissa)
  let c := n / d
  match x.roundsTo k c, x.roundsTo k (c + 1) with
  | true, true => if 2 * (n % d) < d ∨ (2 * (n % d) = d ∧ c % 2 = 0) then some c else some (c + 1)
  | true, false => some c
  | false, true => some (c + 1)
  | false, false => none

/-- The exponent of the leading decimal digit of a number that is not zero. -/
def leading (x : Binary64) : Int :=
  let (n, d) := x.ratio
  if d ≤ n then (Nat.log2 (n / d) : Int) * 30103 / 100000 |> climb n d 2
  else -((Nat.log2 (d / n) : Int) * 30103 / 100000) - 2 |> climb n d 4
where
  /-- Raises a lower bound while the next power of ten is still within the number. -/
  climb (n d : Nat) : Nat → Int → Int
    | 0, k => k
    | steps + 1, k =>
      let next := k + 1
      let within := if 0 ≤ next then d * Nat.pow 10 next.toNat ≤ n else d ≤ n * Nat.pow 10 next.natAbs
      if within then climb n d steps next else k

def stripZeros : Nat → Nat → Int → Scientific
  | 0, c, k => ⟨c, k⟩
  | steps + 1, c, k =>
    if c ≠ 0 ∧ c % 10 = 0 then stripZeros steps (c / 10) (k + 1) else ⟨c, k⟩

/-- Tries one digit more until a decimal is found; seventeen always do. -/
def shortestFrom (x : Binary64) (top : Int) : (steps digits : Nat) → Scientific
  | 0, _ => ⟨0, 0⟩
  | steps + 1, digits =>
    let k := top + 1 - digits
    match x.onGrid k with
    | some c => stripZeros 20 c k
    | none => shortestFrom x top steps (digits + 1)

def shortest (x : Binary64) : Scientific :=
  if x.mantissa = 0 then ⟨0, 0⟩ else shortestFrom x x.leading 17 1

end Binary64

/-- A decimal is positional when the exponent of its leading digit lies between the bounds. -/
structure Layout where
  low : Int
  high : Int

/-- A point and a digit after it always stand in the positional form; the exponent of the other form
has a sign and no padding. -/
def Scientific.text (layout : Layout) (d : Scientific) : String :=
  let ds := Nat.toDigits 10 d.digits
  let top := d.exponent + ds.length - 1
  if d.digits = 0 then "0.0"
  else if layout.low ≤ top ∧ top ≤ layout.high then
    if 0 ≤ d.exponent then
      String.ofList ds ++ String.ofList (List.replicate d.exponent.toNat '0') ++ ".0"
    else if 0 ≤ top then
      String.ofList (ds.take (top.toNat + 1)) ++ "." ++ String.ofList (ds.drop (top.toNat + 1))
    else "0." ++ String.ofList (List.replicate (top.natAbs - 1) '0') ++ String.ofList ds
  else
    let tail := ds.drop 1
    String.ofList (ds.take 1) ++ (if tail = [] then "" else "." ++ String.ofList tail) ++
      (if 0 ≤ top then "e+" else "e-") ++ toString top.natAbs

end Peering.Decimal
