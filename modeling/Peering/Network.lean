import Peering.Address.Text

/-! Networks: an address and the number of leading bits that are fixed. -/
namespace Peering

structure Network where
  address : Address
  length : Nat
  deriving DecidableEq, Repr

namespace Network
open Peering.Text

def family (n : Network) : Family := n.address.family

/-- The same network with every bit after the first `length` cleared. -/
def truncate (n : Network) : Network :=
  match n.address with
  | .v4 a => { n with address := .v4 (a >>> (32 - n.length) <<< (32 - n.length)) }
  | .v6 a => { n with address := .v6 (a >>> (128 - n.length) <<< (128 - n.length)) }

/-- The length fits the family and no bit after it is set. -/
def IsProper (n : Network) : Prop := n.length ≤ n.family.width ∧ n.truncate = n

instance (n : Network) : Decidable n.IsProper := inferInstanceAs (Decidable (_ ∧ _))

/-- The network that holds every address of the family. -/
def everything : Family → Network
  | .v4 => ⟨.v4 0, 0⟩
  | .v6 => ⟨.v6 0, 0⟩

/-- Whether another network lies inside the network. -/
def covers (n m : Network) : Bool :=
  n.family = m.family && n.length ≤ m.length &&
    ({ m with length := n.length } : Network).truncate.address = n.truncate.address

def scan4 : Scanner Network := fun cs => do
  let (a, cs) ← Address.scan4 .network cs
  let ((), cs) ← char '/' cs
  let (n, cs) ← Address.number 10 2 33 Char.isDigit cs
  return (⟨.v4 a, n⟩, cs)

def scan6 : Scanner Network := fun cs => do
  let (a, cs) ← Address.scan6 .network cs
  let ((), cs) ← char '/' cs
  let (n, cs) ← Address.number 10 3 129 Char.isDigit cs
  return (⟨.v6 a, n⟩, cs)

def parse? (cs : List Char) : Option Network := whole (either scan4 scan6) cs

def chars (n : Network) : List Char := n.address.chars ++ '/' :: Nat.toDigits 10 n.length

def text (n : Network) : String := String.ofList n.chars

example : (everything .v4).text = "0.0.0.0/0" := by decide +kernel
example : (everything .v6).text = "::/0" := by decide +kernel

end Network
end Peering
