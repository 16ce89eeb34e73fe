import Peering.Family

/-! Addresses of both families and their parts: four octets, or eight groups of sixteen bits. -/
namespace Peering

abbrev Address4 := BitVec 32
abbrev Address6 := BitVec 128

inductive Address where
  | v4 (bits : Address4)
  | v6 (bits : Address6)
  deriving DecidableEq, Repr

namespace Address

def family : Address → Family
  | v4 _ => .v4
  | v6 _ => .v6

def toNat : Address → Nat
  | v4 b => b.toNat
  | v6 b => b.toNat

/-- The number put together from equal parts of `size` values each, the first part highest. -/
def join (size : Nat) (parts : List Nat) : Nat :=
  parts.foldl (fun n p => n * size + p) 0

/-- The lowest `count` parts of a number, the highest of them first. -/
def parts (size : Nat) : Nat → Nat → List Nat
  | 0, _ => []
  | count + 1, n => parts size count (n / size) ++ [n % size]

def octets (a : Address4) : List Nat := parts 256 4 a.toNat
def groups (a : Address6) : List Nat := parts 65536 8 a.toNat

def ofOctets (os : List Nat) : Address4 := BitVec.ofNat 32 (join 256 os)
def ofGroups (gs : List Nat) : Address6 := BitVec.ofNat 128 (join 65536 gs)

theorem join_concat (size : Nat) (ps : List Nat) (p : Nat) :
    join size (ps ++ [p]) = join size ps * size + p := by
  simp [join]

theorem length_parts (size count n : Nat) : (parts size count n).length = count := by
  induction count generalizing n with
  | zero => rfl
  | succ k ih => simp [parts, ih]

theorem join_parts (size count n : Nat) :
    join size (parts size count n) = n % Nat.pow size count := by
  induction count generalizing n with
  | zero => simp [parts, join, Nat.mod_one]
  | succ k ih =>
    have step : Nat.pow size (k + 1) = size * Nat.pow size k := Nat.mul_comm _ _
    rw [parts, join_concat, ih, step, Nat.mod_mul, Nat.mul_comm, Nat.add_comm]

theorem ofOctets_octets (a : Address4) : ofOctets (octets a) = a := by
  apply BitVec.eq_of_toNat_eq
  simp [ofOctets, octets, join_parts, Nat.mod_eq_of_lt a.isLt]

theorem ofGroups_groups (a : Address6) : ofGroups (groups a) = a := by
  apply BitVec.eq_of_toNat_eq
  simp [ofGroups, groups, join_parts, Nat.mod_eq_of_lt a.isLt]

end Address
end Peering
