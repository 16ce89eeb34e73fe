import Peering.Network
import Peering.Text.Blank

/-! Patterns over networks, as they stand in a set of networks: `192.0.2.0/24{24,28}`. -/
namespace Peering

/-- Which lengths a pattern admits beside that of its own network. -/
inductive Extent where
  | exact
  /-- The network and all more specific ones, `+`. -/
  | orLonger
  /-- The network and all less specific ones, `-`. -/
  | orShorter
  /-- More specific ones with a length between the two, `{low,high}`. -/
  | between (low high : Nat)
  deriving DecidableEq, Repr

structure Pattern where
  net : Network
  extent : Extent
  deriving DecidableEq, Repr

/-- Why a text is no pattern. -/
inductive Pattern.Fault where
  | shape
  | network (text : String)
  | hostBits (net : Network)
  | range (low high : Nat) (net : Network)
  deriving DecidableEq, Repr

namespace Extent
open Peering.Text

def scan : Scanner Extent := fun cs =>
  match cs with
  | '+' :: cs => some (.orLonger, cs)
  | '-' :: cs => some (.orShorter, cs)
  | '{' :: cs => do
    let (low, cs) ← natural 256 cs
    let ((), cs) ← comma cs
    let (high, cs) ← natural 256 cs
    let ((), cs) ← char '}' cs
    return (.between low high, cs)
  | _ => none

def chars : Extent → List Char
  | exact => []
  | orLonger => ['+']
  | orShorter => ['-']
  | between low high => '{' :: Nat.toDigits 10 low ++ ',' :: Nat.toDigits 10 high ++ ['}']

/-- The place of an extent in the order of patterns on one network. -/
def rank : Extent → Nat × Nat × Nat
  | exact => (0, 0, 0)
  | orLonger => (1, 0, 0)
  | orShorter => (2, 0, 0)
  | between low high => (3, low, high)

theorem rank_inj {a b : Extent} (h : a.rank = b.rank) : a = b := by
  cases a <;> cases b <;> simp_all [rank]

end Extent

namespace Pattern
open Peering.Text

def family (p : Pattern) : Family := p.net.family

/-- The text of the network in front, and the extent after it. A network is any text up to the
first character that could start an extent. -/
def scan : Scanner (List Char × Extent) := fun cs =>
  let isNet := fun c : Char => !(c == '+' || c == '-' || c == '{')
  let net := cs.takeWhile isNet
  let rest := cs.dropWhile isNet
  if net = [] then none
  else
    match Extent.scan rest with
    | some (e, rest) => some ((net, e), rest)
    | none => some ((net, .exact), rest)

/-- A range starts no earlier than the network and ends within the address. -/
def rangeOk (net : Network) : Extent → Bool
  | .between low high => low ≤ high && net.length ≤ low && high ≤ net.family.width
  | _ => true

def WellFormed (p : Pattern) : Prop := p.net.IsProper ∧ rangeOk p.net p.extent = true

instance (p : Pattern) : Decidable p.WellFormed := inferInstanceAs (Decidable (_ ∧ _))

def parse (s : String) : Except Fault Pattern :=
  match whole scan (trim s.toList) with
  | none => .error .shape
  | some (text, extent) =>
    match Network.parse? text with
    | none => .error (.network (String.ofList text))
    | some net =>
      if net.truncate ≠ net then .error (.hostBits net)
      else
        match extent with
        | .between low high =>
          if rangeOk net extent then .ok ⟨net, extent⟩ else .error (.range low high net)
        | _ => .ok ⟨net, extent⟩

def chars (p : Pattern) : List Char := p.net.chars ++ p.extent.chars

def text (p : Pattern) : String := String.ofList p.chars

def Fault.message (s : String) : Fault → String
  | .shape => s!"malformed prefix pattern `{s}`"
  | .network t => s!"malformed prefix `{t}`: invalid IP address syntax"
  | .hostBits n =>
    s!"prefix `{n.text}` has host bits set, did you mean `{n.truncate.text}`?"
  | .range low high n => s!"invalid length range \x7b{low},{high}\x7d for `{n.text}`"

/-- The order of patterns: by family, address, length and extent. -/
def key (p : Pattern) : List Nat :=
  [p.family.rank, p.net.address.toNat, p.net.length,
    p.extent.rank.1, p.extent.rank.2.1, p.extent.rank.2.2]

def le (p q : Pattern) : Bool := !q.key.lex p.key

/-- Whether a set that holds the pattern holds a network. -/
def admits (p : Pattern) (n : Network) : Bool :=
  match p.extent with
  | .exact => p.net = n
  | .orLonger => p.net.covers n
  | .orShorter => n.covers p.net
  | .between low high => p.net.covers n && low ≤ n.length && n.length ≤ high

theorem key_inj {p q : Pattern} (h : p.key = q.key) : p = q := by
  obtain ⟨⟨a, l⟩, e⟩ := p
  obtain ⟨⟨b, m⟩, f⟩ := q
  simp only [key, List.cons.injEq, and_true] at h
  obtain ⟨hf, ha, hl, h1, h2, h3⟩ := h
  have he : e = f := Extent.rank_inj (Prod.ext h1 (Prod.ext h2 h3))
  have hab : a = b := by
    cases a <;> cases b <;>
      simp_all [family, Network.family, Address.family, Family.rank, Address.toNat,
        BitVec.toNat_inj]
  subst hab he hl
  rfl

theorem family_of_admits {p : Pattern} {n : Network} (h : p.admits n = true) :
    p.family = n.family := by
  unfold admits at h
  split at h
  · simp only [decide_eq_true_eq] at h
    simp [family, h]
  all_goals simp_all [Network.covers, family]

example : (parse "10.0.0.0/8\x7b16,24\x7d").toOption.map text = some "10.0.0.0/8\x7b16,24\x7d" := by
  decide +kernel
example : (parse "10.0.0.0/8 \x7b16,24\x7d").toOption = none := by decide +kernel

end Pattern
end Peering
