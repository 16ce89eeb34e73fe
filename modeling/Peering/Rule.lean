import Peering.Error
import Peering.Settings

/-! Rules of a peer: what they match and what they do, with every literal read. -/
namespace Peering

/-- Some value of the list matches, or none does where the condition is negated. -/
structure Condition (α : Type) where
  values : List α
  negated : Bool
  deriving DecidableEq, Repr

structure Edit (α : Type) where
  add : List α
  remove : List α
  deriving DecidableEq, Repr

def Edit.empty {α : Type} : Edit α := ⟨[], []⟩

structure RuleMatch where
  originAsn : Option (Condition UInt32)
  net : Option (Condition Pattern)
  community : Option (Condition Community)
  extendedCommunity : Option (Condition ExtendedCommunity)
  largeCommunity : Option (Condition LargeCommunity)
  deriving DecidableEq, Repr

structure RuleUpdate where
  community : Edit Community
  extendedCommunity : Edit ExtendedCommunity
  largeCommunity : Edit LargeCommunity
  prepend : Option Nat
  deriving DecidableEq, Repr

inductive RuleAction where
  | reject
  | update (u : RuleUpdate)
  deriving DecidableEq, Repr

structure Rule where
  direction : Settings.Direction
  condition : RuleMatch
  action : RuleAction
  deriving DecidableEq, Repr

namespace Condition

def resolve {α : Type} [Literal α] (key : String) :
    Option (Settings.Choice String) → Except Error (Option (Condition α))
  | none => .ok none
  | some c => do return some ⟨← readLiterals key c.values, c.negated⟩

def ofChoice {α : Type} (c : Settings.Choice α) : Condition α := ⟨c.values, c.negated⟩

end Condition

def Edit.resolve {α : Type} [Literal α] (key : String) :
    Option Settings.Edit → Except Error (Edit α)
  | none => .ok .empty
  | some e => do
    let add ← readLiterals s!"{key}.add" e.add
    let remove ← readLiterals s!"{key}.remove" e.remove
    return ⟨add, remove⟩

def RuleMatch.resolve (key : String) (m : Settings.Match) : Except Error RuleMatch := do
  let net ← Condition.resolve s!"{key}.prefix" m.net
  let community ← Condition.resolve s!"{key}.community" m.community
  let extended ← Condition.resolve s!"{key}.extended_community" m.extendedCommunity
  let large ← Condition.resolve s!"{key}.large_community" m.largeCommunity
  return ⟨m.originAsn.map .ofChoice, net, community, extended, large⟩

/-- A rule prepends our ASN one to nine times. -/
def prependCount (key : String) : Option UInt32 → Except Error (Option Nat)
  | none => .ok none
  | some n =>
    if 1 ≤ n ∧ n ≤ 9 then .ok (some n.toNat) else .error (.configuration key (.prependCount n))

def RuleAction.resolve (key : String) : Settings.Action → Except Error RuleAction
  | .reject => .ok .reject
  | .update u => do
    let prepend ← prependCount s!"{key}.prepend" u.prepend
    let community ← Edit.resolve s!"{key}.community" u.community
    let extended ← Edit.resolve s!"{key}.extended_community" u.extendedCommunity
    let large ← Edit.resolve s!"{key}.large_community" u.largeCommunity
    return .update ⟨community, extended, large, prepend⟩

/-- `key` is the place of the rule in the configuration. -/
def Rule.resolve (key : String) (r : Settings.Rule) : Except Error Rule := do
  let condition ← RuleMatch.resolve s!"{key}.matches" r.condition
  let action ← RuleAction.resolve s!"{key}.action" r.action
  return ⟨r.direction, condition, action⟩

end Peering
