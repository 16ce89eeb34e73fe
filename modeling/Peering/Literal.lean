import Peering.Community
import Peering.Pattern

/-! The kinds of values that a configuration spells as text: communities and patterns. -/
namespace Peering

/-- Why a text is not the literal it should be. -/
inductive LiteralFault where
  | community
  | extendedCommunity
  | largeCommunity
  | pattern (fault : Pattern.Fault)
  deriving DecidableEq, Repr

def LiteralFault.message (s : String) : LiteralFault → String
  | .community => s!"malformed community `{s}`"
  | .extendedCommunity => s!"malformed extended community `{s}`"
  | .largeCommunity => s!"malformed large community `{s}`"
  | .pattern f => f.message s

class Literal (α : Type) where
  read : String → Except LiteralFault α
  write : α → String

instance : Literal Community where
  read s := (Community.parse? s).elim (.error .community) .ok
  write := Community.text

instance : Literal ExtendedCommunity where
  read s := (ExtendedCommunity.parse? s).elim (.error .extendedCommunity) .ok
  write := ExtendedCommunity.text

instance : Literal LargeCommunity where
  read s := (LargeCommunity.parse? s).elim (.error .largeCommunity) .ok
  write := LargeCommunity.text

instance : Literal Pattern where
  read s := (Pattern.parse s).mapError .pattern
  write := Pattern.text

end Peering
