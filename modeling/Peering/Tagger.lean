import Peering.Community.LargePattern
import Peering.Error

/-! Tags and patterns of tags under our own ASN. Without an ASN there are none. -/
namespace Peering

structure Tagger where
  asn : Option UInt32
  deriving DecidableEq, Repr

namespace Tagger

def own (t : Tagger) : Except Error UInt32 :=
  t.asn.elim (.error (.configuration "asn" .noOwnAsn)) .ok

def tag (t : Tagger) (k : TagKind) (value : UInt32) : Except Error LargeCommunity := do
  return Tag.encode ⟨← t.own, k, value⟩

def relation (t : Tagger) (r : Relation) : Except Error LargeCommunity := t.tag .relation r.code

def filtered (t : Tagger) (r : Reason) : Except Error LargeCommunity := t.tag .filtered r.code

def pattern (t : Tagger) (function value : Part) : Except Error LargePattern := do
  return ⟨← t.own, function, value⟩

/-- The tags of a kind, with values of a pattern. -/
def kindPattern (t : Tagger) (k : TagKind) (value : Part) : Except Error LargePattern :=
  t.pattern (.exactly k.code) value

def anyPattern (t : Tagger) : Except Error LargePattern := t.pattern .any .any

def actionPattern (t : Tagger) : Except Error LargePattern :=
  t.pattern (.between TagKind.firstAction TagKind.lastAction) .any

/-- The communities under our ASN whose function is no action. -/
def internalPatterns (t : Tagger) : Except Error (List LargePattern) := do
  let below ← t.pattern (.between 0 (TagKind.firstAction - 1)) .any
  let above ← t.pattern (.between (TagKind.lastAction + 1) 4294967295) .any
  return [below, above]

def decode (c : LargeCommunity) : Except Error Tag := (Tag.decode c).mapError (.community c)

end Tagger
end Peering
