import Peering.Document.Problem
import Peering.Role

/-! Why a configuration is refused. Everything is refused before any output is made. -/
namespace Peering

inductive Cause where
  | document (problem : Document.Problem)
  /-- A tag was asked for before our own ASN was known. -/
  | noOwnAsn
  | reservedAsn
  | badOriginate (text : String)
  | originateHostBits (text : String) (net : Network)
  | badPeerName
  | noNeighbor
  | reflectorAsn (own : UInt32)
  | foreignAsn (role : Role) (own : UInt32)
  | noClusterId (peer : String) (role : Role)
  | acceptedDefault (role : Role)
  | importOff (flag : String)
  | redistributedDefault (role : Role)
  | unresolved (object : String)
  | prependCount (count : UInt32)
  | literal (text : String) (fault : LiteralFault)
  deriving DecidableEq, Repr

def Cause.message : Cause → String
  | document p => p.message
  | noOwnAsn => "own ASN referenced before the session ASN was set"
  | reservedAsn => "AS 0 is reserved"
  | badOriginate s => s!"{s}: invalid IP address syntax"
  | originateHostBits s n => s!"{s} has host bits set, did you mean {n.truncate.text}?"
  | badPeerName => "peer names may only contain lowercase letters, digits and underscores"
  | noNeighbor => "at least one of neighbor4 and neighbor6 must be set"
  | reflectorAsn own => s!"route reflector sessions must use our own AS{own.toNat}"
  | foreignAsn r own => s!"peers of type {r.name} may not use our own AS{own.toNat}"
  | noClusterId peer r => s!"peer `{peer}` of type {r.name} requires a cluster_id"
  | acceptedDefault r => s!"peers of type {r.name} may not send us a default route"
  | importOff flag => s!"requires {flag} to be enabled"
  | redistributedDefault r => s!"a default route may not be sent to peers of type {r.name}"
  | unresolved object => s!"IRR object {object} has not been resolved"
  | prependCount n => s!"prepend count {n.toNat} outside 1..=9"
  | literal s f => f.message s

/-- An error of the configuration names the key it was found at. -/
inductive Error where
  | configuration (key : String) (cause : Cause)
  | community (c : LargeCommunity) (fault : TagFault)
  deriving DecidableEq, Repr

namespace Error

def message : Error → String
  | configuration key cause => s!"configuration error in `{key}`: {cause.message}"
  | community c fault => s!"invalid community {c.text}: {fault.message}"

end Error

/-- Reads literals in order; the first that fails is reported at `key`. -/
def readLiterals {α : Type} [Literal α] (key : String) (texts : List String) :
    Except Error (List α) :=
  texts.mapM fun s => (Literal.read s).mapError fun f => .configuration key (.literal s f)

end Peering
