import Peering.Decimal.Shortest
import Peering.Literal
import Peering.Text.Quoted

/-! Why a document is refused: problems of its grammar, then problems of what it holds. -/
namespace Peering.Document
open Decimal

/-- What a document holds where something else is wanted. -/
inductive Found where
  | null
  | bool (b : Bool)
  | integer (n : Int)
  | real (negative : Bool) (magnitude : Binary64)
  | text (s : String)
  | sequence
  | map
  deriving DecidableEq, Repr

/-- Reals are positional while the exponent of the leading digit lies between -5 and 15. -/
def realLayout : Layout := ⟨-5, 15⟩

def Found.describe : Found → String
  | .null => "null"
  | .bool b => s!"boolean `{b}`"
  | .integer n => s!"integer `{n}`"
  | .real negative x =>
    let sign := if negative then "-" else ""
    s!"floating point `{sign}{x.shortest.text realLayout}`"
  | .text s => s!"string {Text.quote s}"
  | .sequence => "sequence"
  | .map => "map"

inductive Problem where
  | endInValue | endInList | endInObject | endInString
  | noValue | noWord | noColon | noCommaInObject | noCommaInList
  | keyNotText | trailingComma | trailing
  | badNumber | hugeNumber
  | badEscape | endInSurrogate | loneSurrogate | controlCharacter | badCodePoint
  | tooDeep
  | keyNotNumber | keyUnclosed
  | missing (field : String)
  | repeated (field : String)
  | unknownField (field : String) (known : List String)
  | unknownVariant (variant : String) (known : List String)
  | wrongKind (found : Found) (wanted : String)
  | outOfRange (n : Int) (wanted : String)
  | wrongLength (length : Nat) (name : String) (size : Nat)
  | noMatch (type : String)
  | badAddress (family : Family)
  | literal (text : String) (fault : LiteralFault)
  deriving DecidableEq, Repr

/-- One name, two with "or", or a list. -/
def alternatives (names : List String) : String :=
  match names.map fun n => s!"`{n}`" with
  | [a] => a
  | [a, b] => s!"{a} or {b}"
  | names => "one of " ++ ", ".intercalate names

def Problem.message : Problem → String
  | endInValue => "EOF while parsing a value"
  | endInList => "EOF while parsing a list"
  | endInObject => "EOF while parsing an object"
  | endInString => "EOF while parsing a string"
  | noValue => "expected value"
  | noWord => "expected ident"
  | noColon => "expected `:`"
  | noCommaInObject => "expected `,` or `\x7d`"
  | noCommaInList => "expected `,` or `]`"
  | keyNotText => "key must be a string"
  | trailingComma => "trailing comma"
  | trailing => "trailing characters"
  | badNumber => "invalid number"
  | hugeNumber => "number out of range"
  | badEscape => "invalid escape"
  | endInSurrogate => "unexpected end of hex escape"
  | loneSurrogate => "lone leading surrogate in hex escape"
  | controlCharacter => "control character (\\u0000-\\u001F) found while parsing a string"
  | badCodePoint => "invalid unicode code point"
  | tooDeep => "recursion limit exceeded"
  | keyNotNumber => "invalid value: expected key to be a number in quotes"
  | keyUnclosed => "expected `\"`"
  | missing f => s!"missing field `{f}`"
  | repeated f => s!"duplicate field `{f}`"
  | unknownField f known => s!"unknown field `{f}`, expected {alternatives known}"
  | unknownVariant v known => s!"unknown variant `{v}`, expected {alternatives known}"
  | wrongKind found wanted => s!"invalid type: {found.describe}, expected {wanted}"
  | outOfRange n wanted => s!"invalid value: integer `{n}`, expected {wanted}"
  | wrongLength n name size =>
    let elements := if size = 1 then "element" else "elements"
    s!"invalid length {n}, expected struct {name} with {size} {elements}"
  | noMatch type => s!"data did not match any variant of untagged enum {type}"
  | badAddress .v4 => "invalid IPv4 address syntax"
  | badAddress .v6 => "invalid IPv6 address syntax"
  | literal s f => f.message s

end Peering.Document
