/-!
JSON documents as they stand in a text. A document is kept as far as it can be read: where the text
ends too early or goes against the grammar, the value there says so, and nothing after it is read.
Whoever reads a value in document order meets the first fault of the document first.
-/
namespace Peering.Document

abbrev Byte := UInt8

/-- How a number goes wrong: the text ends inside it, or something stands there that cannot. -/
inductive NumberFault where
  | cut | malformed
  deriving DecidableEq, Repr

/-- A number as written. Digits are kept as bytes. -/
structure Numeral where
  negative : Bool
  whole : List Byte
  fraction : Option (List Byte)
  /-- Whether the exponent has a minus sign, and its digits. -/
  exponent : Option (Bool × List Byte)
  fault : Option NumberFault
  deriving DecidableEq, Repr

/-- A quoted text as written: the bytes after the opening quote, and whether a closing quote follows
them. -/
structure Quoted where
  raw : List Byte
  closed : Bool
  deriving DecidableEq, Repr

/-- What stands where a value should. -/
inductive Fault where
  /-- The text ends. -/
  | nothing
  /-- No value starts like that. -/
  | notValue
  /-- The text ends inside `null`, `true` or `false`. -/
  | wordCut
  | wordWrong
  /-- After a key: no colon, or the end of the text. -/
  | noColon
  | nothingBeforeColon
  deriving DecidableEq, Repr

/-- How a list or an object ends. -/
inductive Ending where
  | closed
  /-- The text ends where a comma or the closing bracket is due. -/
  | cut
  /-- The text ends after a comma. -/
  | cutAfterComma
  /-- The closing bracket stands right after a comma. -/
  | comma
  /-- Neither a comma nor the closing bracket follows an element. -/
  | unseparated
  /-- Something else stands where a key is due; it is kept unread. -/
  | notKey (rest : List Byte)
  deriving DecidableEq, Repr

inductive Value where
  | null
  | bool (b : Bool)
  | number (n : Numeral)
  | text (q : Quoted)
  | list (items : List Value) (ending : Ending)
  | object (members : List (Quoted × Value)) (ending : Ending)
  | fault (f : Fault)
  deriving Repr

end Peering.Document
