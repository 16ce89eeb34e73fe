import Peering.Document.Escape
import Peering.Document.Number

/-! The common part of taking values out of a document. -/
namespace Peering.Document

/-- Takes a value out of a document, given how many lists and objects are open around it. -/
abbrev Decoder (α : Type) := Nat → Value → Except Problem α

/-- The number of lists and objects that may be open at a time. -/
def deepest : Nat := 127

def Fault.problem : Fault → Problem
  | nothing => .endInValue
  | notValue => .noValue
  | wordCut => .endInValue
  | wordWrong => .noWord
  | noColon => .noColon
  | nothingBeforeColon => .endInObject

namespace Ending

/-- The end of a list all of whose elements were taken. -/
def ofList : Ending → Except Problem Unit
  | closed => .ok ()
  | cut => .error .endInList
  | cutAfterComma => .error .endInValue
  | comma => .error .trailingComma
  | unseparated | notKey _ => .error .noCommaInList

def ofObject : Ending → Except Problem Unit
  | closed => .ok ()
  | cut => .error .endInObject
  | cutAfterComma => .error .endInValue
  | comma => .error .trailingComma
  | unseparated => .error .noCommaInObject
  | notKey _ => .error .keyNotText

/-- The end of a list that is passed over. -/
def skipList : Ending → Except Problem Unit
  | closed => .ok ()
  | cut => .error .endInList
  | cutAfterComma => .error .endInValue
  | comma => .error .noValue
  | unseparated | notKey _ => .error .noCommaInList

def skipObject : Ending → Except Problem Unit
  | closed => .ok ()
  | cut | cutAfterComma => .error .endInObject
  | comma | notKey _ => .error .keyNotText
  | unseparated => .error .noCommaInObject

end Ending

namespace Value

/-- Why a value is not what is wanted in its place. A value with a fault shows that instead, but
nobody looks into a list or an object. -/
def unexpected (wanted : String) : Value → Problem
  | null => .wrongKind .null wanted
  | bool b => .wrongKind (.bool b) wanted
  | number n =>
    match n.read with
    | .ok (.integer i) => .wrongKind (.integer i) wanted
    | .ok (.real negative x) => .wrongKind (.real negative x) wanted
    | .error p => p
  | text q =>
    match q.read with
    | .ok s => .wrongKind (.text s) wanted
    | .error p => p
  | list _ _ => .wrongKind .sequence wanted
  | object _ _ => .wrongKind .map wanted
  | fault f => f.problem

/-- Passes over a value that nobody wants. -/
def skip : Value → Except Problem Unit
  | null | bool _ => .ok ()
  | number n => n.skip
  | text q => Quoted.skip q.closed q.raw
  | list items ending => do
    skipItems items
    ending.skipList
  | object members ending => do
    skipMembers members
    ending.skipObject
  | fault f => .error f.problem
where
  skipItems : List Value → Except Problem Unit
    | [] => .ok ()
    | v :: vs => do
      skip v
      skipItems vs
  skipMembers : List (Quoted × Value) → Except Problem Unit
    | [] => .ok ()
    | (k, v) :: ms => do
      Quoted.skip k.closed k.raw
      skip v
      skipMembers ms

/-- Takes in a value of any kind, without a use for it yet. -/
def survey (depth : Nat) : Value → Except Problem Unit
  | null | bool _ => .ok ()
  | number n => do
    let _ ← n.read
  | text q => do
    let _ ← q.read
  | list items ending =>
    if depth = deepest then .error .tooDeep
    else do
      surveyItems (depth + 1) items
      ending.ofList
  | object members ending =>
    if depth = deepest then .error .tooDeep
    else do
      surveyMembers (depth + 1) members
      ending.ofObject
  | fault f => .error f.problem
where
  surveyItems (depth : Nat) : List Value → Except Problem Unit
    | [] => .ok ()
    | v :: vs => do
      survey depth v
      surveyItems depth vs
  surveyMembers (depth : Nat) : List (Quoted × Value) → Except Problem Unit
    | [] => .ok ()
    | (k, v) :: ms => do
      let _ ← k.read
      survey depth v
      surveyMembers depth ms

/-- The value as a compact text. Faults, which have no text, leave a gap. -/
def write : Value → List Byte
  | null => ascii "null"
  | bool b => ascii (if b then "true" else "false")
  | number n => writeNumber n
  | text q => writeQuoted q
  | list items _ => 0x5b :: writeItems items ++ [0x5d]
  | object members _ => 0x7b :: writeMembers members ++ [0x7d]
  | fault _ => []
where
  writeNumber (n : Numeral) : List Byte :=
    let minus (b : Bool) : List Byte := if b then [0x2d] else []
    minus n.negative ++ n.whole ++ (n.fraction.elim [] fun ds => 0x2e :: ds) ++
      (n.exponent.elim [] fun (b, ds) => 0x65 :: minus b ++ ds)
  writeQuoted (q : Quoted) : List Byte := 0x22 :: q.raw ++ [0x22]
  writeItems : List Value → List Byte
    | [] => []
    | [v] => write v
    | v :: vs => write v ++ 0x2c :: writeItems vs
  writeMembers : List (Quoted × Value) → List Byte
    | [] => []
    | [(k, v)] => writeQuoted k ++ 0x3a :: write v
    | (k, v) :: ms => writeQuoted k ++ 0x3a :: write v ++ 0x2c :: writeMembers ms

end Value
end Peering.Document
