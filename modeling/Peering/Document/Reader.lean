import Peering.Document.Value

/-! Reading a document: every function gives what it read and what is left, or no rest where a fault
stops the reading. -/
namespace Peering.Document

def isBlank (b : Byte) : Bool := b = 0x20 || b = 0x09 || b = 0x0a || b = 0x0d

def isDigit (b : Byte) : Bool := 0x30 ≤ b && b ≤ 0x39

def skipBlanks (bs : List Byte) : List Byte := bs.dropWhile isBlank

def ascii (s : String) : List Byte := s.toUTF8.toList

/-- Up to the closing quote. After a backslash one byte is passed over, after `\u` four more. -/
def readQuoted : List Byte → Quoted × Option (List Byte)
  | [] => (⟨[], false⟩, none)
  | 0x22 :: rest => (⟨[], true⟩, some rest)
  | 0x5c :: 0x75 :: a :: b :: c :: d :: rest =>
    let (q, left) := readQuoted rest
    (⟨0x5c :: 0x75 :: a :: b :: c :: d :: q.raw, q.closed⟩, left)
  | 0x5c :: 0x75 :: rest => (⟨0x5c :: 0x75 :: rest, false⟩, none)
  | 0x5c :: a :: rest =>
    let (q, left) := readQuoted rest
    (⟨0x5c :: a :: q.raw, q.closed⟩, left)
  | b :: rest =>
    let (q, left) := readQuoted rest
    (⟨b :: q.raw, q.closed⟩, left)

/-- The fault of a number that lacks a digit in front of the rest. -/
def missingDigit (rest : List Byte) : NumberFault :=
  if rest = [] then .cut else .malformed

def readExponent (n : Numeral) (bs : List Byte) : Numeral × Option (List Byte) :=
  let (minus, bs) :=
    match bs with
    | 0x2b :: bs => (false, bs)
    | 0x2d :: bs => (true, bs)
    | _ => (false, bs)
  let ds := bs.takeWhile isDigit
  let rest := bs.dropWhile isDigit
  if ds = [] then ({ n with fault := some (missingDigit rest) }, none)
  else ({ n with exponent := some (minus, ds) }, some rest)

/-- The rest of a number behind its whole part. -/
def readScale (n : Numeral) : List Byte → Numeral × Option (List Byte)
  | 0x2e :: bs =>
    let ds := bs.takeWhile isDigit
    let rest := bs.dropWhile isDigit
    if ds = [] then ({ n with fault := some (missingDigit rest) }, none)
    else
      let n := { n with fraction := some ds }
      match rest with
      | 0x65 :: bs | 0x45 :: bs => readExponent n bs
      | _ => (n, some rest)
  | 0x65 :: bs | 0x45 :: bs => readExponent n bs
  | bs => (n, some bs)

/-- A number behind its sign. A zero in front is the whole of the whole part. -/
def readUnsigned (negative : Bool) (bs : List Byte) : Numeral × Option (List Byte) :=
  let n : Numeral := ⟨negative, [], none, none, none⟩
  let ds := bs.takeWhile isDigit
  let rest := bs.dropWhile isDigit
  match ds with
  | [] => ({ n with fault := some (missingDigit rest) }, none)
  | 0x30 :: _ :: _ => ({ n with fault := some .malformed }, none)
  | ds => readScale { n with whole := ds } rest

def readNumber : List Byte → Numeral × Option (List Byte)
  | 0x2d :: bs => readUnsigned true bs
  | bs => readUnsigned false bs

/-- The rest of a word whose first letter is known. -/
def readWord (v : Value) : (letters bs : List Byte) → Value × Option (List Byte)
  | [], bs => (v, some bs)
  | _ :: _, [] => (.fault .wordCut, none)
  | l :: letters, b :: bs => if b = l then readWord v letters bs else (.fault .wordWrong, none)

mutual

/-- One value; `fuel` bounds the number of steps and is enough when it is twice the length. -/
def readValueWith : (fuel : Nat) → List Byte → Value × Option (List Byte)
  | 0, _ => (.fault .nothing, none)
  | fuel + 1, bs =>
    match skipBlanks bs with
    | [] => (.fault .nothing, none)
    | 0x6e :: rest => readWord .null (ascii "ull") rest
    | 0x74 :: rest => readWord (.bool true) (ascii "rue") rest
    | 0x66 :: rest => readWord (.bool false) (ascii "alse") rest
    | 0x22 :: rest =>
      let (q, left) := readQuoted rest
      (.text q, left)
    | 0x5b :: rest =>
      let (items, ending, left) := readItems fuel true rest
      (.list items ending, left)
    | 0x7b :: rest =>
      let (members, ending, left) := readMembers fuel true rest
      (.object members ending, left)
    | b :: rest =>
      if b = 0x2d || isDigit b then
        let (n, left) := readNumber (b :: rest)
        (.number n, left)
      else (.fault .notValue, none)

/-- The elements of a list up to its closing bracket. -/
def readItems : (fuel : Nat) → (first : Bool) → List Byte → List Value × Ending × Option (List Byte)
  | 0, _, _ => ([], .cut, none)
  | fuel + 1, first, bs =>
    let element (bs : List Byte) : List Value × Ending × Option (List Byte) :=
      match readValueWith fuel bs with
      | (v, none) => ([v], .cut, none)
      | (v, some rest) =>
        let (vs, ending, left) := readItems fuel false rest
        (v :: vs, ending, left)
    match skipBlanks bs with
    | [] => ([], .cut, none)
    | 0x5d :: rest => ([], .closed, some rest)
    | b :: rest =>
      if first then element (b :: rest)
      else if b = 0x2c then
        match skipBlanks rest with
        | [] => ([], .cutAfterComma, none)
        | 0x5d :: _ => ([], .comma, none)
        | rest => element rest
      else ([], .unseparated, none)

/-- The members of an object up to its closing bracket. -/
def readMembers : (fuel : Nat) → (first : Bool) → List Byte →
    List (Quoted × Value) × Ending × Option (List Byte)
  | 0, _, _ => ([], .cut, none)
  | fuel + 1, first, bs =>
    let member (bs : List Byte) : List (Quoted × Value) × Ending × Option (List Byte) :=
      match readQuoted bs with
      | (k, none) => ([(k, .fault .nothing)], .cut, none)
      | (k, some rest) =>
        match skipBlanks rest with
        | [] => ([(k, .fault .nothingBeforeColon)], .cut, none)
        | 0x3a :: rest =>
          match readValueWith fuel rest with
          | (v, none) => ([(k, v)], .cut, none)
          | (v, some rest) =>
            let (ms, ending, left) := readMembers fuel false rest
            ((k, v) :: ms, ending, left)
        | _ => ([(k, .fault .noColon)], .cut, none)
    match skipBlanks bs with
    | [] => ([], .cut, none)
    | 0x7d :: rest => ([], .closed, some rest)
    | b :: rest =>
      if first then
        if b = 0x22 then member rest else ([], .notKey (b :: rest), none)
      else if b = 0x2c then
        match skipBlanks rest with
        | [] => ([], .cutAfterComma, none)
        | 0x7d :: _ => ([], .comma, none)
        | 0x22 :: rest => member rest
        | rest => ([], .notKey rest, none)
      else ([], .unseparated, none)

end

def readValue (bs : List Byte) : Value × Option (List Byte) :=
  readValueWith (2 * bs.length + 2) bs

/-- The value of a document, and whether anything but white space follows it. -/
def read (bs : List Byte) : Value × Bool :=
  match readValue bs with
  | (v, none) => (v, false)
  | (v, some rest) => (v, skipBlanks rest ≠ [])

end Peering.Document
