import Peering.Document.Decode

/-! Codecs: how values of a type are taken out of a document and put into one. -/
namespace Peering.Document

structure Codec (α : Type) where
  decode : Decoder α
  encode : α → Value

namespace Codec

/-- The value of a whole document. -/
def read {α : Type} (c : Codec α) (bs : List Byte) : Except Problem α := do
  let (v, trailing) := Document.read bs
  let a ← c.decode 0 v
  if trailing then throw .trailing
  return a

def readText {α : Type} (c : Codec α) (s : String) : Except Problem α := c.read (ascii s)

def write {α : Type} (c : Codec α) (a : α) : List Byte := (c.encode a).write

/-- The compact text of a value. -/
def text {α : Type} (c : Codec α) (a : α) : String :=
  (String.fromUTF8? ⟨(c.write a).toArray⟩).getD ""

def bool : Codec Bool where
  decode _ v :=
    match v with
    | .bool b => .ok b
    | v => .error (v.unexpected "a boolean")
  encode := .bool

def u32 : Codec UInt32 where
  decode _ v :=
    match v with
    | .number n => do
      match ← n.read with
      | .integer i =>
        if 0 ≤ i ∧ i.toNat < UInt32.size then return UInt32.ofNat i.toNat
        else throw (.outOfRange i "u32")
      | .real negative x => throw (.wrongKind (.real negative x) "u32")
    | v => .error (v.unexpected "u32")
  encode n := .number (.ofNat n.toNat)

/-- A text with a meaning of its own, which `parse` reads. -/
def parsed {α : Type} (wanted : String) (parse : String → Except Problem α) (print : α → String) :
    Codec α where
  decode _ v :=
    match v with
    | .text q => do parse (← q.read)
    | v => .error (v.unexpected wanted)
  encode a := .text (.ofText (print a))

def string : Codec String := parsed "a string" .ok id

def address4 : Codec Address4 :=
  parsed "IPv4 address" (fun s => (Address.parse4? s).elim (.error (.badAddress .v4)) .ok)
    fun a => (Address.v4 a).text

def address6 : Codec Address6 :=
  parsed "IPv6 address" (fun s => (Address.parse6? s).elim (.error (.badAddress .v6)) .ok)
    fun a => (Address.v6 a).text

def largeCommunity : Codec LargeCommunity :=
  parsed "a string"
    (fun s => (LargeCommunity.parse? s).elim (.error (.literal s .largeCommunity)) .ok)
    LargeCommunity.colonText

def option {α : Type} (c : Codec α) : Codec (Option α) where
  decode depth v :=
    match v with
    | .null => .ok none
    | v => (c.decode depth v).map some
  encode a := a.elim .null c.encode

def list {α : Type} (c : Codec α) : Codec (List α) where
  decode depth v :=
    match v with
    | .list items ending => do
      let as ← items.mapM (c.decode (depth + 1))
      ending.ofList
      return as
    | v => .error (v.unexpected "a sequence")
  encode as := .list (as.map c.encode) .closed

/-- A value among several that have names. -/
def variant {α : Type} (known : List (String × α)) (name : α → String) : Codec α where
  decode _ v :=
    match v with
    | .text q => do pick (← q.read)
    | .object [] (.notKey rest) => .error ((readValue rest).1.unexpected "variant identifier")
    | .object [] .cut => .error .endInValue
    | .object [] _ => .error .noValue
    | .object ((k, v) :: ms) ending => do
      let a ← pick (← k.read)
      match v with
      | .null => pure ()
      | v => throw (v.unexpected "unit")
      match ms, ending with
      | [], .closed => return a
      | [], .cut => throw .endInObject
      | _, _ => throw .noValue
    | .fault .nothing => .error .endInValue
    | .fault .noColon => .error .noColon
    | .fault .nothingBeforeColon => .error .endInObject
    | _ => .error .noValue
  encode a := .text (.ofText (name a))
where
  pick (s : String) : Except Problem α :=
    match known.lookup s with
    | some a => .ok a
    | none => .error (.unknownVariant s (known.map (·.1)))

/-- Puts an entry into its place in a list that is ordered by key, over an older one of its key. -/
def insertEntry {κ α : Type} [DecidableEq κ] (before : κ → κ → Bool) (k : κ) (a : α) :
    List (κ × α) → List (κ × α)
  | [] => [(k, a)]
  | (l, b) :: es =>
    if k = l then (k, a) :: es
    else if before k l then (k, a) :: (l, b) :: es
    else (l, b) :: insertEntry before k a es

/-- Entries in the order of their keys. -/
def map {κ α : Type} [DecidableEq κ] (readKey : Quoted → Except Problem κ) (writeKey : κ → String)
    (before : κ → κ → Bool) (c : Codec α) : Codec (List (κ × α)) where
  decode depth v :=
    match v with
    | .object members ending => do
      let entries ← members.foldlM (fun es (k, v) => do
        let k ← readKey k
        let a ← c.decode (depth + 1) v
        return insertEntry before k a es) []
      ending.ofObject
      return entries
    | v => .error (v.unexpected "a map")
  encode es := .object (es.map fun (k, a) => (.ofText (writeKey k), c.encode a)) .closed

def textMap {α : Type} (c : Codec α) : Codec (List (String × α)) :=
  map Quoted.read id (fun s t => decide (s < t)) c

/-- A number in quotes. What follows the number has to be the closing quote. -/
def numberKey (q : Quoted) : Except Problem UInt32 :=
  let bs := q.raw ++ (if q.closed then [0x22] else [])
  match bs with
  | b :: _ =>
    if b = 0x2d || isDigit b then do
      let (n, left) := readNumber bs
      let k ← u32.decode 0 (.number n)
      if left = some [0x22] then return k else throw .keyUnclosed
    else .error .keyNotNumber
  | [] => .error .keyNotNumber

def numberMap {α : Type} (c : Codec α) : Codec (List (UInt32 × α)) :=
  map numberKey (fun n => toString n.toNat) (fun m n => decide (m < n)) c

end Codec
end Peering.Document
