import Peering.Document.Codec

/-!
Records: objects with named fields, each at most once and in any order. A record may also be written
as the list of its fields.
-/
namespace Peering.Document

/-- What becomes of a field that is not there. -/
inductive Absent (α : Type) where
  | required
  /-- It has this value, but only in an object. -/
  | optional (a : α)
  | standard (a : α)

structure Field where
  {α : Type}
  name : String
  codec : Codec α
  absent : Absent α

namespace Field

def needed {α : Type} (name : String) (c : Codec α) : Field := ⟨name, c, .required⟩

/-- A field that may be missing or null. -/
def maybe {α : Type} (name : String) (c : Codec α) : Field := ⟨name, c.option, .optional none⟩

/-- A field that may be missing. -/
def orElse {α : Type} (name : String) (c : Codec α) (a : α) : Field := ⟨name, c, .standard a⟩

end Field

/-- A value for every field. -/
def Values : List Field → Type
  | [] => Unit
  | f :: fs => f.α × Values fs

/-- The values read so far. -/
def Slots : List Field → Type
  | [] => Unit
  | f :: fs => Option f.α × Slots fs

namespace Slots

def empty : (fs : List Field) → Slots fs
  | [] => ()
  | _ :: fs => (none, empty fs)

/-- Reads a value into the slot of its key; nothing when no field has that key. -/
def put (depth : Nat) (key : String) (v : Value) :
    {fs : List Field} → Slots fs → Option (Except Problem (Slots fs))
  | [], _ => none
  | f :: _, (slot, slots) =>
    if f.name = key then
      some do
        if slot.isSome then throw (.repeated key)
        let a ← f.codec.decode depth v
        return (some a, slots)
    else (put depth key v slots).map fun r => r.map fun slots => (slot, slots)

/-- Reads the members of an object in their order. An unknown member is an error, or is passed over
where the record is `lenient`. -/
def fill (lenient : Bool) (depth : Nat) {fs : List Field} :
    List (Quoted × Value) → Slots fs → Except Problem (Slots fs)
  | [], slots => .ok slots
  | (k, v) :: ms, slots => do
    let key ← k.read
    match put depth key v slots with
    | some r => fill lenient depth ms (← r)
    | none =>
      if lenient then v.skip else throw (.unknownField key (fs.map (·.name)))
      fill lenient depth ms slots

/-- The values of an object. The first required field without one is missed. -/
def finish : {fs : List Field} → Slots fs → Except Problem (Values fs)
  | [], _ => .ok ()
  | f :: _, (slot, slots) => do
    let a ← match slot, f.absent with
      | some a, _ => pure a
      | none, .optional a | none, .standard a => pure a
      | none, .required => throw (.missing f.name)
    let as ← finish slots
    return (a, as)

end Slots

namespace Values

/-- The values of a list form, with the elements left over. `wrongLength` is the error of a list of
the given length. -/
def ofItems (depth : Nat) (wrongLength : Nat → Problem) (ending : Ending) :
    (fs : List Field) → (taken : Nat) → List Value → Except Problem (Values fs × List Value)
  | [], _, vs => .ok ((), vs)
  | f :: fs, taken, v :: vs => do
    let a ← f.codec.decode depth v
    let (as, rest) ← ofItems depth wrongLength ending fs (taken + 1) vs
    return ((a, as), rest)
  | f :: fs, taken, [] => do
    ending.ofList
    match f.absent with
    | .standard a =>
      let (as, rest) ← ofItems depth wrongLength ending fs (taken + 1) []
      return ((a, as), rest)
    | .required | .optional _ => throw (wrongLength taken)

/-- The end of a list form whose fields are all read. -/
def closeItems : List Value → Ending → Except Problem Unit
  | [], .closed => .ok ()
  | [], .cut => .error .endInList
  | [], .comma => .error .trailingComma
  | _, _ => .error .trailing

def members : {fs : List Field} → Values fs → List (Quoted × Value)
  | [], _ => []
  | f :: _, (a, as) => (.ofText f.name, f.codec.encode a) :: members as

end Values

structure Record (α : Type) where
  name : String
  fields : List Field
  lenient : Bool
  build : Values fields → α
  parts : α → Values fields

namespace Record

def ofMembers {α : Type} (r : Record α) (depth : Nat) (members : List (Quoted × Value))
    (ending : Ending) : Except Problem α := do
  let slots ← (Slots.empty r.fields).fill r.lenient (depth + 1) members
  ending.ofObject
  return r.build (← slots.finish)

def ofItems {α : Type} (r : Record α) (depth : Nat) (items : List Value) (ending : Ending) :
    Except Problem α := do
  let wrongLength n := Problem.wrongLength n r.name r.fields.length
  let (as, rest) ← Values.ofItems (depth + 1) wrongLength ending r.fields 0 items
  Values.closeItems rest ending
  return r.build as

def codec {α : Type} (r : Record α) : Codec α where
  decode depth v :=
    match v with
    | .list items ending => r.ofItems depth items ending
    | .object members ending => r.ofMembers depth members ending
    | v => .error (v.unexpected s!"struct {r.name}")
  encode a := .object (r.parts a).members .closed

end Record
end Peering.Document
