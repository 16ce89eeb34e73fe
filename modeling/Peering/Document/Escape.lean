import Peering.Document.Problem
import Peering.Document.Reader

/-! What a quoted text says, and how a text is quoted. -/
namespace Peering.Document

def hexValue (b : Byte) : Option Nat :=
  if 0x30 ≤ b && b ≤ 0x39 then some (b.toNat - 0x30)
  else if 0x61 ≤ b && b ≤ 0x66 then some (b.toNat - 0x57)
  else if 0x41 ≤ b && b ≤ 0x46 then some (b.toNat - 0x37)
  else none

/-- The unit of four hexadecimal digits. -/
def unit (a b c d : Byte) : Except Problem Nat :=
  match hexValue a, hexValue b, hexValue c, hexValue d with
  | some a, some b, some c, some d => .ok (((a * 16 + b) * 16 + c) * 16 + d)
  | _, _, _, _ => .error .badEscape

def isLeading (n : Nat) : Bool := 0xd800 ≤ n && n ≤ 0xdbff
def isTrailing (n : Nat) : Bool := 0xdc00 ≤ n && n ≤ 0xdfff

/-- The byte that a backslash and a letter stand for. -/
def simpleEscape (b : Byte) : Option Byte :=
  match b with
  | 0x22 => some 0x22
  | 0x5c => some 0x5c
  | 0x2f => some 0x2f
  | 0x62 => some 0x08
  | 0x66 => some 0x0c
  | 0x6e => some 0x0a
  | 0x72 => some 0x0d
  | 0x74 => some 0x09
  | _ => none

def encodeUnit (n : Nat) : List Byte := String.utf8EncodeChar (Char.ofNat n)

/-- The bytes that a quoted text stands for. A leading surrogate needs a trailing one right after
it. -/
def Quoted.unescape (closed : Bool) : List Byte → Except Problem (List Byte)
  | [] => if closed then .ok [] else .error .endInString
  | 0x5c :: 0x75 :: a :: b :: c :: d :: rest => do
    let n ← unit a b c d
    if isTrailing n then .error .loneSurrogate
    else if isLeading n then
      match rest with
      | 0x5c :: 0x75 :: e :: f :: g :: h :: rest => do
        let m ← unit e f g h
        if isTrailing m then
          return encodeUnit ((n - 0xd800) * 0x400 + (m - 0xdc00) + 0x10000) ++
            (← Quoted.unescape closed rest)
        else .error .loneSurrogate
      | [] => .error (if closed then .endInSurrogate else .endInString)
      | [0x5c] | 0x5c :: 0x75 :: _ => .error .endInString
      | _ => .error .endInSurrogate
    else return encodeUnit n ++ (← Quoted.unescape closed rest)
  | 0x5c :: 0x75 :: _ => .error .endInString
  | 0x5c :: a :: rest =>
    match simpleEscape a with
    | some b => return b :: (← Quoted.unescape closed rest)
    | none => .error .badEscape
  | [0x5c] => .error .endInString
  | b :: rest =>
    if b < 0x20 then .error .controlCharacter else return b :: (← Quoted.unescape closed rest)

/-- The text that stands between the quotes. -/
def Quoted.read (q : Quoted) : Except Problem String := do
  let bytes ← Quoted.unescape q.closed q.raw
  match String.fromUTF8? ⟨bytes.toArray⟩ with
  | some s => return s
  | none => throw .badCodePoint

/-- Passes over a quoted text that nobody wants: its escapes are checked, what they stand for is
not. -/
def Quoted.skip (closed : Bool) : List Byte → Except Problem Unit
  | [] => if closed then .ok () else .error .endInString
  | 0x5c :: 0x75 :: a :: b :: c :: d :: rest => do
    let _ ← unit a b c d
    Quoted.skip closed rest
  | 0x5c :: 0x75 :: _ => .error .endInString
  | 0x5c :: a :: rest =>
    if (simpleEscape a).isSome then Quoted.skip closed rest else .error .badEscape
  | [0x5c] => .error .endInString
  | b :: rest => if b < 0x20 then .error .controlCharacter else Quoted.skip closed rest

def hexByte (n : Nat) : Byte := if n < 10 then (0x30 + n).toUInt8 else (0x57 + n).toUInt8

/-- One byte of a text, escaped where a quoted text needs it. -/
def escapeByte (b : Byte) : List Byte :=
  match b with
  | 0x22 => [0x5c, 0x22]
  | 0x5c => [0x5c, 0x5c]
  | 0x08 => [0x5c, 0x62]
  | 0x0c => [0x5c, 0x66]
  | 0x0a => [0x5c, 0x6e]
  | 0x0d => [0x5c, 0x72]
  | 0x09 => [0x5c, 0x74]
  | b =>
    if b < 0x20 then [0x5c, 0x75, 0x30, 0x30, hexByte (b.toNat / 16), hexByte (b.toNat % 16)]
    else [b]

def Quoted.ofText (s : String) : Quoted := ⟨s.toUTF8.toList.flatMap escapeByte, true⟩

example : (Quoted.mk (ascii "\\ud83d\\ude00\\u00e9") true).read = .ok "😀é" := by cbv
example : (Quoted.mk (ascii "\\ud83d\\u0041") true).read = .error .loneSurrogate := by cbv
example : (Quoted.mk (ascii "\\ud83d") true).read = .error .endInSurrogate := by cbv
example : (Quoted.mk [0x41, 0xc3, 0x28] true).read = .error .badCodePoint := by cbv

end Peering.Document
