import LavMachine.Gbk.Table
import LavMachine.LittleEndian
set_option autoImplicit false

/-!
GBK text, the character set of the programs. Reading also takes the four-byte forms, and a sequence
that stands for nothing reads as the replacement character. Writing knows one and two bytes only; a
character without such a form is written as a numeric reference.
-/
namespace LavMachine.Gbk

def symbols : Array (Array Char) := symbolRows.map fun row => row.toList.toArray

def extraSymbols : Array (Array Char) := extraSymbolRows.map fun row => row.toList.toArray

def common : Array Char := commonRows.foldl (fun chars row => chars ++ row.toList.toArray) #[]

def flags (codes : Array Nat) : Array Bool :=
  codes.foldl (fun marks code => marks.setIfInBounds code true) (Array.replicate 0x10000 false)

/-- The ideographs of the main block that are not common, in order, and the supplement after them.
They fill the rows before 0xa1 and the low places from 0xaa on. -/
def rare : Array Char :=
  let marks := flags (common.map Char.toNat)
  ((List.range (0x9fa6 - 0x4e00)).filterMap fun i =>
    let code := 0x4e00 + i
    if marks.getD code false then none else some (Char.ofNat code)).toArray ++
      supplement.toList.toArray

/-- The character of a lead byte and the place of a trail byte in its row of 190. Three stretches
are for private use; one place of them is a second space. -/
def charAt (lead place : Nat) : Char :=
  if lead ≤ 0xa0 then rare.getD ((lead - 0x81) * 190 + place) ' '
  else if place < 96 then
    if lead == 0xa3 && place == 95 then '　'
    else if lead ≤ 0xa7 then Char.ofNat (0xe4c6 + (lead - 0xa1) * 96 + place)
    else if lead ≤ 0xa9 then (extraSymbols.getD (lead - 0xa8) #[]).getD place ' '
    else rare.getD (32 * 190 + (lead - 0xaa) * 96 + place) ' '
  else
    let place := place - 96
    if lead ≤ 0xa9 then (symbols.getD (lead - 0xa1) #[]).getD place ' '
    else if lead ≤ 0xaf then Char.ofNat (0xe000 + (lead - 0xaa) * 94 + place)
    else if lead ≤ 0xf7 then common.getD ((lead - 0xb0) * 94 + place) ' '
    else Char.ofNat (0xe234 + (lead - 0xf8) * 94 + place)

def place? (trail : UInt8) : Option Nat :=
  if 0x40 ≤ trail && trail ≤ 0x7e then some (trail.toNat - 0x40)
  else if 0x80 ≤ trail && trail ≤ 0xfe then some (trail.toNat - 0x41)
  else none

def trailOf (place : Nat) : UInt8 :=
  UInt8.ofNat (if place < 0x3f then place + 0x40 else place + 0x41)

def pairs : List (UInt8 × UInt8 × Char) :=
  (List.range 126).flatMap fun row => (List.range 190).map fun place =>
    (UInt8.ofNat (row + 0x81), trailOf place, charAt (row + 0x81) place)

/-- The characters that four-byte forms number in order: those of the first plane that have no
two-byte form, counting a retired code point and not the character it was replaced by. -/
def quadChars : Array Nat :=
  let renewed := retired.map fun (_, lead, trail) => (lead, trail)
  let paired := pairs.filterMap fun (lead, trail, c) =>
    if renewed.contains (lead, trail) then none else some c.toNat
  let marks := flags ((0xe5e5 :: retired.map (·.1)) ++ paired).toArray
  ((List.range (0x10000 - 0x80)).filterMap fun i =>
    let code := 0x80 + i
    if 0xd800 ≤ code && code < 0xe000 then none
    else if code == 0x1e3f then some 0xe7c7
    else if code == 0xe7c7 || marks.getD code false then none
    else some code).toArray

def quad? (index : Nat) : Option Char :=
  if index < 189000 then (quadChars[index]?).map Char.ofNat
  else if index ≤ 1237575 then some (Char.ofNat (index - 189000 + 0x10000))
  else none

def replacement : Char := '�'

def isDigit (b : UInt8) : Bool := 0x30 ≤ b && b ≤ 0x39

def isLead (b : UInt8) : Bool := 0x81 ≤ b && b ≤ 0xfe

/-- After a broken sequence reading goes on behind its first byte, but a bad trail byte that is no
ASCII character is lost with it. A sequence cut by the end is one replacement. -/
def decodeFrom : Bytes → List Char → List Char
  | [], read => read
  | b :: rest, read =>
    if b < 0x80 then decodeFrom rest (Char.ofNat b.toNat :: read)
    else if b == 0x80 then decodeFrom rest ('€' :: read)
    else if b == 0xff then decodeFrom rest (replacement :: read)
    else match rest with
      | [] => replacement :: read
      | b2 :: rest2 =>
        if isDigit b2 then
          match rest2 with
          | [] => replacement :: read
          | b3 :: rest3 =>
            if !isLead b3 then decodeFrom (b2 :: b3 :: rest3) (replacement :: read)
            else match rest3 with
              | [] => replacement :: read
              | b4 :: rest4 =>
                if !isDigit b4 then decodeFrom (b2 :: b3 :: b4 :: rest4) (replacement :: read)
                else
                  let index := (((b.toNat - 0x81) * 10 + (b2.toNat - 0x30)) * 126
                    + (b3.toNat - 0x81)) * 10 + (b4.toNat - 0x30)
                  decodeFrom rest4 ((quad? index).getD replacement :: read)
        else
          match place? b2 with
          | some place => decodeFrom rest2 (charAt b.toNat place :: read)
          | none =>
            if b2 < 0x80 then decodeFrom (b2 :: rest2) (replacement :: read)
            else decodeFrom rest2 (replacement :: read)

def decode (bytes : Bytes) : String := String.ofList (decodeFrom bytes []).reverse

def codes : Array Nat :=
  let table := pairs.reverse.foldl
    (fun table (lead, trail, c) => table.setIfInBounds c.toNat (lead.toNat * 256 + trail.toNat))
    (Array.replicate 0x10000 0)
  retired.foldl
    (fun table (code, lead, trail) => table.setIfInBounds code (lead.toNat * 256 + trail.toNat))
    table

def encodeChar (c : Char) : Bytes :=
  if c.toNat < 0x80 then [UInt8.ofNat c.toNat]
  else if c == '€' then [0x80]
  else
    let code := codes.getD c.toNat 0
    if code == 0 then
      ("&#" ++ toString c.toNat ++ ";").toList.map fun d => UInt8.ofNat d.toNat
    else [UInt8.ofNat (code / 256), UInt8.ofNat code]

def encode (text : String) : Bytes := text.toList.flatMap encodeChar

end LavMachine.Gbk
