import LavMachine.Fault
import LavMachine.LittleEndian
set_option autoImplicit false

namespace LavMachine

structure Image where
  name : String
  bytes : Array UInt8
  cursor : Nat
  deriving DecidableEq

namespace Image

def headerSize : Nat := 16

def magic : Bytes := [0x4c, 0x41, 0x56]

def version : UInt8 := 0x12

def ofBytes (name : String) (bytes : Array UInt8) : Except Fault Image :=
  if bytes.size ≤ headerSize || (bytes.extract 0 3).toList != magic then
    .error { kind := .badImage, detail := name }
  else
    let found := bytes.getD 3 0
    if found != version then
      .error { kind := .unsupportedVersion, detail := hex 2 found.toNat }
    else
      .ok { name, bytes, cursor := headerSize }

def size (i : Image) : Nat := i.bytes.size

def rewind (i : Image) : Image := { i with cursor := headerSize }

/-- Reading moves the cursor; a failed read leaves it where the missing byte would have been. -/
abbrev Fetch := EStateM Fault Image

/-- The next `width` bytes, or a fault at the cursor if the image ends before them. -/
def take (width : Nat) : Fetch Bytes := fun i =>
  if i.cursor + width ≤ i.bytes.size then
    .ok (i.bytes.extract i.cursor (i.cursor + width)).toList { i with cursor := i.cursor + width }
  else
    .error { kind := .endOfImage, offset := some i.cursor } i

def byte : Fetch UInt8 := do
  return (← take 1).headD 0

def int16 : Fetch Int16 := do
  return Int16.ofNat (← take 2).toNat

def target : Fetch Nat := do
  return (← take 3).toNat

def int32 : Fetch Int32 := do
  return Int32.ofNat (← take 4).toNat

def address : Fetch Nat := do
  return (← take 2).toNat

def literalFrom : (fuel : Nat) → Bytes → Fetch Bytes
  | 0, read => pure read.reverse
  | fuel + 1, read => do
    let b ← byte
    if b == 0 then pure read.reverse else literalFrom fuel (b :: read)

/-- The zero-terminated literal at the cursor, without its terminator. The image has too few bytes
left for the fuel to run out. -/
def literal : Fetch Bytes := fun i => literalFrom (i.bytes.size - i.cursor + 1) [] i

def jump (offset : Nat) : Fetch Unit := modify fun i => { i with cursor := offset }

end Image
end LavMachine
