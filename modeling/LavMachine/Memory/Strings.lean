import LavMachine.Memory.Basic
set_option autoImplicit false

/-!
Strings in memory: bytes up to the next zero. Every scan stops after one pass over the address
space, so a string without a terminator ends where it began.
-/
namespace LavMachine.Memory

def lengthFrom (m : Memory) (a : Nat) : (fuel n : Nat) → Nat
  | 0, n => n
  | fuel + 1, n => if m.getByte (a + n) == 0 then n else lengthFrom m a fuel (n + 1)

def stringLength (m : Memory) (a : Nat) : Nat := m.lengthFrom a addressSpace 0

def string (m : Memory) (a : Nat) : Bytes := m.readBlock a (m.stringLength a)

def copyStringFrom (dst src : Nat) : (fuel : Nat) → Memory → Memory
  | 0, m => m
  | fuel + 1, m =>
    let b := m.getByte src
    let m := m.setByte dst b
    if b == 0 then m else copyStringFrom (dst + 1) (src + 1) fuel m

def copyString (m : Memory) (dst src : Nat) : Memory := copyStringFrom dst src addressSpace m

def appendString (m : Memory) (dst src : Nat) : Memory :=
  m.copyString (dst + m.stringLength dst) src

def findCharFrom (m : Memory) (c : UInt8) : (fuel a : Nat) → Nat
  | 0, _ => 0
  | fuel + 1, a =>
    let b := m.getByte a
    if b == c then a % addressSpace
    else if b == 0 then 0
    else findCharFrom m c fuel (a + 1)

/-- The address of the first `c` in the string or at its terminator, or 0. -/
def findChar (m : Memory) (a : Nat) (c : UInt8) : Nat := m.findCharFrom c addressSpace a

def compareFrom (m : Memory) : (fuel a b : Nat) → Int
  | 0, _, _ => 0
  | fuel + 1, a, b =>
    let l := m.getByte a
    let r := m.getByte b
    if l != r || l == 0 then l.toNat - r.toNat else compareFrom m fuel (a + 1) (b + 1)

def compareStrings (m : Memory) (a b : Nat) : Int := m.compareFrom addressSpace a b

/-- Whether `needle` stands in memory at `a`, all of it before the end of the next `room` bytes. -/
def matchesAt (m : Memory) : (needle : Bytes) → (a room : Nat) → Bool
  | [], _, _ => true
  | _ :: _, _, 0 => false
  | b :: rest, a, room + 1 => m.getByte a == b && matchesAt m rest (a + 1) room

def findStringFrom (m : Memory) (needle : Bytes) : (a room : Nat) → Nat
  | _, 0 => 0
  | a, room + 1 =>
    if m.matchesAt needle a (room + 1) then a % addressSpace
    else findStringFrom m needle (a + 1) room

def findString (m : Memory) (a b : Nat) : Nat := m.findStringFrom (m.string b) a (m.stringLength a)

end LavMachine.Memory
