import LavMachine.Memory.Basic
set_option autoImplicit false

namespace LavMachine.Memory

def fill (m : Memory) (a : Nat) (v : UInt8) : (count : Nat) → Memory
  | 0 => m
  | count + 1 => fill (m.setByte a v) (a + 1) v count

/-- Copies from the first byte to the last, so a destination inside the source repeats its start. -/
def copyUp (m : Memory) (dst src : Nat) : (count : Nat) → Memory
  | 0 => m
  | count + 1 => copyUp (m.setByte dst (m.getByte src)) (dst + 1) (src + 1) count

def copyDown (m : Memory) (dst src : Nat) : (count : Nat) → Memory
  | 0 => m
  | count + 1 => copyDown (m.setByte (dst + count) (m.getByte (src + count))) dst src count

def move (m : Memory) (dst src count : Nat) : Memory :=
  if src > dst then m.copyUp dst src count else m.copyDown dst src count

def maskFrom (key : Nat) : (count a index : Nat) → Memory → Memory
  | 0, _, _, m => m
  | count + 1, a, index, m =>
    let index := if m.getByte (key + index) == 0 then 0 else index
    let mask := m.getByte (key + index)
    maskFrom key count (a + 1) (index + 1) (m.setByte a (m.getByte a ^^^ mask))

/-- Exclusive-ors the block with the string at `key`, which starts again whenever it ends. -/
def mask (m : Memory) (a count key : Nat) : Memory := maskFrom key count a 0 m

end LavMachine.Memory
