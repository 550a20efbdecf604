import LavMachine.Checked
import LavMachine.LittleEndian
import LavMachine.Reference
set_option autoImplicit false

/-!
The string pool: the stretch of memory that holds literals. Every literal is appended as a fresh
copy; when one does not fit, the pool starts over from its base and overwrites the oldest.
-/
namespace LavMachine

structure Pool where
  base : Nat
  bytes : Array UInt8
  next : Nat  -- counted from the base
  count : Nat

namespace Pool

def empty (base size : Nat) : Pool :=
  { base, bytes := Array.replicate size 0, next := 0, count := 0 }

def capacity (p : Pool) : Nat := p.bytes.size

def clear (p : Pool) : Pool := empty p.base p.capacity

/-- The first address past the pool, counted in machine words. -/
def limit (p : Pool) : Nat := (p.base + p.capacity) % UInt64.size

def covers (p : Pool) (a : Nat) : Bool := p.base ≤ a && a < p.limit

def put (p : Pool) (i : Nat) : Bytes → Pool
  | [] => p
  | b :: rest => put { p with bytes := p.bytes.setIfInBounds i b } (i + 1) rest

def setByte (p : Pool) (i : Nat) (b : UInt8) : Checked Pool :=
  ⟨{ p with bytes := (Checked.setByte p.bytes i b).value }, (Checked.setByte p.bytes i b).inRange⟩

def store (p : Pool) (i : Nat) (text : Bytes) : Checked Pool :=
  ⟨p.put i text, i + text.length ≤ p.bytes.size⟩

/-- Where a literal of `length` bytes and its terminator go: the next free place, or the base when
the rest of the pool is too short. -/
def place (p : Pool) (length : Nat) : Nat :=
  if p.next + length + 1 > p.capacity then 0 else p.next

/-- Adds a literal, cut to leave room for its terminator, and returns the word that refers to it. A
pool of size zero keeps nothing. -/
def addLiteral (p : Pool) (text : Bytes) : Checked (Word × Pool) :=
  if p.capacity == 0 then
    pure ((Reference.literal p.base).encode, p)
  else do
    let kept ← Checked.first text (min text.length (p.capacity - 1))
    let start := p.place kept.length
    let stored ← p.store start (kept ++ [0])
    return ((Reference.literal (p.base + start)).encode,
      { stored with next := start + kept.length + 1, count := p.count + 1 })

def intern (p : Pool) (text : Bytes) : Word × Pool := (p.addLiteral text).value

end Pool
end LavMachine
