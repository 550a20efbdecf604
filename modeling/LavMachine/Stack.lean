import LavMachine.Checked
import LavMachine.Fault
import LavMachine.Word
set_option autoImplicit false

/-!
The operand stack: a fixed number of word slots and a pointer. Words above the pointer stay in place
until they are overwritten, so a block of arguments can be dropped first and read afterwards.
-/
namespace LavMachine

structure Stack where
  slots : Array Word
  depth : Nat
  depth_le : depth ≤ slots.size

namespace Stack

def empty (capacity : Nat) : Stack := ⟨Array.replicate capacity 0, 0, Nat.zero_le _⟩

def capacity (s : Stack) : Nat := s.slots.size

def toList (s : Stack) : List Word := (s.slots.extract 0 s.depth).toList

def last (s : Stack) (count : Nat) : List Word := (s.slots.extract (s.depth - count) s.depth).toList

def clear (s : Stack) : Stack := ⟨s.slots, 0, Nat.zero_le _⟩

def overflow (s : Stack) : Fault := { kind := .stackOverflow, detail := s!"CAPACITY {s.capacity}" }

def underflow : Fault := { kind := .stackUnderflow }

/-- Stack operations keep the stack they have reached when they fail. -/
abbrev Op := EStateM Fault Stack

def push (w : Word) : Op Unit := fun s =>
  if h : s.depth < s.slots.size then
    .ok () ⟨s.slots.set s.depth w h, s.depth + 1, by rw [Array.size_set]; exact h⟩
  else
    .error s.overflow s

def pop : Op Word := fun s =>
  match s with
  | ⟨slots, 0, h⟩ => .error underflow ⟨slots, 0, h⟩
  | ⟨slots, depth + 1, h⟩ => .ok slots[depth] ⟨slots, depth, Nat.le_of_succ_le h⟩

def peek (s : Stack) (index : Nat) : Except Fault Word :=
  match s.slots[s.depth + index]? with
  | some w => .ok w
  | none => .error s.overflow

def peekTop : Op Word := fun s =>
  match s with
  | ⟨slots, 0, h⟩ => .error underflow ⟨slots, 0, h⟩
  | ⟨slots, depth + 1, h⟩ => .ok slots[depth] ⟨slots, depth + 1, h⟩

def movePointer (delta : Int) : Op Unit := fun s =>
  let depth := (s.depth : Int) + delta
  if depth < 0 then .error underflow s
  else if h : depth.toNat ≤ s.slots.size then .ok () ⟨s.slots, depth.toNat, h⟩
  else .error s.overflow s

def popTwo : Op (Word × Word) := do
  let second ← pop
  let first ← pop
  return (first, second)

/-- Pops `count` words one by one and returns them in push order. If there are too few, all are
lost. -/
def popEach : (count : Nat) → Op (Vector Word count)
  | 0 => pure #v[]
  | count + 1 => do
    let last ← pop
    let earlier ← popEach count
    return earlier.push last

def above (s : Stack) (count : Nat) : Checked (Vector Word count) :=
  ⟨Vector.ofFn fun i => s.slots.getD (s.depth + i) 0, s.depth + count ≤ s.slots.size⟩

def moveLimit : Nat := 0x8000000000000000

/-- Moves the pointer below `count` words and reads them back. A count past the limit of moves is
taken for a negative one. -/
def dropBlock (count : Nat) : Op (Checked (Vector Word count)) := do
  movePointer (-Int64.ofNat count).toInt
  return (← get).above count

def popBlock (count : Nat) : Op (Vector Word count) := return (← dropBlock count).value

end Stack
end LavMachine
