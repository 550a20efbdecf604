import LavMachine.Fault
import LavMachine.Pool
set_option autoImplicit false

/-!
Memory: the 64K bytes a program sees. Addresses wrap at sixteen bits. An address inside a mapped
window or the string pool goes there; every other one goes to the machine's own bytes, which hold
globals and call frames. Each byte of a longer value is routed on its own, so a value may straddle
two windows.

Windows are storage lent by a peripheral. A window that is mapped twice shows the same bytes in both
places, so mappings name their window by its slot in `bank` instead of holding its bytes.
-/
namespace LavMachine

def addressSpace : Nat := 65536

theorem mod_addressSpace_lt (a : Nat) : a % addressSpace < addressSpace := Nat.mod_lt a (by decide)

abbrev Window := Array UInt8

structure Region where
  start : Nat
  limit : Nat
  start_lt : start < addressSpace
  limit_lt : limit < addressSpace
  deriving DecidableEq, Repr

namespace Region

def zero : Region := ⟨0, 0, by decide, by decide⟩

def setStart (r : Region) (a : Nat) : Region :=
  { r with start := a % addressSpace, start_lt := mod_addressSpace_lt a }

def setLimit (r : Region) (a : Nat) : Region :=
  { r with limit := a % addressSpace, limit_lt := mod_addressSpace_lt a }

end Region

structure Mapping where
  base : Nat
  slot : Nat
  deriving DecidableEq, Repr

structure Memory where
  own : Vector UInt8 addressSpace
  region : Region
  pool : Pool
  bank : Array Window
  mappings : List Mapping  -- in the order they were installed

inductive Cell where
  | window (slot index : Nat)
  | pool (index : Nat)
  | own (index : Fin addressSpace)
  deriving DecidableEq, Repr

def rangesOverlap (start limit start' limit' : Nat) : Bool := start < limit' && start' < limit

namespace Memory

def blank (pool : Pool) (bank : Array Window) : Memory :=
  { own := Vector.replicate addressSpace 0, region := .zero, pool, bank, mappings := [] }

def window (m : Memory) (slot : Nat) : Window := m.bank.getD slot #[]

/-- The first address past a mapping, counted in machine words. -/
def mappingLimit (m : Memory) (w : Mapping) : Nat := (w.base + (m.window w.slot).size) % UInt64.size

def inMapping (m : Memory) (a : Nat) (w : Mapping) : Bool := w.base ≤ a && a < m.mappingLimit w

/-- Maps the window in `slot` at `base`. Windows may not overlap each other or the pool, or run past
the end of the address space. -/
def install (base slot : Nat) : EStateM Fault Memory Unit := fun m =>
  let limit := m.mappingLimit ⟨base, slot⟩
  if limit > addressSpace then
    .error { kind := .windowOverlap, detail := "0x" ++ hex 4 base ++ " PAST END" } m
  else if m.mappings.any (fun w => rangesOverlap base limit w.base (m.mappingLimit w))
      || rangesOverlap base limit m.pool.base m.pool.limit then
    .error { kind := .windowOverlap, detail := "0x" ++ hex 4 base } m
  else
    .ok () { m with mappings := m.mappings ++ [⟨base, slot⟩] }

def installAll (ws : List Mapping) : EStateM Fault Memory Unit :=
  ws.forM fun w => install w.base w.slot

def slotAt (m : Memory) (base : Nat) : Option Nat :=
  (m.mappings.find? (·.base == base)).map (·.slot)

/-- Zeroes the machine's own bytes, the pool and the region. Windows belong to their peripherals and
are left alone. -/
def clear (m : Memory) : Memory :=
  { m with own := Vector.replicate addressSpace 0, region := .zero, pool := m.pool.clear }

/-- Windows come first, in the order they were installed, then the pool. -/
@[inline] def cell (m : Memory) (a : Nat) : Cell :=
  let index : Fin addressSpace := ⟨a % addressSpace, mod_addressSpace_lt a⟩
  match m.mappings.find? (m.inMapping index) with
  | some w => .window w.slot (index - w.base)
  | none => if m.pool.covers index then .pool (index - m.pool.base) else .own index

def load (m : Memory) (a : Nat) : Checked UInt8 :=
  match m.cell a with
  | .window slot i => Checked.byteAt (m.window slot) i
  | .pool i => Checked.byteAt m.pool.bytes i
  | .own i => pure (m.own.get i)

def getByte (m : Memory) (a : Nat) : UInt8 := (m.load a).value

def onWindow (m : Memory) (slot : Nat) (f : Window → Checked Window) : Checked Memory :=
  ⟨{ m with bank := m.bank.modify slot fun w => (f w).value }, (f (m.window slot)).inRange⟩

def store (m : Memory) (a : Nat) (v : UInt8) : Checked Memory :=
  match m.cell a with
  | .window slot i => m.onWindow slot (Checked.setByte · i v)
  | .pool i => ⟨{ m with pool := (m.pool.setByte i v).value }, (m.pool.setByte i v).inRange⟩
  | .own i => pure { m with own := m.own.set i v }

def setByte (m : Memory) (a : Nat) (v : UInt8) : Memory := (m.store a v).value

def setOwnByte (m : Memory) (a : Nat) (v : UInt8) : Memory :=
  { m with own := m.own.set (a % addressSpace) v (mod_addressSpace_lt a) }

def readBlock (m : Memory) (a count : Nat) : Bytes :=
  (List.range count).map fun i => m.getByte (a + i)

def writeBlock (m : Memory) (a : Nat) : Bytes → Memory
  | [] => m
  | b :: rest => writeBlock (m.setByte a b) (a + 1) rest

def getBytes (m : Memory) (a width : Nat) : Word := Int32.ofNat (m.readBlock a (min width 4)).toNat

def setBytes (m : Memory) (a width : Nat) (w : Word) : Memory :=
  m.writeBlock a (Bytes.ofNat (min width 4) w.toUInt32.toNat)

def getChar (m : Memory) (a : Nat) : Word := m.getBytes a 1

def setChar (m : Memory) (a : Nat) (w : Word) : Memory := m.setBytes a 1 w

def getInt (m : Memory) (a : Nat) : Word := (m.getBytes a 2).toInt16.toInt32

def setInt (m : Memory) (a : Nat) (w : Word) : Memory := m.setBytes a 2 w

def getLong (m : Memory) (a : Nat) : Word := m.getBytes a 4

def setLong (m : Memory) (a : Nat) (w : Word) : Memory := m.setBytes a 4 w

def getOffset (m : Memory) (a : Nat) : Nat := (m.readBlock a 3).toNat

def setOffset (m : Memory) (a offset : Nat) : Memory := m.writeBlock a (Bytes.ofNat 3 offset)

def setRegion (m : Memory) (r : Region) : Memory := { m with region := r }

def setWindow (m : Memory) (slot : Nat) (w : Window) : Memory :=
  { m with bank := m.bank.setIfInBounds slot w }

end Memory
end LavMachine
