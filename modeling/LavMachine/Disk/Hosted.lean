import LavMachine.Disk.Tree
import LavMachine.Gbk.Codec
import LavMachine.Peripheral.Interface
set_option autoImplicit false

/-!
A disk served from a directory tree. Programs see one directory of the tree as the whole disk and
cannot name anything outside it. Up to eight files may be open; handles are 1 to 8, and 0 is none.
-/
namespace LavMachine

structure OpenMode where
  readable : Bool := false
  writable : Bool := false
  create : Bool := false
  truncate : Bool := false
  append : Bool := false
  deriving DecidableEq, Repr

/-- Modes are `r`, `w` and `a`, each also with `+`; a `b` anywhere is ignored. -/
def OpenMode.ofBytes? (mode : Bytes) : Option OpenMode :=
  let mode := mode.filter (· != 0x62)
  if mode == [0x72] then some { readable := true }
  else if mode == [0x72, 0x2b] then some { readable := true, writable := true }
  else if mode == [0x77] then some { writable := true, create := true, truncate := true }
  else if mode == [0x77, 0x2b] then
    some { readable := true, writable := true, create := true, truncate := true }
  else if mode == [0x61] then some { writable := true, create := true, append := true }
  else if mode == [0x61, 0x2b] then
    some { readable := true, writable := true, create := true, append := true }
  else none

structure Handle where
  file : Option Nat
  mode : OpenMode
  position : Nat := 0
  atEnd : Bool := false

def handleCount : Nat := 8

structure HostedDisk where
  tree : Tree
  root : Path
  cwd : Path := []
  handles : Vector (Option Handle) handleCount := Vector.replicate handleCount none

namespace HostedDisk

def mount (tree : Tree) (root : String) : Except HostError HostedDisk :=
  match tree.find root with
  | .error e => .error e
  | .ok root => .ok { tree, root }

def resolve? (d : HostedDisk) (name : Bytes) : Option Path := Path.resolve? d.cwd (Gbk.decode name)

def slot? (handle : Word) : Option (Fin handleCount) :=
  let n := handle.toInt - 1
  if h : 0 ≤ n ∧ n < handleCount then some ⟨n.toNat, by omega⟩ else none

def handle? (d : HostedDisk) (handle : Word) : Option (Fin handleCount × Handle) :=
  match slot? handle with
  | none => none
  | some slot => (d.handles.get slot).map fun h => (slot, h)

def setHandle (d : HostedDisk) (slot : Fin handleCount) (h : Option Handle) : HostedDisk :=
  { d with handles := d.handles.set slot h }

def openNode (p : Path) (mode : OpenMode) : EStateM Unit Tree Handle := fun t =>
  match t.node? p with
  | some (.file number) =>
    .ok { file := some number, mode } (if mode.truncate then t.setContent number #[] else t)
  | some .directory => if mode.writable then .error () t else .ok { file := none, mode } t
  | none =>
    if mode.create && t.isFree p then
      let (t, number) := t.addFile p #[]
      .ok { file := some number, mode } t
    else .error () t

/-- Requests may be refused halfway; what they have done to the disk until then stays done. -/
abbrev Request := EStateM Unit HostedDisk

def need {α : Type} (a : Option α) : Request α := fun d =>
  match a with
  | some a => .ok a d
  | none => .error () d

def onTree {α : Type} (x : EStateM Unit Tree α) : Request α := fun d =>
  match x d.tree with
  | .ok a tree => .ok a { d with tree }
  | .error e tree => .error e { d with tree }

def place? (d : HostedDisk) (p : Path) : Option Path :=
  if p.isEmpty && !d.tree.isDirectory d.root then none else some (d.root ++ p)

/-- Takes the first free handle. There has to be one, the name has to stay below the root and the
mode to be known before the tree is touched. -/
def openFile (name mode : Bytes) : Request (Path × Nat) := do
  let slot ← need ((← get).handles.findFinIdx? Option.isNone)
  let p ← need ((← get).resolve? name)
  let mode ← need (OpenMode.ofBytes? mode)
  let target ← need ((← get).place? p)
  let h ← onTree (openNode target mode)
  modify (·.setHandle slot (some h))
  return (p, slot + 1)

def close (d : HostedDisk) (handle : Word) : HostedDisk :=
  match slot? handle with
  | some slot => d.setHandle slot none
  | none => d

/-- Up to `size` bytes from the handle's position on. Coming short sets the end mark. -/
def read (d : HostedDisk) (handle : Word) (size : Nat) : Bytes × HostedDisk :=
  match d.handle? handle with
  | some (slot, h) =>
    match h.file with
    | some number =>
      if h.mode.readable then
        let data := (d.tree.content number).extract h.position (h.position + size)
        (data.toList, d.setHandle slot (some { h with
          position := h.position + data.size
          atEnd := h.atEnd || data.size < size }))
      else ([], d)
    | none => ([], d)
  | none => ([], d)

theorem length_read_le (d : HostedDisk) (handle : Word) (size : Nat) :
    (d.read handle size).1.length ≤ size := by
  unfold read
  split
  · split
    · split
      · simp only [Array.length_toList, Array.size_extract]; omega
      · exact Nat.zero_le size
    · exact Nat.zero_le size
  · exact Nat.zero_le size

def overwrite (content : Array UInt8) (position : Nat) (data : Array UInt8) : Array UInt8 :=
  content.extract 0 position ++ Array.replicate (position - content.size) 0 ++ data
    ++ content.extract (position + data.size) content.size

def write (d : HostedDisk) (handle : Word) (data : Bytes) : Nat × HostedDisk :=
  match d.handle? handle with
  | some (slot, h) =>
    match h.file with
    | some number =>
      if h.mode.writable && !data.isEmpty then
        let content := d.tree.content number
        let position := if h.mode.append then content.size else h.position
        (data.length,
          { d with tree := d.tree.setContent number (overwrite content position data.toArray) }
          |>.setHandle slot (some { h with position := position + data.length }))
      else (0, d)
    | none => (0, d)
  | none => (0, d)

/-- The position a seek asks for, if it is not before the start: base 0 counts from the start, where
a negative offset is taken as zero, 1 from the position and 2 from the end. -/
def seekTarget? (d : HostedDisk) (h : Handle) (offset base : Word) : Option Nat :=
  let size := (h.file.map fun number => (d.tree.content number).size).getD 0
  let target : Option Int :=
    if base == 0 then some (max offset.toInt 0)
    else if base == 1 then some (h.position + offset.toInt)
    else if base == 2 then some (size + offset.toInt)
    else none
  match target with
  | some n => if n < 0 then none else some n.toNat
  | none => none

def seek (d : HostedDisk) (handle offset base : Word) : Word × HostedDisk :=
  match d.handle? handle with
  | some (slot, h) =>
    match d.seekTarget? h offset base with
    | some position =>
      (Int32.ofNat position, d.setHandle slot (some { h with position, atEnd := false }))
    | none => (-1, d)
  | none => (-1, d)

def tell (d : HostedDisk) (handle : Word) : Word :=
  match d.handle? handle with
  | some (_, h) => Int32.ofNat h.position
  | none => -1

def atEnd (d : HostedDisk) (handle : Word) : Bool :=
  match d.handle? handle with
  | some (_, h) => h.atEnd
  | none => true

def getByte (d : HostedDisk) (handle : Word) : Word × HostedDisk :=
  match d.read handle 1 with
  | (b :: _, d) => (Int32.ofNat b.toNat, d)
  | ([], d) => (-1, d)

def putByte (d : HostedDisk) (byte handle : Word) : Word × HostedDisk :=
  let (count, d) := d.write handle [byte.lowByte]
  (if count == 1 then byte &&& 0xff else -1, d)

def changeDirectory? (d : HostedDisk) (name : Bytes) : Option HostedDisk := do
  let p ← d.resolve? name
  let target ← d.place? p
  if d.tree.isDirectory target then some { d with cwd := p } else none

def makeDirectory? (d : HostedDisk) (name : Bytes) : Option HostedDisk := do
  let p ← d.resolve? name
  let target ← d.place? p
  if d.tree.isFree target then some { d with tree := d.tree.addDirectory target } else none

def delete? (d : HostedDisk) (name : Bytes) : Option HostedDisk := do
  let p ← d.resolve? name
  let target ← d.place? p
  match d.tree.node? target with
  | some (.file _) => some { d with tree := d.tree.remove target }
  | _ => none

def names (d : HostedDisk) : List String := d.tree.names (d.root ++ d.cwd)

def dispose (d : HostedDisk) : HostedDisk := { d with handles := Vector.replicate handleCount none }

def attempt (d : HostedDisk) : Option HostedDisk → Bool × HostedDisk
  | some changed => (true, changed)
  | none => (false, d)

def answer : (c : DiskCall) → HostedDisk → c.Answer × HostedDisk
  | .openFile name mode, d =>
    match openFile name mode d with
    | .ok (_, handle) d => (Int32.ofNat handle, d)
    | .error _ d => ((0 : Word), d)
  | .close handle, d => ((), d.close handle)
  | .read handle size, d =>
    let (data, d) := d.read handle size
    ((Int32.ofNat data.length, data ++ List.replicate (size - data.length) 0), d)
  | .write handle data, d =>
    let (count, d) := d.write handle data
    (Int32.ofNat count, d)
  | .seek handle offset base, d => d.seek handle offset base
  | .tell handle, d => (d.tell handle, d)
  | .atEnd handle, d => (d.atEnd handle, d)
  | .rewind handle, d => ((), (d.seek handle 0 0).2)
  | .getByte handle, d => d.getByte handle
  | .putByte byte handle, d => d.putByte byte handle
  | .changeDirectory name, d => d.attempt (d.changeDirectory? name)
  | .makeDirectory name, d => d.attempt (d.makeDirectory? name)
  | .delete name, d => d.attempt (d.delete? name)
  | .count, d => (d.names.length, d)
  | .list start size, d => ((d.names.drop start).take size, d)
  | .dispose, d => ((), d.dispose)

def logged : DiskCall → HostedDisk → Bus → Bus
  | .openFile name mode, d, bus =>
    match openFile name mode d with
    | .ok (p, handle) _ => bus.log .debug fun _ => s!"open path={p.text} fp={handle}"
    | .error .. => bus
  | _, _, bus => bus

end HostedDisk

instance : Disk HostedDisk where
  answer c d bus :=
    let (answer, after) := HostedDisk.answer c d
    (answer, after, HostedDisk.logged c d bus)
  length_read handle size d bus := by
    have h := d.length_read_le handle size
    simp only [HostedDisk.answer, List.length_append, List.length_replicate]
    omega

end LavMachine
