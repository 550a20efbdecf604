import LavMachine.Checksum
import LavMachine.Format
import LavMachine.Machine.Picker
import LavMachine.Memory.Blocks
import LavMachine.Memory.Strings
import LavMachine.Opcode
import LavMachine.Random
import LavMachine.Trigonometry
set_option autoImplicit false

/-!
The runtime library. Every system call takes a fixed number of words and acts on the world; a
procedure gives nothing back, a function one word. Arguments are written in the order in which they
were pushed.
-/
namespace LavMachine

/-- How arguments leave the stack: one by one from the top, or all at once. They differ when there
are too few. -/
inductive Popping where
  | each
  | block
  deriving DecidableEq, Repr

inductive Body (κ φ : Type) (arity : Nat) where
  | procedure (run : (Fin arity → Word) → Effect κ φ Unit)
  | function (run : (Fin arity → Word) → Effect κ φ Word)

structure Routine (κ φ : Type) where
  popping : Popping
  arity : Nat
  body : Body κ φ arity

namespace Routine

variable {κ φ : Type}

def procedure (popping : Popping) (arity : Nat) (run : (Fin arity → Word) → Effect κ φ Unit) :
    Routine κ φ :=
  ⟨popping, arity, .procedure run⟩

def function (popping : Popping) (arity : Nat) (run : (Fin arity → Word) → Effect κ φ Word) :
    Routine κ φ :=
  ⟨popping, arity, .function run⟩

def pure (arity : Nat) (f : (Fin arity → Word) → Word) : Routine κ φ :=
  function .each arity fun v => return f v

def reading (arity : Nat) (f : (Fin arity → Word) → Memory → Word) : Routine κ φ :=
  function .each arity fun v => World.readMemory (f v)

def writing (arity : Nat) (f : (Fin arity → Word) → Memory → Memory) : Routine κ φ :=
  procedure .each arity fun v => World.changeMemory (f v)

end Routine

/-- Shapes go to the visible plane unless the program asks for the buffer, and are filled when the
low byte of `filled` is not zero. -/
def shapeMode (mode filled : Word) : Word :=
  (mode ^^^ DrawMode.graph) ||| (if filled &&& 0xff != 0 then DrawMode.fill else 0)

/-- The clock as memory holds it: the year in two bytes, then month, day, hour, minute, second and
day of the week. -/
def Moment.bytes (t : Moment) : Bytes :=
  Bytes.ofNat 2 t.year ++ [t.month, t.day, t.hour, t.minute, t.second, t.weekday].map UInt8.ofNat

def Moment.ticks (t : Moment) : Nat := t.millisecond % 1000 * 256 / 1000

namespace SystemCall

variable {κ φ : Type}

def shape (mode : Word) (c : DisplayCall) : Effect κ φ Unit := do
  World.draw (.setMode mode)
  let _ ← World.draw c
  return ()

def named [Disk φ] (a : Word) (run : Bytes → Effect κ φ Bool) : Effect κ φ Word := do
  let name ← World.readMemory (·.string a.address)
  return Word.ofBool (← run name)

def waitKey [Keyboard κ] : Effect κ φ Word := do World.require (← World.ask .getChar)

/-- The count that a disk claims to have read, and the start of its buffer that is taken for the
data: no more than the size asked for. -/
def receive [Disk φ] (size handle : Word) : Effect κ φ (Word × Checked Bytes) := do
  let (count, buffer) ← World.serve (.read handle size.length)
  return (count, Checked.first buffer (min count.toInt.toNat size.length))

def readInto [Disk φ] (dst size handle : Word) : Effect κ φ Word := do
  let (count, data) ← receive size handle
  World.changeMemory fun m => m.writeBlock dst.address data.value
  return count

def delayTime (w : Word) : Nat := ((w &&& 0x7fff) * 3 / 4).toInt.toNat

def routine [Keyboard κ] [Disk φ] : SystemCall → Routine κ φ
  | .putChar => .procedure .each 1 fun v => do
    World.type (.char (v 0).lowByte.toUInt16)
    World.type (.update 0)
  | .getChar => .function .each 0 fun _ => waitKey
  | .copyString => .writing 2 fun v m => m.copyString (v 0).address (v 1).address
  | .stringLength => .reading 1 fun v m => Int32.ofNat (m.stringLength (v 0).address)
  | .setScreen => .procedure .each 1 fun v => World.type (.setMode (v 0).lowByte)
  | .updateLcd => .procedure .each 1 fun v => World.type (.update (v 0))
  | .delay => .procedure .each 1 fun v => if delayTime (v 0) > 0 then World.sleep else return ()
  | .writeBlock => .procedure .block 6 fun v => do
    let width := (v 2).toInt16
    let height := (v 3).toInt16
    let image ← World.readMemory (·.readBlock (v 5).address (imageSize width height))
    shape (v 4) (.region (v 0).toInt16 (v 1).toInt16 width height image)
  | .refresh => .procedure .each 0 fun _ => World.draw .refresh
  | .textOut => .procedure .block 4 fun v => do
    let text ← World.readMemory (·.string (v 2).address)
    shape (v 3) (.string (v 0).toInt16 (v 1).toInt16 text)
  | .rectangle filled => .procedure .block 5 fun v =>
    shape (v 4 ||| if filled then DrawMode.fill else 0)
      (.rectangle (v 0).toInt16 (v 1).toInt16 (v 2).toInt16 (v 3).toInt16)
  | .clearScreen => .procedure .each 0 fun _ => World.draw .clear
  | .random => .function .each 0 fun _ => modifyGet fun w =>
    let seed := Random.next w.seed
    (Random.output seed, { w with seed })
  | .seedRandom => .procedure .each 1 fun v => modify fun w => { w with seed := v 0 }
  | .locate => .procedure .each 2 fun v => World.type (.locate (v 0).lowByte (v 1).lowByte)
  | .inkey => .function .each 0 fun _ => World.ask .inkey
  | .point => .procedure .block 3 fun v =>
    shape (v 2 ^^^ DrawMode.graph) (.point (v 0).toInt16 (v 1).toInt16)
  | .getPoint => .function .each 2 fun v => World.draw (.getPoint (v 0).toInt16 (v 1).toInt16)
  | .line => .procedure .block 5 fun v =>
    shape (v 4 ^^^ DrawMode.graph) (.line (v 0).toInt16 (v 1).toInt16 (v 2).toInt16 (v 3).toInt16)
  | .box => .procedure .block 6 fun v =>
    shape (shapeMode (v 5) (v 4))
      (.rectangle (v 0).toInt16 (v 1).toInt16 (v 2).toInt16 (v 3).toInt16)
  | .circle => .procedure .block 5 fun v =>
    shape (shapeMode (v 4) (v 3)) (.oval (v 0).toInt16 (v 1).toInt16 (v 2).toInt16 (v 2).toInt16)
  | .ellipse => .procedure .block 6 fun v =>
    shape (shapeMode (v 5) (v 4)) (.oval (v 0).toInt16 (v 1).toInt16 (v 2).toInt16 (v 3).toInt16)
  | .isClass k => .pure 1 fun v => Word.ofBool (k.holds (v 0).lowByte)
  | .appendString => .writing 2 fun v m => m.appendString (v 0).address (v 1).address
  | .findChar => .reading 2 fun v m => Int32.ofNat (m.findChar (v 0).address (v 1).lowByte)
  | .compareStrings =>
    .reading 2 fun v m => Int32.ofInt (m.compareStrings (v 0).address (v 1).address)
  | .findString => .reading 2 fun v m => Int32.ofNat (m.findString (v 0).address (v 1).address)
  | .toLower => .pure 1 fun v => Int32.ofNat (toLowerByte (v 0).lowByte).toNat
  | .toUpper => .pure 1 fun v => Int32.ofNat (toUpperByte (v 0).lowByte).toNat
  | .fillMemory => .writing 3 fun v m => m.fill (v 0).address (v 1).lowByte (v 2).length
  | .copyMemory => .writing 3 fun v m => m.copyUp (v 0).address (v 1).address (v 2).length
  | .moveMemory => .writing 3 fun v m => m.move (v 0).address (v 1).address (v 2).length
  | .openFile => .function .block 2 fun v => do
    let name ← World.readMemory (·.string (v 0).address)
    let mode ← World.readMemory (·.string (v 1).address)
    World.serve (.openFile name mode)
  | .closeFile => .procedure .each 1 fun v => World.serve (.close (v 0))
  | .readFile => .function .block 4 fun v => readInto (v 0) (v 2) (v 3)
  | .writeFile => .function .block 4 fun v => do
    let data ← World.readMemory (·.readBlock (v 0).address (v 2).length)
    World.serve (.write (v 3) data)
  | .seekFile => .function .block 3 fun v => World.serve (.seek (v 0) (v 1) (v 2))
  | .tellFile => .function .each 1 fun v => World.serve (.tell (v 0))
  | .atEndOfFile => .function .each 1 fun v => return Word.ofBool (← World.serve (.atEnd (v 0)))
  | .rewindFile => .procedure .each 1 fun v => World.serve (.rewind (v 0))
  | .getByte => .function .each 1 fun v => World.serve (.getByte (v 0))
  | .putByte => .function .each 2 fun v => World.serve (.putByte (v 0) (v 1))
  | .makeDirectory => .function .each 1 fun v =>
    named (v 0) fun name => World.serve (.makeDirectory name)
  | .deleteFile => .function .each 1 fun v => named (v 0) fun name => World.serve (.delete name)
  | .changeDirectory => .function .each 1 fun v =>
    named (v 0) fun name => World.serve (.changeDirectory name)
  | .ticks => .function .each 0 fun _ => return Int32.ofNat (← World.now).ticks
  | .checkKey => .function .each 1 fun v => World.ask (.check (v 0 &&& 0xffff))
  | .checksum => .reading 2 fun v m =>
    Int32.ofNat (Checksum.x25 (m.readBlock (v 0).address (v 1).length)).toNat
  | .mask => .writing 3 fun v m => m.mask (v 0).address (v 1).length (v 2).address
  | .pickFile => .function .each 1 fun v => Picker.pick (v 0).address
  | .getTime => .procedure .each 1 fun v => do
    let time ← World.now
    World.changeMemory (·.writeBlock (v 0).address time.bytes)
  | .setTime => .procedure .each 1 fun _ => return ()
  | .getWord => .function .each 1 fun _ => waitKey
  | .transform => .procedure .each 1 fun v => World.draw (.transform (v 0))
  | .releaseKey => .procedure .each 1 fun v => World.ask (.release (v 0 &&& 0xffff))
  | .getBlock => .procedure .block 6 fun v => do
    World.draw (.setMode (v 4))
    let image ← World.draw (.getRegion (v 0).toInt16 (v 1).toInt16 (v 2).toInt16 (v 3).toInt16)
    World.changeMemory (·.writeBlock (v 5).address image)
  | .cosine => .pure 1 fun v => Trigonometry.cosine (v 0).toInt16
  | .sine => .pure 1 fun v => Trigonometry.sine (v 0).toInt16
  | .fillArea => .procedure .each 0 fun _ => throw { kind := .unimplemented, detail := "FILLAREA" }

end SystemCall
end LavMachine
