import LavMachine.Image
import LavMachine.Machine.Routine
import LavMachine.Stack
set_option autoImplicit false

namespace LavMachine

structure Processor (κ φ : Type) where
  image : Image
  stack : Stack
  world : World κ φ

abbrev Exec (κ φ : Type) := EStateM Fault (Processor κ φ)

namespace Processor

variable {κ φ α : Type}

def fetch (f : Image.Fetch α) : Exec κ φ α := fun ⟨image, stack, world⟩ =>
  match f image with
  | .ok a image => .ok a ⟨image, stack, world⟩
  | .error e image => .error e ⟨image, stack, world⟩

def onStack (f : Stack.Op α) : Exec κ φ α := fun ⟨image, stack, world⟩ =>
  match f stack with
  | .ok a stack => .ok a ⟨image, stack, world⟩
  | .error e stack => .error e ⟨image, stack, world⟩

def effect (f : Effect κ φ α) : Exec κ φ α := fun ⟨image, stack, world⟩ =>
  match f world with
  | .ok a world => .ok a ⟨image, stack, world⟩
  | .error e world => .error e ⟨image, stack, world⟩

def push (w : Word) : Exec κ φ Unit := onStack (Stack.push w)

def pop : Exec κ φ Word := onStack Stack.pop

def region : Exec κ φ Region := effect (World.readMemory (·.region))

def setRegion (r : Region) : Exec κ φ Unit := effect (World.changeMemory (·.setRegion r))

def changeMemory (f : Memory → Memory) : Exec κ φ Unit := effect (World.changeMemory f)

def jump (offset : Nat) : Exec κ φ Unit := fetch (Image.jump offset)

/-- A number in the image, as wide as the cell it would fill. Only the narrowest is unsigned. -/
def literal : Width → Exec κ φ Word
  | .char => return Int32.ofNat (← fetch Image.byte).toNat
  | .int => return (← fetch Image.int16).toInt32
  | .long => fetch Image.int32

def effectiveAddress (place : Place) : Exec κ φ Nat := do
  let index ← if place.indexed then pop else pure 0
  let offset ← fetch Image.int16
  let a := (index + offset.toInt32).address
  if place.framed then
    return (a + (← region).start) % addressSpace
  else
    return a

def readCell (m : Memory) (a : Nat) : Width → Word
  | .char => m.getChar a
  | .int => m.getInt a
  | .long => m.getLong a

def readReference (m : Memory) (a width : Nat) : Word :=
  if width == 2 then m.getInt a else m.getBytes a width

def increment (delta : Word) (old : Bool) : Exec κ φ Unit := do
  let r := Reference.decode (← pop)
  let a := r.resolve (← region).start
  let before ← effect (World.readMemory fun m => readReference m a r.width)
  changeMemory (·.setBytes a r.width (before + delta))
  push (if old then before else before + delta)

def popParameters (frame : Nat) : (count : Nat) → Exec κ φ Unit
  | 0 => pure ()
  | count + 1 => do
    let value ← pop
    changeMemory (·.setLong (frame + 5 + 4 * count) value)
    popParameters frame count

/-- Opens a frame where the current one ends. The caller's frame start is saved first, behind the
return offset. -/
def enter : Exec κ φ Unit := do
  let caller ← region
  changeMemory (·.setInt (caller.limit + 3) (Int32.ofNat caller.start))
  let size ← fetch Image.address
  let count ← fetch Image.byte
  setRegion ((caller.setStart caller.limit).setLimit (caller.limit + size))
  popParameters caller.limit count.toNat

def leave : Exec κ φ Unit := do
  let frame := (← region).start
  let offset ← effect (World.readMemory (·.getOffset frame))
  let caller ← effect (World.readMemory fun m => (m.getInt (frame + 3)).address)
  setRegion ((Region.zero.setLimit frame).setStart caller)
  jump offset

def copyData (a : Nat) : (count : Nat) → Exec κ φ Unit
  | 0 => pure ()
  | count + 1 => do
    let b ← fetch Image.byte
    changeMemory (·.setOwnByte a b)
    copyData (a + 1) count

def formatArguments : Exec κ φ (List Word) := do
  let count := (← pop).lowByte.toNat
  return (← onStack (Stack.popBlock count)).toList

def printf : Exec κ φ Unit := do
  match ← formatArguments with
  | format :: args =>
    let codes ← effect (World.readMemory fun m => Format.expand m format.address args true)
    effect (codes.forM fun code => World.type (.char code))
  | [] => pure ()
  effect (World.type (.update 0))

def sprintf : Exec κ φ Unit := do
  match ← formatArguments with
  | dst :: format :: args =>
    changeMemory fun m =>
      let text := (Format.expand m format.address args false).map UInt16.toUInt8
      (m.writeBlock dst.address text).setByte (dst.address + text.length) 0
  | _ => pure ()

def popArguments (popping : Popping) (arity : Nat) : Exec κ φ (Vector Word arity) :=
  match popping with
  | .each => onStack (Stack.popEach arity)
  | .block => onStack (Stack.popBlock arity)

def call (r : Routine κ φ) : Exec κ φ Unit := do
  let args ← popArguments r.popping r.arity
  match r.body with
  | .procedure run => effect (run args.get)
  | .function run => push (← effect (run args.get))

variable [Keyboard κ] [Disk φ]

def execute : Opcode → Exec κ φ Unit
  | .nop | .stop => pure ()
  | .push w => do push (← literal w)
  | .cell place use => do
    let a ← effectiveAddress place
    match use with
    | .value w => push (← effect (World.readMemory fun m => readCell m a w))
    | .reference w => push { addr := a, width := w.bytes : Reference }.encode
    | .address => push (Int32.ofNat a)
  | .intern => do
    let text ← fetch Image.literal
    push (← effect (modifyGet fun w =>
      let (word, pool) := w.memory.pool.intern text
      (word, { w with memory := { w.memory with pool } })))
  | .base plane => do
    let config ← effect (return (← get).config)
    push (Int32.ofNat (match plane with
      | .text => config.textBase
      | .graph => config.graphBase
      | .buffer => config.bufferBase))
  | .unary op => do push (op.eval (← pop))
  | .binary op => do
    let (left, right) ← onStack Stack.popTwo
    push (op.eval left right)
  | .immediate op => do
    let right := (← fetch Image.int16).toInt32
    push (op.eval (← pop) right)
  | .increment delta old => increment delta old
  | .store => do
    let value ← pop
    let r := Reference.decode (← pop)
    let a := r.resolve (← region).start
    changeMemory (·.setBytes a r.width value)
    push value
  | .dereference => do
    let a := (← pop).address
    push (← effect (World.readMemory (·.getChar a)))
  | .makeReference => do
    let a := (← pop).address
    push { addr := a, width := 1 : Reference }.encode
  | .drop => do
    let _ ← pop
  | .branch onZero => do
    let target ← fetch Image.target
    let top ← onStack Stack.peekTop
    if (top == 0) == onZero then jump target
  | .jump => do jump (← fetch Image.target)
  | .mark => do
    let a ← fetch Image.address
    setRegion ((Region.zero.setLimit a).setStart a)
  | .invoke => do
    let target ← fetch Image.target
    let saved ← fetch (return (← get).cursor)
    let frame := (← region).limit
    changeMemory (·.setOffset frame saved)
    jump target
  | .entry => enter
  | .leave => leave
  | .dataInit => do
    let a ← fetch Image.address
    let count ← fetch Image.address
    copyData a count
  | .invalid => throw { kind := .illegalOpcode, detail := "0x43" }
  | .printf => printf
  | .sprintf => sprintf
  | .call c => call c.routine

def step : Exec κ φ Bool := do
  let offset ← fetch (return (← get).cursor)
  let byte ← fetch Image.byte
  match Instruction.ofByte? byte with
  | none => throw { kind := .illegalOpcode, detail := "0x" ++ hex 2 byte.toNat }
  | some instruction =>
    effect (World.log .trace fun _ => s!"offset={offset} op={instruction.mnemonic}")
    execute instruction.opcode
    return instruction.opcode == .stop

end Processor
end LavMachine
