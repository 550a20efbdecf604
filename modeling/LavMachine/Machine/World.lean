import LavMachine.Config
import LavMachine.Console
import LavMachine.Peripheral.Interface
import LavMachine.Screen.Picture
set_option autoImplicit false

/-!
What the instructions of a program act on besides the stack and the cursor: memory, the random seed,
the peripherals and the clock.

A screen and a console lend their planes and their page to memory as windows. While they are
attached the bytes live in memory's bank, in fixed slots, and the peripheral keeps the rest of its
state.
-/
namespace LavMachine

inductive Display where
  | detached
  | recording
  | screen (panel : Panel)

inductive Teletype where
  | detached
  | recording
  | console (caret : Caret)

structure Moment where
  year : Nat
  month : Nat  -- January is 0
  day : Nat
  hour : Nat
  minute : Nat
  second : Nat
  millisecond : Nat
  weekday : Nat  -- Sunday is 1
  deriving DecidableEq, Repr

structure Clock where
  reading : Nat → Moment
  taken : Nat := 0

structure World (κ φ : Type) where
  config : Config
  memory : Memory
  seed : Word
  display : Display
  teletype : Teletype
  keyboard : κ
  disk : φ
  bus : Bus
  clock : Clock

/-- An effect on the world; when it fails, what it has done until then stays done. -/
abbrev Effect (κ φ : Type) := EStateM Fault (World κ φ)

def graphSlot : Nat := 0
def bufferSlot : Nat := 1
def textSlot : Nat := 2

def recordedImage (width height : Int16) : Bytes :=
  (List.range (imageSize width height)).map fun i => UInt8.ofNat (7 * i + 1)

def DisplayCall.absentAnswer : (c : DisplayCall) → c.Answer
  | .getPoint .. => (0 : Word)
  | .getRegion _ _ width height => List.replicate (imageSize width height) 0
  | .setMode _ | .point .. | .line .. | .rectangle .. | .oval .. | .region .. | .string .. | .clear
  | .refresh | .transform _ => ()

def DisplayCall.recordedAnswer : (c : DisplayCall) → c.Answer
  | .getPoint x y => Int32.ofInt (x.toInt + y.toInt)
  | .getRegion _ _ width height => recordedImage width height
  | .setMode _ | .point .. | .line .. | .rectangle .. | .oval .. | .region .. | .string .. | .clear
  | .refresh | .transform _ => ()

namespace Bus

def emit (b : Bus) : Option String → Bus
  | some text => b.note (.output text)
  | none => b

end Bus

namespace World

variable {κ φ : Type}

/-- The screen with its planes taken back from memory, which keeps blank ones meanwhile. -/
def takeScreen (m : Memory) (panel : Panel) : Screen × Memory :=
  let graph := m.window graphSlot
  let buffer := m.window bufferSlot
  ({ panel with graph, buffer },
    { m with bank := (m.bank.setIfInBounds graphSlot #[]).setIfInBounds bufferSlot #[] })

def lendScreen (m : Memory) (s : Screen) : Memory :=
  { m with bank := (m.bank.setIfInBounds graphSlot s.graph).setIfInBounds bufferSlot s.buffer }

def draw (c : DisplayCall) : Effect κ φ c.Answer := fun w =>
  match w.display with
  | .detached => .ok c.absentAnswer w
  | .recording => .ok c.recordedAnswer { w with bus := w.bus.note (.call (.display c)) }
  | .screen panel =>
    let (screen, memory) := takeScreen w.memory panel
    let (answer, screen, shown) := Screen.answer c screen
    .ok answer { w with
      memory := lendScreen memory screen
      display := .screen screen.toPanel
      bus := w.bus.emit shown }

def type (c : TextCall) : Effect κ φ Unit := fun w =>
  match w.teletype with
  | .detached => .ok () w
  | .recording => .ok () { w with bus := w.bus.note (.call (.text c)) }
  | .console caret =>
    let (console, shown) := Console.answer { caret with page := w.memory.window textSlot } c
    .ok () { w with
      memory := w.memory.setWindow textSlot console.page
      teletype := .console console.toCaret
      bus := w.bus.emit shown }

def ask [Keyboard κ] (c : KeyCall) : Effect κ φ c.Answer := fun w =>
  let (answer, keyboard, bus) := Keyboard.answer c w.keyboard w.bus
  .ok answer { w with keyboard, bus }

def serve [Disk φ] (c : DiskCall) : Effect κ φ c.Answer := fun w =>
  let (answer, disk, bus) := Disk.answer c w.disk w.bus
  .ok answer { w with disk, bus }

def require {α : Type} : Except DeviceFailure α → Effect κ φ α
  | .ok a => pure a
  | .error e => throw e.fault

def log (level : LogLevel) (text : Unit → String) : Effect κ φ Unit :=
  modify fun w => { w with bus := w.bus.log level text }

def sleep : Effect κ φ Unit := do require (← get).bus.control.sleep

def now : Effect κ φ Moment := modifyGet fun w =>
  (w.clock.reading w.clock.taken, { w with clock := { w.clock with taken := w.clock.taken + 1 } })

def readMemory {α : Type} (f : Memory → α) : Effect κ φ α := return f (← get).memory

def changeMemory (f : Memory → Memory) : Effect κ φ Unit :=
  modify fun w => { w with memory := f w.memory }

end World
end LavMachine
