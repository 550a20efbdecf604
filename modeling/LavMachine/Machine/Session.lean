import LavMachine.Machine.Processor
import LavMachine.Text.Quoted
set_option autoImplicit false

namespace LavMachine

inductive Phase where
  | unloaded
  | ready
  | running
  | ended
  deriving DecidableEq, Repr

structure Machine (κ φ : Type) where
  phase : Phase
  image : Option Image
  stack : Stack
  world : World κ φ

inductive Outcome where
  | running
  | ended
  | fault (f : Fault)
  | suspended
  deriving DecidableEq, Repr

namespace Machine

variable {κ φ : Type}

/-- The windows that the peripherals lend, each in its slot; an absent one is empty. -/
def lentWindows (display : Display) (teletype : Teletype) : Array Window :=
  let plane := match display with
    | .screen panel => Window.zeroes panel.planeSize
    | .detached | .recording => #[]
  let page := match teletype with
    | .console _ => Console.blankPage
    | .detached | .recording => #[]
  #[plane, plane, page]

def layout (config : Config) (display : Display) (teletype : Teletype) : List Mapping :=
  let planes := match display with
    | .screen _ => [⟨config.graphBase, graphSlot⟩, ⟨config.bufferBase, bufferSlot⟩]
    | .detached | .recording => []
  let page := match teletype with
    | .console _ => [⟨config.textBase, textSlot⟩]
    | .detached | .recording => []
  planes ++ page

def create (config : Config) (display : Display) (teletype : Teletype) (keyboard : κ) (disk : φ)
    (journal : Journal) (clock : Clock) : Except Fault (Machine κ φ) :=
  let blank :=
    Memory.blank (Pool.empty config.poolBase config.poolSize) (lentWindows display teletype)
  match Memory.installAll (layout config display teletype) blank with
  | .error f _ => .error f
  | .ok _ memory => .ok {
    phase := .unloaded
    image := none
    stack := Stack.empty config.stackSize
    world := {
      config, memory, seed := 0, display, teletype, keyboard, disk, clock
      bus := { control := .running, journal } } }

def offset? (m : Machine κ φ) : Option Nat := m.image.map (·.cursor)

def isEnded (m : Machine κ φ) : Bool := m.phase == .ended

def control (m : Machine κ φ) : Control := m.world.bus.control

def setControl (m : Machine κ φ) (f : Control → Control) : Machine κ φ :=
  { m with world := { m.world with bus := { m.world.bus with control := f m.world.bus.control } } }

def perform (m : Machine κ φ) (f : Effect κ φ Unit) : Machine κ φ :=
  match m with
  | ⟨phase, image, stack, world⟩ =>
    match f world with
    | .ok _ world | .error _ world => ⟨phase, image, stack, world⟩

/-- What loading does to the world. The screen is cleared only when a program is still attached. -/
def freshen (attached : Bool) (image : Image) : Effect κ φ Unit := do
  if attached then
    World.draw .clear
    World.draw .refresh
  modify fun w => { w with
    bus := { w.bus with control := w.bus.control.reset }
    memory := w.memory.clear
    seed := 0 }
  World.type (.setMode 0)
  World.log .debug fun _ => s!"loaded name={Quoted.text image.name} len={image.size}"

/-- Replaces the program, ready to run from its first opcode with fresh memory. A pending pause or
cancel is dropped. -/
def load (m : Machine κ φ) (image : Image) : Machine κ φ :=
  let m := m.perform (freshen m.image.isSome image)
  { m with image := some image.rewind, stack := m.stack.clear, phase := .ready }

def dispose [Disk φ] (m : Machine κ φ) : Machine κ φ :=
  if m.image.isSome then
    let m := { m with image := none, phase := .ended }
    m.perform do
      World.serve .dispose
      World.log .debug fun _ => "disposed"
  else m

variable [Keyboard κ] [Disk φ]

/-- Executes one opcode. A fault is given the offset of that opcode unless it has one. -/
def step (m : Machine κ φ) : Except Fault Unit × Machine κ φ :=
  match m with
  | ⟨.unloaded, image, stack, world⟩ =>
    (.error { kind := .notLoaded }, ⟨.unloaded, image, stack, world⟩)
  | ⟨.ended, image, stack, world⟩ =>
    (.error { kind := .programEnded }, ⟨.ended, image, stack, world⟩)
  | ⟨phase, none, stack, world⟩ => (.error { kind := .notLoaded }, ⟨phase, none, stack, world⟩)
  | ⟨_, some image, stack, world⟩ =>
    let offset := image.cursor
    match Processor.step ⟨image, stack, world⟩ with
    | .ok false ⟨image, stack, world⟩ => (.ok (), ⟨.running, some image, stack, world⟩)
    | .ok true ⟨image, stack, world⟩ =>
      (.ok (), perform ⟨.ended, some image, stack, world⟩
        (World.log .debug fun _ => s!"program ended offset={offset}"))
    | .error fault ⟨image, stack, world⟩ =>
      let fault := fault.locate offset
      (.error fault, perform ⟨.ended, some image, stack, world⟩
        (World.log .warn fun _ => fault.message))

/-- Takes up to `cycles` steps from a machine that has not ended, looking at the control before
each. -/
def executeFrom : (cycles : Nat) → Machine κ φ → Outcome × Machine κ φ
  | 0, m => (.running, m)
  | cycles + 1, m =>
    if m.control.isPaused then (.suspended, m)
    else match m.control.checkpoint with
      | .error failure => (.fault failure.fault, { m with phase := .ended })
      | .ok () =>
        match m.step with
        | (.error fault, m) => (.fault fault, m)
        | (.ok (), m) => if m.isEnded then (.ended, m) else executeFrom cycles m

def execute (m : Machine κ φ) (cycles : Nat) : Outcome × Machine κ φ :=
  if m.isEnded then (.ended, m) else executeFrom cycles m

def run (batch : Nat) : (batches : Nat) → Machine κ φ → Outcome × Machine κ φ
  | 0, m => (.running, m)
  | batches + 1, m =>
    match m.execute batch with
    | (.running, m) => run batch batches m
    | finished => finished

end Machine
end LavMachine
