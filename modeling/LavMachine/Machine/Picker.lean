import LavMachine.Gbk.Codec
import LavMachine.Machine.World
set_option autoImplicit false

namespace LavMachine.Picker

structure State where
  names : Array Bytes
  rows : Nat
  first : Nat
  current : Nat
  /-- The highlight is on a name. -/
  selected_lt : first + current < names.size

namespace State

def ofNames (names : List String) (height : Nat) : State :=
  { names := ([0x2e, 0x2e] :: names.map Gbk.encode).toArray
    rows := max (height / lineHeight) 1
    first := 0
    current := 0
    selected_lt := by simp }

def selected (s : State) : Fin s.names.size := ⟨s.first + s.current, s.selected_lt⟩

def chosen (s : State) : Bytes := s.names[s.selected]

/-- One name further, if there is one; the list scrolls when the highlight is on the last line. -/
def down? (s : State) : Option State :=
  if h : s.selected.val ≥ s.names.size - 1 then none
  else if s.current + 1 < s.rows then
    some { s with current := s.current + 1, selected_lt := by simp only [selected] at h; omega }
  else some { s with first := s.first + 1, selected_lt := by simp only [selected] at h; omega }

def up? (s : State) : Option State :=
  if s.selected.val == 0 then none
  else if s.current > 0 then
    some { s with
      current := s.current - 1
      selected_lt := Nat.lt_of_le_of_lt (by omega) s.selected_lt }
  else
    some { s with
      first := s.first - 1
      selected_lt := Nat.lt_of_le_of_lt (by omega) s.selected_lt }

def visible (s : State) : List (Bytes × Nat) :=
  (s.names.extract s.first (s.first + s.rows)).toList.zipIdx

end State

inductive Choice where
  | enter
  | escape
  | move (next : Option State)
  | other

def choose (keys : KeyMap) (s : State) (key : Word) : Choice :=
  if key == keys.enter then .enter
  else if key == keys.escape then .escape
  else if key == keys.down || key == keys.right then .move s.down?
  else if key == keys.up || key == keys.left then .move s.up?
  else .other

variable {κ φ : Type}

def redraw (width height : Int16) (s : State) : Effect κ φ Unit := do
  World.draw (.setMode (DrawMode.clear ||| DrawMode.fill ||| DrawMode.graph))
  World.draw (.rectangle 0 0 (width - 1) (height - 1))
  World.draw (.setMode (DrawMode.copy ||| DrawMode.graph))
  s.visible.forM fun (name, row) => World.draw (.string 0 (Int16.ofNat (row * lineHeight)) name)
  let top := Int16.ofNat (s.current * lineHeight)
  World.draw (.setMode (DrawMode.not ||| DrawMode.fill ||| DrawMode.graph))
  World.draw (.rectangle 0 top (width - 1) (top + 12))

def waitKey [Keyboard κ] : Effect κ φ Word := do World.require (← World.ask .rawKey)

/-- Reads keys until one chooses, redrawing after each move. A keyboard that can supply no more keys
than the fuel fails before it is used up. -/
def run [Keyboard κ] (width height : Int16) (keys : KeyMap) : (fuel : Nat) → State →
    Effect κ φ (Option Bytes)
  | 0, _ => do
    let _ ← waitKey
    return none
  | fuel + 1, s => do
    let key ← waitKey
    match choose keys s key with
    | .enter => return some s.chosen
    | .escape => return none
    | .move (some next) =>
      redraw width height next
      run width height keys fuel next
    | .move none | .other => run width height keys fuel s

def pick [Keyboard κ] [Disk φ] (a : Nat) : Effect κ φ Word := do
  let count ← World.serve .count
  let names ← World.serve (.list 0 count)
  let config := (← get).config
  let state := State.ofNames names config.screenHeight
  let width := Int16.ofNat config.screenWidth
  let height := Int16.ofNat config.screenHeight
  let keyboard := (← get).keyboard
  World.log .debug fun _ => s!"file picker entries={state.names.size}"
  redraw width height state
  match ← run width height (Keyboard.keyMap keyboard) (Keyboard.supply keyboard) state with
  | some name =>
    World.changeMemory fun m => (m.writeBlock a name).setByte (a + name.length) 0
    return Word.ofBool true
  | none => return Word.ofBool false

end LavMachine.Picker
