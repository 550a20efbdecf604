import LavMachine.Memory.Basic
import LavMachine.Peripheral.Call
set_option autoImplicit false

/-!
The screen: a visible plane and a back buffer of one bit a pixel, eight pixels to a byte with the
leftmost in the highest bit, rows padded to whole bytes. Everything drawn goes pixel by pixel
through an operation that the draw mode names, onto the plane that the draw mode names.
-/
namespace LavMachine

structure DrawMode where
  bits : Word
  deriving DecidableEq, Repr

inductive DrawOperation where
  | clear
  | copy
  | not
  | or
  | and
  | xor
  deriving DecidableEq, Repr

namespace DrawMode

def clear : Word := 0
def copy : Word := 1
def not : Word := 2
def fill : Word := 0x10
def graph : Word := 0x40

/-- Numbers that name no operation copy. -/
def operation (m : DrawMode) : DrawOperation :=
  let n := m.bits &&& 0x0f
  if n == 0 then .clear
  else if n == 2 then .not
  else if n == 3 then .or
  else if n == 4 then .and
  else if n == 5 then .xor
  else .copy

def filled (m : DrawMode) : Bool := m.bits &&& fill != 0

def visible (m : DrawMode) : Bool := m.bits &&& graph != 0

end DrawMode

namespace DrawOperation

def paint : DrawOperation → Bool → Bool
  | .clear, _ => false
  | .not, d | .xor, d => !d
  | .and, d => d
  | .copy, _ | .or, _ => true

def blend : DrawOperation → Bool → Bool → Bool
  | .clear, _, _ => false
  | .copy, _, s => s
  | .not, _, s => !s
  | .or, d, s => d || s
  | .and, d, s => d && s
  | .xor, d, s => d != s

end DrawOperation

def pixelMask (k : Nat) : UInt8 := 0x80 >>> UInt8.ofNat k

def packPixels (f : Nat → Bool) : UInt8 :=
  (List.range 8).foldl (fun b k => if f k then b ||| pixelMask k else b) 0

namespace Window

def testBit (w : Window) (i : Nat) (mask : UInt8) : Bool := w.getD i 0 &&& mask != 0

def bitAt (w : Window) (i : Nat) (mask : UInt8) : Checked Bool := do
  let b ← Checked.byteAt w i
  return b &&& mask != 0

def markBit (w : Window) (i : Nat) (mask : UInt8) (on : Bool) : Checked Window :=
  Checked.modifyByte w i fun b => if on then b ||| mask else b &&& ~~~mask

def putBit (w : Window) (i : Nat) (mask : UInt8) (on : Bool) : Window := (markBit w i mask on).value

def zeroes (size : Nat) : Window := Array.replicate size 0

/-- The bytes of `w`, as far as both reach replaced by those of `source`. -/
def copyFrom (w source : Window) : Window := w.mapIdx fun i b => source.getD i b

end Window

/-- A string on the screen. There is no font, so it is kept as text. -/
structure Label where
  x : Int16
  y : Int16
  text : String
  deriving DecidableEq, Repr

structure Panel where
  width : Nat
  height : Nat
  mode : DrawMode := ⟨DrawMode.copy⟩
  labels : List Label := []  -- oldest first
  attached : Bool := true

structure Screen extends Panel where
  graph : Window
  buffer : Window

namespace Panel

def stride (p : Panel) : Nat := (p.width + 7) / 8

def planeSize (p : Panel) : Nat := imageSize (Int16.ofNat p.width) (Int16.ofNat p.height)

def locate (p : Panel) (x y : Int) : Option (Nat × UInt8) :=
  if 0 ≤ x ∧ x < p.width ∧ 0 ≤ y ∧ y < p.height then
    some (y.toNat * p.stride + x.toNat / 8, pixelMask (x.toNat % 8))
  else
    none

def look (p : Panel) (w : Window) (x y : Int) : Checked Bool :=
  match p.locate x y with
  | some (i, mask) => Window.bitAt w i mask
  | none => pure false

def pixel (p : Panel) (w : Window) (x y : Int) : Bool := (p.look w x y).value

end Panel

namespace Screen

def blank (width height : Nat) (attached : Bool) : Screen :=
  let panel : Panel := { width, height, attached }
  let plane := Window.zeroes panel.planeSize
  { panel with graph := plane, buffer := plane }

def target (s : Screen) : Window := if s.mode.visible then s.graph else s.buffer

def onTarget (s : Screen) (f : Window → Window) : Screen :=
  if s.mode.visible then { s with graph := f s.graph } else { s with buffer := f s.buffer }

/-- Changes one pixel of the target plane; off the screen nothing happens. -/
def touch (s : Screen) (x y : Int) (f : Bool → Bool) : Checked Screen :=
  match s.locate x y with
  | some (i, mask) =>
    let change := fun w => do Window.markBit w i mask (f (← Window.bitAt w i mask))
    ⟨s.onTarget fun w => (change w).value, (change s.target).inRange⟩
  | none => pure s

def plot (s : Screen) (x y : Int) (f : Bool → Bool) : Screen := (s.touch x y f).value

def paint (s : Screen) (x y : Int) : Screen := s.plot x y s.mode.operation.paint

def blend (s : Screen) (x y : Int) (on : Bool) : Screen :=
  s.plot x y fun d => s.mode.operation.blend d on

def visiblePixel (s : Screen) (x y : Int) : Bool := s.pixel s.graph x y

end Screen
end LavMachine
