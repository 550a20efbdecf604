import LavMachine.Character
import LavMachine.Screen.Bitmap
set_option autoImplicit false

namespace LavMachine

namespace Screen

def maxLabels : Nat := 256

def labelText (text : Bytes) : String :=
  String.ofList (text.map fun b => if CharClass.printable.holds b then Char.ofNat b.toNat else '?')

/-- A label replaces any at the same spot, and only the latest `maxLabels` are kept. -/
def drawString (s : Screen) (x y : Int16) (text : Bytes) : Screen :=
  let others := s.labels.filter fun l => !(l.x == x && l.y == y)
  let kept := if others.length ≥ maxLabels then others.drop 1 else others
  { s with labels := kept ++ [⟨x, y, labelText text⟩] }

def halfBlock : (upper lower : Bool) → Char
  | true, true => '█'
  | true, false => '▀'
  | false, true => '▄'
  | false, false => ' '

def overlay (line : Array Char) (col : Nat) : List Char → Array Char
  | [] => line
  | c :: rest => overlay (line.setIfInBounds col c) (col + 1) rest

def overlayLabel (lines : Array (Array Char)) (l : Label) : Array (Array Char) :=
  lines.modify (l.y.toInt.toNat / 2) fun line => overlay line l.x.toInt.toNat l.text.toList

def picture (s : Screen) : List String :=
  let rows := (List.range ((s.height + 1) / 2)).map fun (row : Nat) =>
    ((List.range s.width).map fun (x : Nat) =>
      halfBlock (s.visiblePixel x (2 * row)) (s.visiblePixel x (2 * row + 1))).toArray
  let lines := s.labels.foldl overlayLabel rows.toArray
  lines.toList.map fun line => String.ofList line.toList

def frame (s : Screen) : String := "\x1b[H" ++ String.join (s.picture.map (· ++ "\r\n"))

def clear (s : Screen) : Screen := { s with buffer := Window.zeroes s.buffer.size, labels := [] }

def refresh (s : Screen) : Screen := { s with graph := Window.copyFrom s.graph s.buffer }

def answer : (c : DisplayCall) → Screen → c.Answer × Screen × Option String
  | .setMode mode, s => ((), { s with mode := ⟨mode⟩ }, none)
  | .point x y, s => ((), s.paint x.toInt y.toInt, none)
  | .line x0 y0 x1 y1, s => ((), s.drawLine x0 y0 x1 y1, none)
  | .rectangle x0 y0 x1 y1, s => ((), s.drawRectangle x0 y0 x1 y1, none)
  | .oval x y a b, s => ((), s.drawOval x y a b, none)
  | .region x y width height image, s => ((), s.drawRegion x y width height image, none)
  | .string x y text, s => ((), s.drawString x y text, none)
  | .getPoint x y, s => ((if s.visiblePixel x.toInt y.toInt then 1 else 0 : Word), s, none)
  | .getRegion x y width height, s => (s.getRegion x y width height, s, none)
  | .clear, s => ((), s.clear, none)
  | .refresh, s =>
    let s := s.refresh
    ((), s, if s.attached then some s.frame else none)
  | .transform mode, s => ((), s.transform mode, none)

end Screen
end LavMachine
