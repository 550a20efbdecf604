import LavMachine.Screen.Shape
set_option autoImplicit false

namespace LavMachine.Screen

def imagePixel (image : Window) (stride row col : Nat) : Bool :=
  Window.testBit image (row * stride + col / 8) (pixelMask (col % 8))

def visiblePart (start : Int) (size : Nat) (limit : Nat) : List Nat :=
  (interval (max (-start) 0) (min (limit - start) size - 1)).map Int.toNat

/-- Blits an image at `(x, y)`. Rows the image has no bytes for are left out. -/
def drawRegion (s : Screen) (x y width height : Int16) (image : Bytes) : Screen :=
  let stride := (width.toInt.toNat + 7) / 8
  let image := image.toArray
  let cols := visiblePart x.toInt width.toInt.toNat s.width
  let drawRow := fun (s : Screen) (row : Nat) =>
    cols.foldl (fun s (col : Nat) =>
      s.blend (x.toInt + col) (y.toInt + row) (imagePixel image stride row col)) s
  (visiblePart y.toInt height.toInt.toNat s.height).foldl
    (fun s row => if row * stride < image.size then drawRow s row else s) s

/-- Reads an image back from the target plane, in the form in which it would be drawn. Off-screen
pixels and rows that do not fit the image are blank. -/
def getRegion (s : Screen) (x y width height : Int16) : Bytes :=
  let stride := (width.toInt.toNat + 7) / 8
  let size := imageSize width height
  (List.range size).map fun i =>
    let row := i / stride
    if row * stride + stride ≤ size then
      packPixels fun k =>
        let col := 8 * (i % stride) + k
        col < width.toInt.toNat && s.pixel s.target (x.toInt + col) (y.toInt + row)
    else 0

/-- The pixel that lands on `(x, y)` under an effect: 0 moves the picture one pixel left, 1 right, 2
and 3 flip it left to right and top to bottom, 4 inverts it. -/
def sourcePixel (s : Screen) (mode : Word) (x y : Int) : Option Bool :=
  let source := s.pixel s.buffer
  if mode == 0 then some (source (x + 1) y)
  else if mode == 1 then some (source (x - 1) y)
  else if mode == 2 then some (source (s.width - 1 - x) y)
  else if mode == 3 then some (source x (s.height - 1 - y))
  else if mode == 4 then some (!source x y)
  else none

def transform (s : Screen) (mode : Word) : Screen :=
  { s with buffer := s.buffer.mapIdx fun i b => packPixels fun k =>
      let x := 8 * (i % s.stride) + k
      let y := i / s.stride
      let old := b &&& pixelMask k != 0
      if x < s.width && y < s.height then (s.sourcePixel mode x y).getD old else old }

end LavMachine.Screen
