import LavMachine.Screen.Basic
set_option autoImplicit false

namespace LavMachine

abbrev Point := Int × Int

def interval (low high : Int) : List Int :=
  (List.range (high - low + 1).toNat).map fun (i : Nat) => low + i

namespace Shape

def span (width : Nat) (x0 x1 y : Int) : List Point :=
  (interval (max (min x0 x1) 0) (min (max x0 x1) (width - 1))).map fun x => (x, y)

/-- Goes along each axis whose share of the error is due, at most `fuel` points from `(x, y)`, and
adds them to the points passed before, the newest first. -/
def lineFrom (dx dy sx sy x1 y1 : Int) : (fuel : Nat) → (x y err : Int) → List Point → List Point
  | 0, _, _, _, passed => passed
  | fuel + 1, x, y, err, passed =>
    let passed := (x, y) :: passed
    if x = x1 ∧ y = y1 then passed
    else
      let alongX := 2 * err ≥ dy
      let alongY := 2 * err ≤ dx
      lineFrom dx dy sx sy x1 y1 fuel (if alongX then x + sx else x) (if alongY then y + sy else y)
        (err + (if alongX then dy else 0) + if alongY then dx else 0) passed

def line (x0 y0 x1 y1 : Int) : List Point :=
  let dx := (x1 - x0).natAbs
  let dy := (y1 - y0).natAbs
  (lineFrom dx (-dy) (if x0 < x1 then 1 else -1) (if y0 < y1 then 1 else -1) x1 y1
    (max dx dy + 1) x0 y0 (dx - dy) []).reverse

def solidRectangle (width height : Nat) (left top right bottom : Int) : List Point :=
  (interval (max top 0) (min bottom (height - 1))).flatMap fun y => span width left right y

def rectangleOutline (width height : Nat) (left top right bottom : Int) : List Point :=
  span width left right top
    ++ (if bottom > top then span width left right bottom else [])
    ++ (interval (max (top + 1) 0) (min bottom height - 1)).flatMap fun y =>
        (left, y) :: if right > left then [(right, y)] else []

/-- Half the extent of an ellipse across one axis, `t` away from the centre along the other:
`across` times the square root of 1 - (t / along)², to the nearest integer. -/
def halfExtent (across along : Nat) (t : Int) : Int :=
  if along == 0 then across
  else
    let q := Float.ofInt t / Float.ofNat along
    let f := 1.0 - q * q
    let extent := Float.ofNat across * (if f > 0.0 then f else 0.0).sqrt
    extent.round.toUInt64.toNat

def solidOval (width height : Nat) (x y : Int) (a b : Nat) : List Point :=
  (interval (max (-b) (-y)) (min b (height - 1 - y))).flatMap fun dy =>
    let w := halfExtent a b dy
    span width (x - w) (x + w) (y + dy)

def dropRepeats (points : List Point) : List Point :=
  (points.foldl (fun kept p => if kept.head? = some p then kept else p :: kept) []).reverse

def distinct (points : List Point) : List Point :=
  dropRepeats (points.mergeSort fun p q => p.1 < q.1 || (p.1 == q.1 && p.2 ≤ q.2))

/-- The on-screen part of an ellipse's outline, followed along both axes so that it has no gaps. -/
def ovalOutline (width height : Nat) (x y : Int) (a b : Nat) : List Point :=
  let columns := (interval (max (-a) (-x)) (min a (width - 1 - x))).flatMap fun dx =>
    let h := halfExtent b a dx
    [(x + dx, y - h), (x + dx, y + h)]
  let rows := (interval (max (-b) (-y)) (min b (height - 1 - y))).flatMap fun dy =>
    let w := halfExtent a b dy
    [(x - w, y + dy), (x + w, y + dy)]
  distinct (columns ++ rows)

end Shape

namespace Screen

def paintAll (s : Screen) (points : List Point) : Screen :=
  points.foldl (fun s p => s.paint p.1 p.2) s

def drawLine (s : Screen) (x0 y0 x1 y1 : Int16) : Screen :=
  s.paintAll (Shape.line x0.toInt y0.toInt x1.toInt y1.toInt)

def drawRectangle (s : Screen) (x0 y0 x1 y1 : Int16) : Screen :=
  let left := min x0.toInt x1.toInt
  let right := max x0.toInt x1.toInt
  let top := min y0.toInt y1.toInt
  let bottom := max y0.toInt y1.toInt
  s.paintAll (if s.mode.filled then Shape.solidRectangle s.width s.height left top right bottom
    else Shape.rectangleOutline s.width s.height left top right bottom)

def drawOval (s : Screen) (x y a b : Int16) : Screen :=
  let shape := if s.mode.filled then Shape.solidOval else Shape.ovalOutline
  s.paintAll (shape s.width s.height x.toInt y.toInt a.toInt.toNat b.toInt.toNat)

end Screen
end LavMachine
