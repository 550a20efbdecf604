import LavMachine.Character
import LavMachine.Config
import LavMachine.Memory.Basic
import LavMachine.Peripheral.Call
set_option autoImplicit false

/-!
The text console: a page of eight rows of twenty byte cells. A double-byte character takes two cells
of one row. Writing past the last row moves the page up.
-/
namespace LavMachine

structure Caret where
  row : Nat := 0
  col : Nat := 0
  mode : UInt8 := 0
  attached : Bool := true

structure Console extends Caret where
  page : Window

namespace Console

def columns : Nat := 20

def rows : Nat := textPageSize / columns

def blankPage : Window := Array.replicate textPageSize 0

def blank (attached : Bool) : Console := { attached, page := blankPage }

/-- Moves every row up by one, the first one off the page, and stays on the last. -/
def moveUp (c : Console) : Checked Console :=
  -- every cell is written
  ⟨{ c with page := c.page.mapIdx fun i _ => c.page.getD (i + columns) 0, row := rows - 1 },
    rows * columns ≤ c.page.size⟩

def scroll (c : Console) : Console := c.moveUp.value

def startRow (c : Console) : Checked Console :=
  let c := { c with col := 0, row := c.row + 1 }
  if c.row ≥ rows then c.moveUp else pure c

def startRowIf (c : Console) (full : Prop) [Decidable full] : Checked Console :=
  if full then c.startRow else pure c

def newline (c : Console) : Console := c.startRow.value

def typeCell (c : Console) (b : UInt8) : Checked Console := do
  let page ← Checked.setByte c.page (c.row * columns + c.col) b
  return { c with page, col := c.col + 1 }

def put (c : Console) (b : UInt8) : Console := (c.typeCell b).value

def typeChar (c : Console) (code : UInt16) : Checked Console :=
  if code == 10 then c.startRow
  else do
    let cells := if code > 0xff then [code.toUInt8, (code >>> 8).toUInt8] else [code.toUInt8]
    let c ← c.startRowIf (c.col + cells.length > columns)
    let c ← cells.foldlM typeCell c
    c.startRowIf (c.col ≥ columns)

def addChar (c : Console) (code : UInt16) : Console := (c.typeChar code).value

/-- The top bit keeps the page; any other mode clears it and goes home. -/
def setMode (c : Console) (mode : UInt8) : Console :=
  if mode &&& 0x80 == 0 then { c with mode, page := c.page.map fun _ => 0, row := 0, col := 0 }
  else { c with mode }

def locate (c : Console) (row col : UInt8) : Console :=
  { c with row := min row.toNat (rows - 1), col := min col.toNat (columns - 1) }

def glyph (b : UInt8) : Char :=
  if b == 0 then ' '
  else if b ≥ 0x80 then '▒'
  else if CharClass.printable.holds b then Char.ofNat b.toNat
  else '?'

/-- Cells as text. A cell with the high bit set takes the next cell with it. -/
def cellText : Bytes → List Char
  | [] => []
  | [b] => [glyph b]
  | b :: next :: rest => glyph b :: if b ≥ 0x80 then cellText rest else cellText (next :: rest)

def line (c : Console) (row : Nat) : Checked String := do
  let cells ← Checked.slice c.page (row * columns) columns
  return String.ofList (cellText cells.toList)

def frame (c : Console) : Checked String := do
  let lines ← (List.range rows).mapM c.line
  return "\x1b[H" ++ String.join (lines.map (· ++ "\x1b[K\r\n"))

def reply (c : Console) : TextCall → Checked (Console × Option String)
  | .char code => return (← c.typeChar code, none)
  | .update _ => do
    let frame ← c.frame
    return (c, if c.attached then some frame else none)
  | .setMode mode => return (c.setMode mode, none)
  | .locate row col => return (c.locate row col, none)

def answer (c : Console) (call : TextCall) : Console × Option String := (c.reply call).value

end Console
end LavMachine
