import LavMachine.Keyboard.Terminal
set_option autoImplicit false

namespace LavMachine

def Key.ofChar (c : Char) : Key :=
  let n := c.toNat
  if c == '\r' || c == '\n' then .enter
  else if c == '\t' then .tab
  else if n == 0x1b then .escape
  else if n == 0x7f then .backspace
  else if n < 0x20 then .control (Char.ofNat (n + 0x60))
  else .char c

def Key.sequences : List (String × Key) := [
  ("OA", .up), ("OB", .down), ("OC", .right), ("OD", .left), ("OH", .home), ("OF", .endKey),
  ("[2~", .insert), ("[3~", .delete), ("[5~", .pageUp), ("[6~", .pageDown),
  ("OP", .function 1), ("OQ", .function 2), ("OR", .function 3), ("OS", .function 4),
  ("[15~", .function 5), ("[17~", .function 6), ("[18~", .function 7), ("[19~", .function 8),
  ("[20~", .function 9), ("[21~", .function 10), ("[23~", .function 11), ("[24~", .function 12)]

namespace TerminalEvent

def after? (c : Char) : List Char → Option (List Char)
  | [] => none
  | d :: rest => if d == c then some rest else none

def afterNumber? (chars : List Char) : Option (List Char) :=
  let n := (chars.takeWhile Char.isDigit).foldl (fun n d => 10 * n + (d.toNat - '0'.toNat)) 0
  if n < UInt32.size then some (chars.dropWhile Char.isDigit) else none

def afterReport? (chars : List Char) : Option (List Char) := do
  let button ← (after? '[' chars).bind (after? '<')
  let column ← (afterNumber? button).bind (after? ';')
  let row ← (afterNumber? column).bind (after? ';')
  let last ← afterNumber? row
  after? 'M' last <|> after? 'm' last

def sequence? (chars : List Char) : Option (TerminalEvent × Nat) :=
  match Key.sequences.find? fun (s, _) => s.toList.isPrefixOf chars with
  | some (s, k) => some (.key k, s.length)
  | none => (afterReport? chars).map fun rest => (.other, chars.length - rest.length)

def readFrom : (skip : Nat) → List Char → List TerminalEvent
  | _, [] => []
  | skip + 1, _ :: rest => readFrom skip rest
  | 0, c :: rest =>
    match (if c.toNat == 0x1b then sequence? rest else none) with
    | some (event, length) => event :: readFrom length rest
    | none => .key (Key.ofChar c) :: readFrom 0 rest

def readSize : Nat := 128

/-- The size of the buffer when `left` bytes of a character that has not come whole are kept in it.
It doubles unless the space behind them is enough for a read. -/
def bufferSize (size left : Nat) : Nat :=
  if left == 0 || left + readSize ≤ size then size else 2 * size

def consFirst (c : Char) : List (List Char) → List (List Char)
  | [] => [[c]]
  | first :: more => (c :: first) :: more

/-- Parts a text into what each read brings into a buffer of `size` bytes, of which `room` are left.
A character that does not fit comes whole with the next read. -/
def reads (size room : Nat) : List Char → List (List Char)
  | [] => []
  | c :: rest =>
    if c.utf8Size ≤ room then consFirst c (reads size (room - c.utf8Size) rest)
    else
      let size := bufferSize size room
      [] :: consFirst c (reads size (size - c.utf8Size) rest)

/-- The events of a text that has been typed before anything was read. A sequence that does not come
whole with one read is none. -/
def ofTyped (text : String) : List TerminalEvent :=
  (reads readSize readSize text.toList).flatMap (readFrom 0)

end TerminalEvent
end LavMachine
