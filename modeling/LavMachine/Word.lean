set_option autoImplicit false

namespace LavMachine

abbrev Word := Int32

namespace Word

def ofBool (b : Bool) : Word := if b then -1 else 0

def address (w : Word) : Nat := w.toUInt32.toNat % 65536

def lowByte (w : Word) : UInt8 := w.toUInt32.toUInt8

/-- A length operand: the low sixteen bits as a signed number, negative lengths counting as zero. -/
def length (w : Word) : Nat := w.toInt16.toInt.toNat

end Word

inductive UnaryOp where
  | negate
  | complement
  | not
  | absolute
  deriving DecidableEq, Repr

def UnaryOp.eval : UnaryOp → Word → Word
  | .negate, a => -a
  | .complement, a => ~~~a
  | .not, a => Word.ofBool (a == 0)
  | .absolute, a => if a < 0 then -a else a

inductive BinaryOp where
  | add
  | subtract
  | bitAnd
  | bitOr
  | bitXor
  | both
  | either
  | multiply
  | divide
  | modulo
  | shiftLeft
  | shiftRight
  | shiftRightLogical
  | equal
  | notEqual
  | lessEqual
  | greaterEqual
  | greater
  | less
  deriving DecidableEq, Repr

/-- Division truncates; dividing by zero gives -1 and leaves remainder 0. Shift counts are taken
modulo 32. -/
def BinaryOp.eval : BinaryOp → Word → Word → Word
  | .add, a, b => a + b
  | .subtract, a, b => a - b
  | .bitAnd, a, b => a &&& b
  | .bitOr, a, b => a ||| b
  | .bitXor, a, b => a ^^^ b
  | .both, a, b => Word.ofBool (a != 0 && b != 0)
  | .either, a, b => Word.ofBool (a != 0 || b != 0)
  | .multiply, a, b => a * b
  | .divide, a, b => if b == 0 then -1 else a / b
  | .modulo, a, b => if b == 0 then 0 else a % b
  | .shiftLeft, a, b => a <<< b
  | .shiftRight, a, b => a >>> b
  | .shiftRightLogical, a, b => (a.toUInt32 >>> b.toUInt32).toInt32
  | .equal, a, b => Word.ofBool (a == b)
  | .notEqual, a, b => Word.ofBool (a != b)
  | .lessEqual, a, b => Word.ofBool (a ≤ b)
  | .greaterEqual, a, b => Word.ofBool (b ≤ a)
  | .greater, a, b => Word.ofBool (b < a)
  | .less, a, b => Word.ofBool (a < b)

end LavMachine
