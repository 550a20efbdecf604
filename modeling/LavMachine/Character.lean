import LavMachine.Word
set_option autoImplicit false

namespace LavMachine

inductive CharClass where
  | alphanumeric
  | letter
  | control
  | digit
  | graphic
  | lowercase
  | printable
  | punctuation
  | space
  | uppercase
  | hexDigit
  deriving DecidableEq, Repr

def CharClass.holds (k : CharClass) (b : UInt8) : Bool :=
  let digit := 0x30 ≤ b && b ≤ 0x39
  let upper := 0x41 ≤ b && b ≤ 0x5a
  let lower := 0x61 ≤ b && b ≤ 0x7a
  let graphic := 0x21 ≤ b && b ≤ 0x7e
  match k with
  | .alphanumeric => digit || upper || lower
  | .letter => upper || lower
  | .control => b < 0x20 || b == 0x7f
  | .digit => digit
  | .graphic => graphic
  | .lowercase => lower
  | .printable => graphic || b == 0x20
  | .punctuation => graphic && !(digit || upper || lower)
  | .space => b == 0x20 || (0x09 ≤ b && b ≤ 0x0d)
  | .uppercase => upper
  | .hexDigit => digit || (0x41 ≤ b && b ≤ 0x46) || (0x61 ≤ b && b ≤ 0x66)

def toLowerByte (b : UInt8) : UInt8 := if CharClass.uppercase.holds b then b + 0x20 else b

def toUpperByte (b : UInt8) : UInt8 := if CharClass.lowercase.holds b then b - 0x20 else b

end LavMachine
