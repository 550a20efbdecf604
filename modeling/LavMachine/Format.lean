import LavMachine.Memory.Strings
set_option autoImplicit false

/-!
Formatted text. `%d`, `%c` and `%s` stand for the next argument; any other byte after `%` stands for
itself, and a `%` at the end for nothing. Missing arguments count as zero.

The wide form is for the text console: a byte with the high bit set is joined with the byte after it
into one double-byte character, in the format and in `%s` arguments. `%c` and the byte after `%` are
never joined.
-/
namespace LavMachine.Format

def join (first second : UInt8) : UInt16 := first.toUInt16 ||| (second.toUInt16 <<< 8)

/-- Appends the string at `a`, newest code first, looking at no more than `fuel` characters. -/
def textFrom (m : Memory) (wide : Bool) : (fuel a : Nat) → List UInt16 → List UInt16
  | 0, _, out => out
  | fuel + 1, a, out =>
    let b := m.getByte a
    if b == 0 then out
    else if wide && b ≥ 0x80 then
      let second := m.getByte (a + 1)
      if second == 0 then b.toUInt16 :: out
      else textFrom m wide fuel (a + 2) (join b second :: out)
    else textFrom m wide fuel (a + 1) (b.toUInt16 :: out)

def decimal (w : Word) : List UInt16 := (toString w.toInt).toList.map fun c => UInt16.ofNat c.toNat

/-- Appends what a conversion makes of its argument, newest code first; none for a byte that is no
conversion. -/
def convert? (m : Memory) (wide : Bool) (conversion : UInt8) (arg : Word) (out : List UInt16) :
    Option (List UInt16) :=
  if conversion == 0x64 then some ((decimal arg).reverse ++ out)
  else if conversion == 0x63 then some (arg.lowByte.toUInt16 :: out)
  else if conversion == 0x73 then some (textFrom m wide addressSpace arg.address out)
  else none

def expandFrom (m : Memory) (wide : Bool) : (fuel a : Nat) → List Word → List UInt16 → List UInt16
  | 0, _, _, out => out
  | fuel + 1, a, args, out =>
    let b := m.getByte a
    if b == 0 then out
    else if b == 0x25 then
      let conversion := m.getByte (a + 1)
      if conversion == 0 then out
      else match convert? m wide conversion (args.headD 0) out with
        | some out => expandFrom m wide fuel (a + 2) args.tail out
        | none => expandFrom m wide fuel (a + 2) args (conversion.toUInt16 :: out)
    else if wide && b ≥ 0x80 then
      let second := m.getByte (a + 1)
      if second == 0 then b.toUInt16 :: out
      else expandFrom m wide fuel (a + 2) args (join b second :: out)
    else expandFrom m wide fuel (a + 1) args (b.toUInt16 :: out)

def expand (m : Memory) (a : Nat) (args : List Word) (wide : Bool) : List UInt16 :=
  (expandFrom m wide addressSpace a args []).reverse

end LavMachine.Format
