import LavMachine.Fault
import LavMachine.LittleEndian
import LavMachine.Word
set_option autoImplicit false

namespace LavMachine

inductive DisplayCall where
  | setMode (mode : Word)
  | point (x y : Int16)
  | line (x0 y0 x1 y1 : Int16)
  | rectangle (x0 y0 x1 y1 : Int16)
  | oval (x y a b : Int16)
  | region (x y width height : Int16) (image : Bytes)
  | string (x y : Int16) (text : Bytes)
  | getPoint (x y : Int16)
  | getRegion (x y width height : Int16)
  | clear
  | refresh
  | transform (mode : Word)
  deriving DecidableEq, Repr

abbrev DisplayCall.Answer : DisplayCall → Type
  | .getPoint .. => Word
  | .getRegion .. => Bytes
  | _ => Unit

inductive TextCall where
  /-- Codes above 0xff are double-byte characters, low byte first. -/
  | char (code : UInt16)
  | update (mode : Word)
  | setMode (mode : UInt8)
  | locate (row col : UInt8)
  deriving DecidableEq, Repr

inductive KeyCall where
  | getChar
  | inkey
  | rawKey
  | check (key : Word)
  | release (key : Word)
  deriving DecidableEq, Repr

abbrev KeyCall.Answer : KeyCall → Type
  | .getChar | .rawKey => Except DeviceFailure Word
  | .inkey | .check _ => Word
  | .release _ => Unit

inductive DiskCall where
  | openFile (name mode : Bytes)
  | close (handle : Word)
  /-- The count of bytes read, and a buffer of `size` bytes that starts with them. -/
  | read (handle : Word) (size : Nat)
  | write (handle : Word) (data : Bytes)
  | seek (handle offset base : Word)
  | tell (handle : Word)
  | atEnd (handle : Word)
  | rewind (handle : Word)
  | getByte (handle : Word)
  | putByte (byte handle : Word)
  | changeDirectory (name : Bytes)
  | makeDirectory (name : Bytes)
  | delete (name : Bytes)
  | count
  | list (start size : Nat)
  | dispose
  deriving DecidableEq, Repr

abbrev DiskCall.Answer : DiskCall → Type
  | .openFile .. | .write .. | .seek .. | .tell _ | .getByte _ | .putByte .. => Word
  | .read .. => Word × Bytes
  | .atEnd _ | .changeDirectory _ | .makeDirectory _ | .delete _ => Bool
  | .count => Nat
  | .list .. => List String
  | .close _ | .rewind _ | .dispose => Unit

/-- Bytes of an image of one bit a pixel, rows padded to whole bytes; never more than memory
holds. -/
def imageSize (width height : Int16) : Nat :=
  min ((width.toInt.toNat + 7) / 8 * height.toInt.toNat) 65536

structure KeyMap where
  enter : Word := 13
  escape : Word := 27
  up : Word := 20
  down : Word := 21
  left : Word := 23
  right : Word := 22
  deriving DecidableEq, Repr

end LavMachine
