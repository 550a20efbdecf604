import LavMachine.Word
set_option autoImplicit false

/-!
Tagged references: a stack word that names a memory cell. The low sixteen bits are the address, the
seven above them the access width, and one more bit asks for the frame start to be added.
-/
namespace LavMachine

structure Reference where
  addr : Nat
  width : Nat
  pool : Bool := false
  frame : Bool := false
  deriving DecidableEq, Repr

namespace Reference

def literal (addr : Nat) : Reference := { addr, width := 1, pool := true }

def decode (w : Word) : Reference :=
  let n := w.toUInt32.toNat
  let tag := n / 65536 % 128
  let pool := tag / 16 % 2 == 1
  let width := if pool then tag - 16 else tag
  { addr := n % 65536
    width := if pool && width == 0 then 1 else width
    pool
    frame := n / 0x800000 % 2 == 1 }

/-- A pool reference is written with the pool tag alone, whatever its width. -/
def encode (r : Reference) : Word :=
  let tag := if r.pool then 16 else r.width
  Int32.ofNat (r.addr % 65536 + 65536 * tag + if r.frame then 0x800000 else 0)

def resolve (r : Reference) (frameStart : Nat) : Nat :=
  if r.frame then (r.addr + frameStart) % 65536 else r.addr

end Reference
end LavMachine
