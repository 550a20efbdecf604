set_option autoImplicit false

namespace LavMachine

structure Config where
  stackSize : Nat := 1024
  poolBase : Nat := 0x1400
  poolSize : Nat := 0xc00
  graphBase : Nat := 0
  bufferBase : Nat := 0x640
  textBase : Nat := 0xc80
  screenWidth : Nat := 160
  screenHeight : Nat := 80
  deriving DecidableEq, Repr

/-- Bytes of a screen of one bit a pixel, fractions dropped. -/
def screenBytes (width height : Nat) : Nat := width * height / 8

def textPageSize : Nat := 160

def lineHeight : Nat := 13

def batchSize : Nat := 5000

end LavMachine
