import LavMachine.LittleEndian
set_option autoImplicit false

namespace LavMachine.Checksum

def shiftBits : (bits : Nat) → UInt16 → UInt16
  | 0, crc => crc
  | bits + 1, crc =>
    shiftBits bits (if crc &&& 1 == 1 then (crc >>> 1) ^^^ 0x8408 else crc >>> 1)

def step (crc : UInt16) (b : UInt8) : UInt16 := shiftBits 8 (crc ^^^ b.toUInt16)

def x25 (data : Bytes) : UInt16 := ~~~(data.foldl step 0xffff)

end LavMachine.Checksum
