set_option autoImplicit false

namespace LavMachine

abbrev Bytes := List UInt8

/-- The number whose little-endian digits are the given bytes. -/
def Bytes.toNat : Bytes → Nat
  | [] => 0
  | b :: rest => b.toNat + 256 * Bytes.toNat rest

def Bytes.ofNat : (count n : Nat) → Bytes
  | 0, _ => []
  | count + 1, n => UInt8.ofNat n :: Bytes.ofNat count (n / 256)

@[simp] theorem Bytes.length_ofNat (count n : Nat) : (Bytes.ofNat count n).length = count := by
  induction count generalizing n <;> simp_all [Bytes.ofNat]

theorem Bytes.toNat_ofNat (count n : Nat) :
    (Bytes.ofNat count n).toNat = n % Nat.pow 256 count := by
  induction count generalizing n with
  | zero => simp [Bytes.ofNat, Bytes.toNat, Nat.mod_one]
  | succ count ih =>
    have h : Nat.pow 256 (count + 1) = 256 * Nat.pow 256 count := Nat.mul_comm ..
    rw [Bytes.ofNat, Bytes.toNat, ih, h, Nat.mod_mul]
    rfl

end LavMachine
