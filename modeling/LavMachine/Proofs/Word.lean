import Mathlib
import LavMachine.Word
set_option autoImplicit false

namespace LavMachine

/-- The number in the range of a word with the same low 32 bits. -/
def wrap (n : Int) : Int := n.bmod (2 ^ 32)

def unsigned (n : Int) : Nat := (n % 2 ^ 32).toNat

def shiftCount (n : Int) : Nat := (n % 32).toNat

def truth (p : Prop) [Decidable p] : Int := if p then -1 else 0

def UnaryOp.value : UnaryOp → Int → Int
  | .negate, a => wrap (-a)
  | .complement, a => -a - 1
  | .not, a => truth (a = 0)
  | .absolute, a => wrap |a|

/-- Quotients go toward zero. Dividing by zero gives -1, and the remainder is 0. -/
def BinaryOp.value : BinaryOp → Int → Int → Int
  | .add, a, b => wrap (a + b)
  | .subtract, a, b => wrap (a - b)
  | .multiply, a, b => wrap (a * b)
  | .divide, a, b => if b = 0 then -1 else wrap (a.tdiv b)
  | .modulo, a, b => if b = 0 then 0 else a.tmod b
  | .bitAnd, a, b => wrap (unsigned a &&& unsigned b : Nat)
  | .bitOr, a, b => wrap (unsigned a ||| unsigned b : Nat)
  | .bitXor, a, b => wrap (unsigned a ^^^ unsigned b : Nat)
  | .shiftLeft, a, b => wrap (a * 2 ^ shiftCount b)
  | .shiftRight, a, b => a / 2 ^ shiftCount b
  | .shiftRightLogical, a, b => wrap (unsigned a / 2 ^ shiftCount b : Nat)
  | .both, a, b => truth (a ≠ 0 ∧ b ≠ 0)
  | .either, a, b => truth (a ≠ 0 ∨ b ≠ 0)
  | .equal, a, b => truth (a = b)
  | .notEqual, a, b => truth (a ≠ b)
  | .lessEqual, a, b => truth (a ≤ b)
  | .greaterEqual, a, b => truth (a ≥ b)
  | .greater, a, b => truth (a > b)
  | .less, a, b => truth (a < b)

namespace Word

theorem unsigned_toInt (a : Word) : unsigned a.toInt = a.toBitVec.toNat := by
  have hlt := a.toBitVec.isLt
  have hmod : a.toInt % 2 ^ 32 = a.toBitVec.toNat := by
    rw [← Int32.toInt_toBitVec, BitVec.toInt_eq_toNat_bmod]
    change Int.bmod _ (2 ^ 32 : Nat) % ((2 ^ 32 : Nat) : Int) = _
    rw [Int.bmod_emod]
    exact Int.emod_eq_of_lt (by omega) (by exact_mod_cast hlt)
  rw [unsigned, hmod, Int.toNat_natCast]

theorem wrap_toInt (a : Word) : wrap a.toInt = a.toInt := a.toInt_bmod_size

theorem toInt_eq_wrap (a : Word) : a.toInt = wrap a.toBitVec.toNat := by
  rw [← Int32.toInt_toBitVec, BitVec.toInt_eq_toNat_bmod]
  rfl

theorem toInt_ofBool (b : Bool) : (ofBool b).toInt = truth b := by cases b <;> rfl

theorem toInt_eq_zero_iff (a : Word) : a.toInt = 0 ↔ a = 0 := by
  rw [← Int32.toInt_inj]
  rfl

theorem toNat_smod (b : Word) : (b.toBitVec.smod 32).toNat = shiftCount b.toInt := by
  have hmod : (b.toBitVec.smod 32).toInt = b.toInt % 32 := by
    rw [BitVec.toInt_smod, Int32.toInt_toBitVec]
    exact Int.fmod_eq_emod_of_nonneg _ (by decide)
  have hnat := unsigned_toInt ⟨⟨b.toBitVec.smod 32⟩⟩
  change unsigned (b.toBitVec.smod 32).toInt = (b.toBitVec.smod 32).toNat at hnat
  rw [← hnat, hmod, unsigned, shiftCount]
  congr 1
  omega

theorem toInt_shiftLeft (a b : Word) :
    (a <<< b).toInt = wrap (a.toInt * 2 ^ shiftCount b.toInt) := by
  rw [← Int32.toInt_toBitVec, Int32.toBitVec_shiftLeft, BitVec.shiftLeft_eq',
    BitVec.toInt_shiftLeft, toNat_smod, Nat.shiftLeft_eq, toInt_eq_wrap a, wrap, wrap,
    Int.bmod_mul_bmod]
  push_cast
  rfl

theorem toInt_shiftRight (a b : Word) : (a >>> b).toInt = a.toInt / 2 ^ shiftCount b.toInt := by
  rw [← Int32.toInt_toBitVec, Int32.toBitVec_shiftRight, BitVec.toInt_sshiftRight', toNat_smod,
    Int.shiftRight_eq_div_pow, Int32.toInt_toBitVec]
  norm_cast

theorem toInt_shiftRightLogical (a b : Word) :
    (a.toUInt32 >>> b.toUInt32).toInt32.toInt =
      wrap (unsigned a.toInt / 2 ^ shiftCount b.toInt : Nat) := by
  have hcount : shiftCount b.toInt = b.toBitVec.toNat % 32 := by
    rw [← unsigned_toInt, shiftCount, unsigned]
    omega
  have hbits : (a.toUInt32 >>> b.toUInt32).toInt32.toBitVec.toNat =
      unsigned a.toInt / 2 ^ shiftCount b.toInt := by
    rw [unsigned_toInt, hcount, ← Nat.shiftRight_eq_div_pow]
    exact UInt32.toNat_shiftRight a.toUInt32 b.toUInt32
  rw [toInt_eq_wrap, hbits]

theorem toInt_absolute (a : Word) : (if a < 0 then -a else a).toInt = wrap |a.toInt| := by
  have hneg : a < 0 ↔ a.toInt < 0 := Int32.lt_iff_toInt_lt
  split
  · rename_i h
    rw [abs_of_neg (hneg.1 h), Int32.toInt_neg]
    rfl
  · rename_i h
    rw [abs_of_nonneg (by rwa [hneg, not_lt] at h), wrap_toInt]

theorem toInt_complement (a : Word) : (~~~a).toInt = -a.toInt - 1 := by
  have hlow := a.le_toInt
  have hhigh := a.toInt_lt
  rw [Int32.toInt_not]
  exact Int.bmod_eq_of_le (by omega) (by omega)

end Word

theorem UnaryOp.toInt_eval (op : UnaryOp) (a : Word) : (op.eval a).toInt = op.value a.toInt := by
  cases op with
  | negate => exact Int32.toInt_neg a
  | complement => exact Word.toInt_complement a
  | not =>
    simp [eval, value, Word.toInt_ofBool, Word.toInt_eq_zero_iff]
  | absolute => exact Word.toInt_absolute a

theorem BinaryOp.toInt_eval (op : BinaryOp) (a b : Word) :
    (op.eval a b).toInt = op.value a.toInt b.toInt := by
  cases op with
  | add => exact Int32.toInt_add a b
  | subtract => exact Int32.toInt_sub a b
  | multiply => exact Int32.toInt_mul a b
  | divide =>
    by_cases hb : b = 0
    · subst hb
      rfl
    · simp only [eval, value, beq_iff_eq, Word.toInt_eq_zero_iff, hb, if_false]
      exact Int32.toInt_div a b
  | modulo =>
    by_cases hb : b = 0
    · subst hb
      rfl
    · simp only [eval, value, beq_iff_eq, Word.toInt_eq_zero_iff, hb, if_false]
      exact Int32.toInt_mod a b
  | bitAnd | bitOr | bitXor =>
    rw [eval, value, Word.unsigned_toInt, Word.unsigned_toInt, Word.toInt_eq_wrap]
    rfl
  | shiftLeft => exact Word.toInt_shiftLeft a b
  | shiftRight => exact Word.toInt_shiftRight a b
  | shiftRightLogical => exact Word.toInt_shiftRightLogical a b
  | both | either => simp [eval, value, Word.toInt_ofBool, Word.toInt_eq_zero_iff]
  | equal | notEqual => simp [eval, value, Word.toInt_ofBool, Int32.toInt_inj]
  | lessEqual | greaterEqual => simp [eval, value, Word.toInt_ofBool, Int32.le_iff_toInt_le]
  | greater | less => simp [eval, value, Word.toInt_ofBool, Int32.lt_iff_toInt_lt]

end LavMachine
