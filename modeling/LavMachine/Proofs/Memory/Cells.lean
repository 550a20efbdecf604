import Mathlib
import LavMachine.Machine.Processor
import LavMachine.Proofs.Memory.Literals
import LavMachine.Proofs.Word
set_option autoImplicit false

namespace LavMachine

namespace Word

theorem address_eq (w : Word) : w.address = (w.toInt % addressSpace).toNat := by
  have hbits : w.toUInt32.toNat = unsigned w.toInt := w.unsigned_toInt.symm
  rw [address, hbits, unsigned, addressSpace]
  omega

theorem toInt_and_lowByte (v : Word) : (v &&& 0xff).toInt = v.toInt % 256 := by
  have hand : (v &&& 0xff).toInt = wrap (unsigned v.toInt &&& unsigned (0xff : Word).toInt : Nat) :=
    BinaryOp.toInt_eval .bitAnd v 0xff
  have hmask : unsigned (0xff : Word).toInt = 2 ^ 8 - 1 := by decide
  rw [hand, hmask, Nat.and_two_pow_sub_one_eq_mod, wrap, Int.bmod_eq_of_le] <;>
    simp only [unsigned] <;> omega

theorem toInt_toInt16 (v : Word) : v.toInt16.toInt32.toInt = v.toInt.bmod 65536 := by
  rw [Int16.toInt_toInt32, Int32.toInt_toInt16]

theorem toInt_add_cases (a b : Word) : (a + b).toInt = a.toInt + b.toInt ∨
    (a + b).toInt = a.toInt + b.toInt + 2 ^ 32 ∨ (a + b).toInt = a.toInt + b.toInt - 2 ^ 32 := by
  have hahigh := a.toInt_lt
  have halow := a.le_toInt
  have hbhigh := b.toInt_lt
  have hblow := b.le_toInt
  rw [Int32.toInt_add]
  simp only [Int.bmod]
  split <;> omega

end Word

namespace Width

/-- What a cell keeps of a word: the word modulo 256, its low sixteen bits with their sign, or all
of it. -/
def narrow : Width → Word → Word
  | .char, v => v &&& 0xff
  | .int, v => v.toInt16.toInt32
  | .long, v => v

def range : Width → Set Int
  | .char => Set.Ico 0 256
  | .int => Set.Ico (-32768) 32768
  | .long => Set.univ

variable (w : Width)

theorem min_bytes : min w.bytes 4 = w.bytes := by cases w <;> rfl

theorem narrow_eq_self_iff (v : Word) : w.narrow v = v ↔ v.toInt ∈ w.range := by
  rw [← Int32.toInt_inj]
  cases w with
  | char =>
    rw [narrow, Word.toInt_and_lowByte, range, Set.mem_Ico]
    omega
  | int =>
    rw [narrow, Word.toInt_toInt16, range, Set.mem_Ico, Int.bmod]
    split <;> omega
  | long => simp [narrow, range]

/-- Where a number of a cell is changed, a sum that wraps is out of range before and after. -/
theorem toInt_add_mem_range_iff {old : Word} (hold : old.toInt ∈ w.range) (delta : Word) :
    (old + delta).toInt ∈ w.range ↔ old.toInt + delta.toInt ∈ w.range := by
  have hsum := Word.toInt_add_cases old delta
  have hhigh := delta.toInt_lt
  have hlow := delta.le_toInt
  have hhigh' := (old + delta).toInt_lt
  have hlow' := (old + delta).le_toInt
  cases w with
  | char | int =>
    simp only [range, Set.mem_Ico] at hold ⊢
    omega
  | long => simp [range]

end Width

namespace Memory

open Processor

variable {m n : Memory} (a : Nat) (w : Width)

theorem readCell_setBytes (h : m.Unshared) (v : Word) :
    readCell (m.setBytes a w.bytes v) a w = w.narrow v := by
  cases w with
  | char =>
    have hread : readCell (m.setBytes a 1 v) a .char = Int32.ofNat (v.toUInt32.toNat % 2 ^ 8) :=
      getBytes_setBytes h a (by decide) v
    have hlow : Int32.ofNat (v.toUInt32.toNat % 2 ^ 8) = v &&& 0xff := by
      have hbits : v.toUInt32.toNat = unsigned v.toInt := v.unsigned_toInt.symm
      rw [← Int32.toInt_inj, Int32.toInt_ofNat_of_lt (by omega), Word.toInt_and_lowByte, hbits,
        unsigned]
      omega
    exact hread.trans hlow
  | int => exact getInt_setInt h a v
  | long => exact getLong_setLong h a v

theorem getByte_setBytes_of_outside_cell (h : m.Unshared) (v : Word) {b : Nat}
    (hb : Outside a w.bytes b) :
    (m.setBytes a w.bytes v).getByte b = m.getByte b :=
  getByte_setBytes_of_outside h v (by rwa [w.min_bytes])

theorem readReference_eq (m : Memory) : readReference m a w.bytes = readCell m a w := by
  cases w <;> rfl

theorem readCell_congr (h : ∀ b, Within a w.bytes b → n.getByte b = m.getByte b) :
    readCell n a w = readCell m a w := by
  have hblock : n.readBlock a w.bytes = m.readBlock a w.bytes :=
    readBlock_congr fun i hi => h _ ⟨i, hi, rfl⟩
  cases w with
  | char => exact congrArg (fun bytes => Int32.ofNat (Bytes.toNat bytes)) hblock
  | int => exact congrArg (fun bytes => (Int32.ofNat (Bytes.toNat bytes)).toInt16.toInt32) hblock
  | long => exact congrArg (fun bytes => Int32.ofNat (Bytes.toNat bytes)) hblock

theorem toInt_readCell_mem_range (m : Memory) : (readCell m a w).toInt ∈ w.range := by
  cases w with
  | char =>
    have hread : readCell m a .char = Int32.ofNat (m.getByte a).toNat := by
      simp [readCell, getChar, getBytes, readBlock, Bytes.toNat]
    have hlt : (m.getByte a).toNat < 256 := (m.getByte a).toNat_lt
    rw [hread, Int32.toInt_ofNat_of_lt (by omega), Width.range, Set.mem_Ico]
    omega
  | int =>
    have hlow := (m.getBytes a 2).toInt16.le_toInt
    have hhigh := (m.getBytes a 2).toInt16.toInt_lt
    rw [readCell, getInt, Int16.toInt_toInt32, Width.range, Set.mem_Ico]
    omega
  | long => exact Set.mem_univ _

end Memory

/-- The word refers to the cell of width `w` at `a`, whatever the current frame is. -/
structure Word.Names (r : Word) (w : Width) (a : Nat) : Prop where
  addr : (Reference.decode r).addr = a
  width : (Reference.decode r).width = w.bytes
  frame : (Reference.decode r).frame = false

theorem Word.Names.resolve {r : Word} {w : Width} {a : Nat} (h : r.Names w a) (start : Nat) :
    (Reference.decode r).resolve start = a := by
  simp [Reference.resolve, h.frame, h.addr]

theorem Reference.names_encode (w : Width) {a : Nat} (ha : a < addressSpace) :
    Word.Names { addr := a, width := w.bytes : Reference }.encode w a := by
  have hdecode :=
    decode_encode (r := { addr := a, width := w.bytes }) ⟨ha, by cases w <;> simp [Width.bytes]⟩
  exact ⟨by rw [hdecode], by rw [hdecode], by rw [hdecode]⟩

theorem Pool.names_intern (p : Pool) (text : Bytes) :
    (p.intern text).1.Names .char (p.intern text).1.address := by
  have hliteral : ∃ a, (p.intern text).1 = (Reference.literal a).encode := by
    rw [intern_eq]
    split
    · exact ⟨_, rfl⟩
    · exact ⟨_, rfl⟩
  obtain ⟨a, ha⟩ := hliteral
  have hmod : (Reference.literal a).encode = (Reference.literal (a % addressSpace)).encode := by
    simp [Reference.encode, Reference.literal, addressSpace]
  have hdecode := Reference.decode_literal (mod_addressSpace_lt a)
  rw [← hmod, ← ha] at hdecode
  exact ⟨rfl, by rw [hdecode]; rfl, by rw [hdecode]; rfl⟩

end LavMachine
