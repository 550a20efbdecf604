import Mathlib
import LavMachine.Memory.Basic
import LavMachine.Reference
set_option autoImplicit false

namespace LavMachine

def Word.bit (w : Word) (k : Nat) : Bool := w.toBitVec.getLsbD k

theorem Word.bit_eq_false_iff (w : Word) (k : Nat) :
    w.bit k = false ↔ w.toUInt32.toNat / 2 ^ k % 2 = 0 := by
  have hbit : w.bit k = w.toUInt32.toNat.testBit k := rfl
  rw [hbit, Nat.testBit_eq_decide_div_mod_eq, decide_eq_false_iff_not]
  omega

theorem Word.eq_iff_toNat_eq (v w : Word) : v = w ↔ v.toUInt32.toNat = w.toUInt32.toNat :=
  ⟨fun h => h ▸ rfl, fun h => Int32.toBitVec_inj.1 (BitVec.eq_of_toNat_eq h)⟩

namespace Reference

/-- What a word keeps between the address and the frame bit. -/
def tag (r : Reference) : Nat := if r.pool then 16 else r.width

/-- A reference that instructions make: it lies in the address space, and a literal is read by
bytes. -/
structure Sound (r : Reference) : Prop where
  addr_lt : r.addr < addressSpace
  width_eq : if r.pool then r.width = 1 else r.width = 1 ∨ r.width = 2 ∨ r.width = 4

variable {r : Reference} {w : Word}

theorem Sound.tag_lt (h : r.Sound) : r.tag < 128 := by
  have hwidth := h.width_eq
  unfold tag
  split at hwidth <;> simp_all
  omega

theorem toNat_encode (htag : r.tag < 128) :
    r.encode.toUInt32.toNat = r.addr % 65536 + 65536 * r.tag + if r.frame then 0x800000 else 0 := by
  have hcode : r.encode =
      Int32.ofNat (r.addr % 65536 + 65536 * r.tag + if r.frame then 0x800000 else 0) := rfl
  rw [hcode, Int32.toUInt32_ofNat', UInt32.toNat_ofNat']
  split <;> omega

theorem decode_of_digits {a n : Nat} {frame : Bool} (ha : a < 65536) (hn : n < 128)
    (hw : w.toUInt32.toNat = a + 65536 * n + if frame then 0x800000 else 0) :
    decode w = {
      addr := a
      width := if n / 16 % 2 = 1 then (if n = 16 then 1 else n - 16) else n
      pool := n / 16 % 2 == 1
      frame } := by
  have haddr : w.toUInt32.toNat % 65536 = a := by split at hw <;> omega
  have htag : w.toUInt32.toNat / 65536 % 128 = n := by split at hw <;> omega
  have hframe : (w.toUInt32.toNat / 0x800000 % 2 == 1) = frame := by
    cases frame <;> simp at hw ⊢ <;> omega
  simp only [decode, haddr, htag, hframe]
  by_cases hpool : n / 16 % 2 = 1
  · have hempty : n - 16 = 0 ↔ n = 16 := by omega
    simp [hpool, hempty]
  · simp [hpool]

theorem decode_encode (h : r.Sound) : decode r.encode = r := by
  obtain ⟨haddr, hwidth⟩ := h
  have hmod : r.addr % 65536 = r.addr := Nat.mod_eq_of_lt haddr
  have hdigits := toNat_encode (Sound.tag_lt ⟨haddr, hwidth⟩)
  rw [hmod] at hdigits
  rw [decode_of_digits haddr (Sound.tag_lt ⟨haddr, hwidth⟩) hdigits]
  obtain ⟨a, width, pool, frame⟩ := r
  cases pool with
  | true => simp_all [tag]
  | false =>
    simp only [tag, Bool.false_eq_true, if_false] at hwidth ⊢
    obtain rfl | rfl | rfl := hwidth <;> rfl

theorem tag_decode (w : Word) : (decode w).tag =
    let n := w.toUInt32.toNat / 65536 % 128
    if n / 16 % 2 = 1 then 16 else n := by
  by_cases hpool : w.toUInt32.toNat / 65536 % 128 / 16 % 2 = 1 <;> simp [tag, decode, hpool]

theorem toNat_encode_decode (w : Word) : (decode w).encode.toUInt32.toNat =
    w.toUInt32.toNat % 65536 + 65536 * (decode w).tag + w.toUInt32.toNat / 0x800000 % 2 *
      0x800000 := by
  have htag : (decode w).tag < 128 := by
    rw [tag_decode]
    dsimp only
    split <;> omega
  have haddr : (decode w).addr = w.toUInt32.toNat % 65536 := rfl
  have hframe : (decode w).frame = (w.toUInt32.toNat / 0x800000 % 2 == 1) := rfl
  rw [toNat_encode htag, haddr, hframe, Nat.mod_mod]
  congr 1
  obtain h | h := Nat.mod_two_eq_zero_or_one (w.toUInt32.toNat / 0x800000) <;> simp [h]

theorem encode_decode_eq_iff (w : Word) : (decode w).encode = w &&& 0xffffff ↔
    w.bit 20 = false ∨ ∀ k ∈ [16, 17, 18, 19, 21, 22], w.bit k = false := by
  have hlow : (w &&& 0xffffff).toUInt32.toNat = w.toUInt32.toNat % 2 ^ 24 := by
    have hand : (w &&& 0xffffff).toUInt32 = w.toUInt32 &&& 0xffffff := rfl
    rw [hand, UInt32.toNat_and]
    exact Nat.and_two_pow_sub_one_eq_mod _ 24
  rw [Word.eq_iff_toNat_eq, toNat_encode_decode, tag_decode, hlow]
  simp only [List.forall_mem_cons, Word.bit_eq_false_iff]
  generalize w.toUInt32.toNat = n
  -- what is left is whether the seven bits of the tag are the digit that is written for them
  split <;> simp <;> omega

end Reference
end LavMachine
