import Mathlib
import LavMachine.Proofs.Memory.Shape
set_option autoImplicit false

/-!
Writing through memory. Whatever the library stores, it stores byte by byte at addresses, so every
one of its operations takes memory along a chain of single writes. Such a chain changes neither the
shape of memory nor the region nor the pool's place for the next literal. For each operation: the
addresses that its chain keeps to.
-/
namespace LavMachine.Memory

/-- One of the `count` addresses from `a` on, where addresses wrap. -/
def Within (a count b : Nat) : Prop := ∃ i < count, b % addressSpace = (a + i) % addressSpace

namespace Within

variable {a b c count : Nat}

theorem head (a count : Nat) : Within a (count + 1) a := ⟨0, count.succ_pos, rfl⟩

theorem tail (h : Within (a + 1) count b) : Within a (count + 1) b := by
  obtain ⟨i, hi, hb⟩ := h
  exact ⟨i + 1, Nat.succ_lt_succ hi, by rw [hb, Nat.add_assoc, Nat.add_comm 1 i]⟩

theorem mono {n : Nat} (h : Within a count b) (hle : count ≤ n) : Within a n b := by
  obtain ⟨i, hi, hb⟩ := h
  exact ⟨i, Nat.lt_of_lt_of_le hi hle, hb⟩

theorem congr (h : Within a count b) (hc : c % addressSpace = b % addressSpace) :
    Within a count c := by
  obtain ⟨i, hi, hb⟩ := h
  exact ⟨i, hi, hc.trans hb⟩

end Within

inductive Writes : Memory → Memory → Prop where
  | refl (m : Memory) : Writes m m
  | setByte {m n : Memory} (a : Nat) (v : UInt8) : Writes (m.setByte a v) n → Writes m n

theorem Writes.trans {m n k : Memory} (h : Writes m n) (h' : Writes n k) : Writes m k := by
  induction h with
  | refl m => exact h'
  | setByte a v _ ih => exact .setByte a v (ih h')

theorem Writes.single (m : Memory) (a : Nat) (v : UInt8) : Writes m (m.setByte a v) :=
  .setByte a v (.refl _)

theorem Writes.keeps {P : Memory → Prop} (hset : ∀ m a v, P m → P (m.setByte a v)) {m n : Memory}
    (h : Writes m n) (hm : P m) : P n := by
  induction h with
  | refl m => exact hm
  | setByte a v _ ih => exact ih (hset _ a v hm)

theorem region_setByte (m : Memory) (a : Nat) (v : UInt8) : (m.setByte a v).region = m.region := by
  rw [setByte_eq]
  split <;> rfl

theorem next_setByte (m : Memory) (a : Nat) (v : UInt8) :
    (m.setByte a v).pool.next = m.pool.next := by
  rw [setByte_eq]
  split <;> rfl

theorem Writes.shape_eq {m n : Memory} (h : Writes m n) : n.shape = m.shape :=
  h.keeps (P := fun k => k.shape = m.shape) (fun k a v hk => (shape_setByte k a v).trans hk) rfl

theorem Writes.region_eq {m n : Memory} (h : Writes m n) : n.region = m.region :=
  h.keeps (P := fun k => k.region = m.region) (fun k a v hk => (region_setByte k a v).trans hk) rfl

/-- Reached by writing single bytes at addresses in `S`. -/
inductive WritesIn (S : Nat → Prop) : Memory → Memory → Prop where
  | refl (m : Memory) : WritesIn S m m
  | setByte {m n : Memory} {a : Nat} (v : UInt8) :
    S a → WritesIn S (m.setByte a v) n → WritesIn S m n

namespace WritesIn

variable {S T : Nat → Prop} {m n k : Memory}

theorem writes (h : WritesIn S m n) : Writes m n := by
  induction h with
  | refl m => exact .refl m
  | setByte v _ _ ih => exact .setByte _ v ih

theorem mono (hST : ∀ a, S a → T a) (h : WritesIn S m n) : WritesIn T m n := by
  induction h with
  | refl m => exact .refl m
  | setByte v ha _ ih => exact .setByte v (hST _ ha) ih

theorem trans (h : WritesIn S m n) (h' : WritesIn S n k) : WritesIn S m k := by
  induction h with
  | refl m => exact h'
  | setByte v ha _ ih => exact .setByte v ha (ih h')

theorem single {a : Nat} (ha : S a) (m : Memory) (v : UInt8) : WritesIn S m (m.setByte a v) :=
  .setByte v ha (.refl _)

theorem cons {a count : Nat} {v : UInt8} (h : WritesIn (Within (a + 1) count) (m.setByte a v) n) :
    WritesIn (Within a (count + 1)) m n :=
  .setByte v (.head a count) (h.mono fun _ => Within.tail)

end WritesIn

theorem writesIn_writeBlock (m : Memory) (a : Nat) (bytes : Bytes) :
    WritesIn (Within a bytes.length) m (m.writeBlock a bytes) := by
  induction bytes generalizing m a with
  | nil => exact .refl m
  | cons b rest ih => exact .cons (ih _ _)

theorem writes_writeBlock (m : Memory) (a : Nat) (bytes : Bytes) :
    Writes m (m.writeBlock a bytes) :=
  (m.writesIn_writeBlock a bytes).writes

theorem writesIn_setBytes (m : Memory) (a width : Nat) (w : Word) :
    WritesIn (Within a (min width 4)) m (m.setBytes a width w) := by
  have h := m.writesIn_writeBlock a (Bytes.ofNat (min width 4) w.toUInt32.toNat)
  rwa [Bytes.length_ofNat] at h

theorem writes_setBytes (m : Memory) (a width : Nat) (w : Word) : Writes m (m.setBytes a width w) :=
  (m.writesIn_setBytes a width w).writes

theorem writesIn_setOffset (m : Memory) (a offset : Nat) :
    WritesIn (Within a 3) m (m.setOffset a offset) :=
  m.writesIn_writeBlock a (Bytes.ofNat 3 offset)

theorem writes_setOffset (m : Memory) (a offset : Nat) : Writes m (m.setOffset a offset) :=
  (m.writesIn_setOffset a offset).writes

theorem writesIn_terminated (m : Memory) (a : Nat) (bytes : Bytes) (v : UInt8) :
    WritesIn (Within a (bytes.length + 1)) m
      ((m.writeBlock a bytes).setByte (a + bytes.length) v) := by
  have hlast : Within a (bytes.length + 1) (a + bytes.length) :=
    ⟨bytes.length, Nat.lt_succ_self _, rfl⟩
  exact ((m.writesIn_writeBlock a bytes).mono fun _ h => h.mono (Nat.le_succ _)).trans
    (.single hlast _ v)

theorem writesIn_fill (m : Memory) (a : Nat) (v : UInt8) (count : Nat) :
    WritesIn (Within a count) m (m.fill a v count) := by
  induction count generalizing m a with
  | zero => exact .refl m
  | succ count ih => exact .cons (ih _ _)

theorem writesIn_copyUp (m : Memory) (dst src count : Nat) :
    WritesIn (Within dst count) m (m.copyUp dst src count) := by
  induction count generalizing m dst src with
  | zero => exact .refl m
  | succ count ih => exact .cons (ih _ _ _)

theorem writesIn_copyDown (m : Memory) (dst src count : Nat) :
    WritesIn (Within dst count) m (m.copyDown dst src count) := by
  induction count generalizing m with
  | zero => exact .refl m
  | succ count ih =>
    have hlast : Within dst (count + 1) (dst + count) := ⟨count, Nat.lt_succ_self _, rfl⟩
    exact .setByte _ hlast ((ih _).mono fun _ h => h.mono (Nat.le_succ _))

theorem writesIn_move (m : Memory) (dst src count : Nat) :
    WritesIn (Within dst count) m (m.move dst src count) := by
  unfold move
  split
  · exact m.writesIn_copyUp dst src count
  · exact m.writesIn_copyDown dst src count

theorem writesIn_maskFrom (m : Memory) (key count a index : Nat) :
    WritesIn (Within a count) m (maskFrom key count a index m) := by
  induction count generalizing m a index with
  | zero => exact .refl m
  | succ count ih => exact .cons (ih _ _ _)

theorem writesIn_mask (m : Memory) (a count key : Nat) :
    WritesIn (Within a count) m (m.mask a count key) :=
  m.writesIn_maskFrom key count a 0

theorem writes_copyString (m : Memory) (dst src : Nat) : Writes m (m.copyString dst src) := by
  unfold copyString
  generalize addressSpace = fuel
  induction fuel generalizing m dst src with
  | zero => exact .refl m
  | succ fuel ih =>
    simp only [copyStringFrom]
    split
    · exact .single m dst _
    · exact .setByte dst _ (ih _ _ _)

theorem writes_appendString (m : Memory) (dst src : Nat) : Writes m (m.appendString dst src) :=
  writes_copyString m _ src

end LavMachine.Memory
