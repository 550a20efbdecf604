import Mathlib
import LavMachine.Proofs.Memory.Install
import LavMachine.Proofs.Memory.Writes
set_option autoImplicit false

/-!
Memory is a flat array of 65536 bytes, although its bytes are kept in windows, the pool and the
machine's own storage. The one condition is that no window is mapped twice: then distinct addresses
are kept in distinct places, a write shows at its own address and nowhere else, and every value of
several bytes reads back as it was stored, wherever it lies.
-/
namespace LavMachine

namespace Memory

def Unshared (m : Memory) : Prop := (m.mappings.map Mapping.slot).Nodup

def contents (m : Memory) : Cell → UInt8
  | .window slot i => (m.window slot).getD i 0
  | .pool i => m.pool.bytes.getD i 0
  | .own i => m.own.get i

theorem getByte_eq_contents (m : Memory) (a : Nat) : m.getByte a = m.contents (m.cell a) := by
  rw [getByte_eq]
  cases m.cell a <;> rfl

theorem Unshared.mapping_eq {m : Memory} (h : m.Unshared) {v w : Mapping} (hv : v ∈ m.mappings)
    (hw : w ∈ m.mappings) (hs : v.slot = w.slot) : v = w :=
  List.inj_on_of_nodup_map h hv hw hs

/-- Distinct addresses are kept in distinct places. -/
theorem cell_injective {m : Memory} (h : m.Unshared) {a b : Nat} (hc : m.cell a = m.cell b) :
    a % addressSpace = b % addressSpace := by
  obtain ⟨v, hv, hina, ha⟩ | ⟨hpa, ha⟩ | ha := m.cell_cases a
  · obtain ⟨w, hw, hinb, hb⟩ | ⟨_, hb⟩ | hb := m.cell_cases b
    · rw [ha, hb, Cell.window.injEq] at hc
      obtain rfl := h.mapping_eq hv hw hc.1
      rw [inMapping_iff] at hina hinb
      omega
    · simp [ha, hb] at hc
    · simp [ha, hb] at hc
  · obtain ⟨w, _, _, hb⟩ | ⟨hpb, hb⟩ | hb := m.cell_cases b
    · simp [ha, hb] at hc
    · rw [ha, hb, Cell.pool.injEq] at hc
      rw [Pool.covers_iff] at hpa hpb
      omega
    · simp [ha, hb] at hc
  · obtain ⟨w, _, _, hb⟩ | ⟨_, hb⟩ | hb := m.cell_cases b
    · simp [ha, hb] at hc
    · simp [ha, hb] at hc
    · simpa [ha, hb] using hc

theorem getD_setIfInBounds (w : Window) {i : Nat} (hi : i < w.size) (v : UInt8) (j : Nat) :
    (w.setIfInBounds i v).getD j 0 = if j = i then v else w.getD j 0 := by
  by_cases h : j = i
  · subst h
    simp [hi]
  · have hij : ¬ i = j := fun e => h e.symm
    simp [h, hij]

theorem window_modify (m : Memory) (slot slot' i : Nat) (v : UInt8) :
    { m with bank := m.bank.modify slot (·.setIfInBounds i v) : Memory }.window slot' =
      if slot' = slot then (m.window slot').setIfInBounds i v else m.window slot' := by
  simp only [window, Array.getD_eq_getD_getElem?, Array.getElem?_modify]
  by_cases h : slot' = slot
  · subst h
    cases m.bank[slot']? <;> simp
  · have hs : ¬ slot = slot' := fun e => h e.symm
    simp [h, hs]

theorem contents_setByte (m : Memory) (a : Nat) (v : UInt8) (c : Cell) :
    (m.setByte a v).contents c = if c = m.cell a then v else m.contents c := by
  have hr := m.cell_inRange a
  rw [setByte_eq]
  cases hc : m.cell a with
  | window slot i =>
    rw [hc] at hr
    cases c with
    | window slot' j =>
      simp only [contents, window_modify, Cell.window.injEq]
      by_cases hs : slot' = slot
      · subst hs
        simpa using getD_setIfInBounds _ hr v j
      · simp [hs]
    | pool j => simp [contents]
    | own j => simp [contents]
  | pool i =>
    rw [hc] at hr
    cases c with
    | window slot j => simp [contents, window]
    | pool j => simpa [contents] using getD_setIfInBounds _ hr v j
    | own j => simp [contents]
  | own i =>
    cases c with
    | window slot j => simp [contents, window]
    | pool j => simp [contents]
    | own j =>
      by_cases hj : j = i
      · simp [contents, hj, Vector.get_eq_getElem]
      · have hv : ¬ i.val = j.val := fun e => hj (Fin.ext e.symm)
        simp [contents, hj, Vector.get_eq_getElem, hv]

theorem Unshared.writes {m n : Memory} (h : m.Unshared) (hw : Writes m n) : n.Unshared := by
  have hmap : n.mappings = m.mappings := congrArg Shape.mappings hw.shape_eq
  rw [Unshared, hmap]
  exact h

theorem Unshared.setByte {m : Memory} (h : m.Unshared) (a : Nat) (v : UInt8) :
    (m.setByte a v).Unshared :=
  h.writes (.single m a v)

theorem Unshared.setRegion {m : Memory} (h : m.Unshared) (r : Region) :
    (m.setRegion r).Unshared := h

theorem getByte_setByte {m : Memory} (h : m.Unshared) (a b : Nat) (v : UInt8) :
    (m.setByte a v).getByte b =
      if b % addressSpace = a % addressSpace then v else m.getByte b := by
  rw [getByte_eq_contents, cell_congr (m.shape_setByte a v), contents_setByte]
  by_cases hb : b % addressSpace = a % addressSpace
  · have hc : m.cell b = m.cell a := by simp only [cell, hb]
    rw [if_pos hc, if_pos hb]
  · have hc : ¬ m.cell b = m.cell a := fun e => hb (cell_injective h e)
    rw [if_neg hc, if_neg hb, getByte_eq_contents]

/-- The address is none of the `count` addresses from `a` on. -/
def Outside (a count b : Nat) : Prop := ∀ i < count, b % addressSpace ≠ (a + i) % addressSpace

theorem getByte_writeBlock_of_outside {m : Memory} (h : m.Unshared) {a b : Nat} {bytes : Bytes}
    (hb : Outside a bytes.length b) : (m.writeBlock a bytes).getByte b = m.getByte b := by
  induction bytes generalizing m a with
  | nil => rfl
  | cons v rest ih =>
    have hrest : Outside (a + 1) rest.length b := by
      intro i hi
      rw [Nat.add_assoc, Nat.add_comm 1 i]
      exact hb (i + 1) (by simpa using hi)
    have ha : b % addressSpace ≠ a % addressSpace := hb 0 (by simp)
    rw [writeBlock, ih (h.setByte a v) hrest, getByte_setByte h, if_neg ha]

theorem getByte_writeBlock {m : Memory} (h : m.Unshared) (a : Nat) {bytes : Bytes}
    (hl : bytes.length ≤ addressSpace) {i : Nat} (hi : i < bytes.length) :
    (m.writeBlock a bytes).getByte (a + i) = bytes[i] := by
  induction bytes generalizing m a i with
  | nil => simp at hi
  | cons v rest ih =>
    simp only [List.length_cons] at hl hi
    cases i with
    | zero =>
      have hout : Outside (a + 1) rest.length a := by
        intro j hj
        simp only [addressSpace] at hl ⊢
        omega
      simp only [writeBlock, Nat.add_zero, List.getElem_cons_zero]
      rw [getByte_writeBlock_of_outside (h.setByte a v) hout, getByte_setByte h, if_pos rfl]
    | succ i =>
      have hstep : a + (i + 1) = a + 1 + i := by omega
      rw [writeBlock, hstep, List.getElem_cons_succ]
      exact ih (h.setByte a v) (a + 1) (by omega) (by omega)

theorem readBlock_congr {m n : Memory} {a count : Nat}
    (h : ∀ i < count, n.getByte (a + i) = m.getByte (a + i)) :
    n.readBlock a count = m.readBlock a count :=
  List.map_congr_left fun i hi => h i (List.mem_range.1 hi)

theorem readBlock_writeBlock {m : Memory} (h : m.Unshared) (a : Nat) (bytes : Bytes)
    (hl : bytes.length ≤ addressSpace) :
    (m.writeBlock a bytes).readBlock a bytes.length = bytes := by
  apply List.ext_getElem
  · simp [readBlock]
  · intro i hi hi'
    simpa [readBlock] using getByte_writeBlock h a hl hi'

theorem toNat_readBlock_writeBlock {m : Memory} (h : m.Unshared) (a : Nat) {count : Nat}
    (hc : count ≤ addressSpace) (n : Nat) :
    ((m.writeBlock a (Bytes.ofNat count n)).readBlock a count).toNat = n % 2 ^ (8 * count) := by
  have hread := readBlock_writeBlock h a (Bytes.ofNat count n) (by simpa using hc)
  rw [Bytes.length_ofNat] at hread
  have hpow : Nat.pow 256 count = 2 ^ (8 * count) := (pow_mul 2 8 count).symm
  rw [hread, Bytes.toNat_ofNat, hpow]

theorem getBytes_setBytes {m : Memory} (h : m.Unshared) (a : Nat) {width : Nat} (hw : width ≤ 4)
    (w : Word) :
    (m.setBytes a width w).getBytes a width = Int32.ofNat (w.toUInt32.toNat % 2 ^ (8 * width)) := by
  have hc : min width 4 ≤ addressSpace := Nat.le_trans (Nat.min_le_right width 4) (by decide)
  rw [getBytes, setBytes, toNat_readBlock_writeBlock h a hc, Nat.min_eq_left hw]

theorem getInt_setInt {m : Memory} (h : m.Unshared) (a : Nat) (w : Word) :
    (m.setInt a w).getInt a = w.toInt16.toInt32 := by
  have hlow : (Int32.ofNat (w.toUInt32.toNat % 2 ^ 16)).toInt16 = w.toInt16 := by
    apply Int16.toBitVec_inj.1
    apply BitVec.eq_of_toNat_eq
    simp [BitVec.signExtend_eq_setWidth_of_le]
    rfl
  rw [getInt, setInt, getBytes_setBytes h a (by decide), hlow]

theorem getLong_setLong {m : Memory} (h : m.Unshared) (a : Nat) (w : Word) :
    (m.setLong a w).getLong a = w := by
  have hall : Int32.ofNat (w.toUInt32.toNat % 2 ^ 32) = w := by
    apply Int32.toBitVec_inj.1
    apply BitVec.eq_of_toNat_eq
    simp
  rw [getLong, setLong, getBytes_setBytes h a (by decide), hall]

theorem getOffset_setOffset {m : Memory} (h : m.Unshared) (a offset : Nat) :
    (m.setOffset a offset).getOffset a = offset % 2 ^ 24 :=
  toNat_readBlock_writeBlock h a (by decide) offset

theorem getByte_setBytes_of_outside {m : Memory} (h : m.Unshared) {a width b : Nat} (w : Word)
    (hb : Outside a (min width 4) b) : (m.setBytes a width w).getByte b = m.getByte b :=
  getByte_writeBlock_of_outside h (by simpa using hb)

theorem getByte_setOffset_of_outside {m : Memory} (h : m.Unshared) {a b : Nat} (offset : Nat)
    (hb : Outside a 3 b) : (m.setOffset a offset).getByte b = m.getByte b :=
  getByte_writeBlock_of_outside h (by simpa using hb)

/-- What it is for memory to be a flat array of 65536 bytes. -/
structure FlatArray (m : Memory) : Prop where
  setByte (a b : Nat) (v : UInt8) :
    (m.setByte a v).getByte b = if b % addressSpace = a % addressSpace then v else m.getByte b
  setBytes (a width : Nat) (w : Word) : 1 ≤ width → width ≤ 4 →
    (m.setBytes a width w).getBytes a width = Int32.ofNat (w.toUInt32.toNat % 2 ^ (8 * width))
  setBytes_outside (a width b : Nat) (w : Word) : Outside a (min width 4) b →
    (m.setBytes a width w).getByte b = m.getByte b
  setInt (a : Nat) (w : Word) : (m.setInt a w).getInt a = w.toInt16.toInt32
  setInt_outside (a b : Nat) (w : Word) : Outside a 2 b → (m.setInt a w).getByte b = m.getByte b
  setLong (a : Nat) (w : Word) : (m.setLong a w).getLong a = w
  setLong_outside (a b : Nat) (w : Word) : Outside a 4 b → (m.setLong a w).getByte b = m.getByte b
  setOffset (a offset : Nat) : (m.setOffset a offset).getOffset a = offset % 2 ^ 24
  setOffset_outside (a b offset : Nat) : Outside a 3 b →
    (m.setOffset a offset).getByte b = m.getByte b
  writeBlock (a : Nat) (bytes : Bytes) : bytes.length ≤ addressSpace →
    (m.writeBlock a bytes).readBlock a bytes.length = bytes
  writeBlock_outside (a b : Nat) (bytes : Bytes) : Outside a bytes.length b →
    (m.writeBlock a bytes).getByte b = m.getByte b

/-- Memory into which distinct windows have been mapped is a flat array, whatever its bytes have
become since. -/
theorem flatArray_of_installAll {pool : Pool} {bank : Array Window} {windows : List Mapping}
    {built : Memory} (hbuilt : installAll windows (blank pool bank) = .ok () built)
    (hdistinct : (windows.map Mapping.slot).Nodup) (m : Memory) (hm : m.mappings = built.mappings) :
    m.FlatArray := by
  have hmap : m.mappings = windows := by
    rw [hm, mappings_installAll hbuilt]
    simp [blank]
  have h : m.Unshared := by rwa [Unshared, hmap]
  exact {
    setByte := fun a b v => getByte_setByte h a b v
    setBytes := fun a width w _ hw => getBytes_setBytes h a hw w
    setBytes_outside := fun a width b w hb => getByte_setBytes_of_outside h w hb
    setInt := fun a w => getInt_setInt h a w
    setInt_outside := fun a b w hb => getByte_setBytes_of_outside h w hb
    setLong := fun a w => getLong_setLong h a w
    setLong_outside := fun a b w hb => getByte_setBytes_of_outside h w hb
    setOffset := fun a offset => getOffset_setOffset h a offset
    setOffset_outside := fun a b offset hb => getByte_setOffset_of_outside h offset hb
    writeBlock := fun a bytes hl => readBlock_writeBlock h a bytes hl
    writeBlock_outside := fun a b bytes hb => getByte_writeBlock_of_outside h hb }

/-- One window right behind the pool, another that ends the address space. -/
theorem flatArray_two_windows :
    installAll [⟨8, 0⟩, ⟨65533, 1⟩] (blank (Pool.empty 4 4) #[#[0, 0], #[0, 0, 0]]) =
      .ok () { blank (Pool.empty 4 4) #[#[0, 0], #[0, 0, 0]] with
        mappings := [⟨8, 0⟩, ⟨65533, 1⟩] } ∧
    { blank (Pool.empty 4 4) #[#[0, 0], #[0, 0, 0]] with
      mappings := [⟨8, 0⟩, ⟨65533, 1⟩] : Memory }.FlatArray := by
  have hbuilt : installAll [⟨8, 0⟩, ⟨65533, 1⟩] (blank (Pool.empty 4 4) #[#[0, 0], #[0, 0, 0]]) =
      .ok () { blank (Pool.empty 4 4) #[#[0, 0], #[0, 0, 0]] with
        mappings := [⟨8, 0⟩, ⟨65533, 1⟩] } := rfl
  exact ⟨hbuilt, flatArray_of_installAll hbuilt (by decide) _ rfl⟩

end Memory
end LavMachine
