import Mathlib
import LavMachine.Proofs.Memory.Search
set_option autoImplicit false

/-!
Masking a block with a string. The string is read from memory while the block is written, and the
place in it is a counter that goes back to the start at a terminator. As long as the block stays
clear of the string, every byte is masked with the byte of the string at its place modulo the
length, and masking once more restores memory. A string without bytes is the exception: its
terminator is taken for a first byte, and what stands behind it for the rest.
-/
namespace LavMachine.Memory

variable {m n : Memory} {a key count index i : Nat} {pad : Bytes}

theorem count_setByte (m : Memory) (a : Nat) (v : UInt8) :
    (m.setByte a v).pool.count = m.pool.count := by
  rw [setByte_eq]
  split <;> rfl

theorem eq_of_contents_eq (hshape : n.shape = m.shape) (hregion : n.region = m.region)
    (hnext : n.pool.next = m.pool.next) (hcount : n.pool.count = m.pool.count)
    (h : ∀ c, n.contents c = m.contents c) : n = m := by
  have hbase : n.pool.base = m.pool.base := congrArg Shape.poolBase hshape
  have hcapacity : n.pool.bytes.size = m.pool.bytes.size := congrArg Shape.poolSize hshape
  have hmappings : n.mappings = m.mappings := congrArg Shape.mappings hshape
  have hwindows : n.bank.map Array.size = m.bank.map Array.size := congrArg Shape.windows hshape
  have hown : n.own = m.own := Vector.ext fun j hj => h (.own ⟨j, hj⟩)
  have hbytes : n.pool.bytes = m.pool.bytes := by
    refine Array.ext hcapacity fun j hj hj' => ?_
    simpa [contents, hj, hj'] using h (.pool j)
  have hbank : n.bank = m.bank := by
    have hsize : n.bank.size = m.bank.size := by simpa using congrArg Array.size hwindows
    refine Array.ext hsize fun slot hslot hslot' => ?_
    have hlong : n.bank[slot].size = m.bank[slot].size := by
      have hget : (n.bank.map Array.size)[slot]? = (m.bank.map Array.size)[slot]? := by
        rw [hwindows]
      simpa [hslot, hslot'] using hget
    refine Array.ext hlong fun j hj hj' => ?_
    simpa [contents, window, hslot, hslot', hj, hj'] using h (.window slot j)
  obtain ⟨_, _, ⟨_, _, _, _⟩, _, _⟩ := n
  obtain ⟨_, _, ⟨_, _, _, _⟩, _, _⟩ := m
  simp_all

theorem Writes.contents_eq (hw : Writes m n) {c : Cell} (hc : ∀ a, m.cell a ≠ c) :
    n.contents c = m.contents c := by
  induction hw with
  | refl m => rfl
  | @setByte m n a v _ ih =>
    have hother (b : Nat) : (m.setByte a v).cell b ≠ c := by
      rw [cell_congr (m.shape_setByte a v)]
      exact hc b
    rw [ih hother, contents_setByte, if_neg (hc a).symm]

/-- A chain of writes that leaves every address with its byte has changed nothing at all. -/
theorem Writes.eq_of_getByte_eq (hw : Writes m n) (h : ∀ b, n.getByte b = m.getByte b) : n = m := by
  have hnext : n.pool.next = m.pool.next :=
    hw.keeps (P := fun k => k.pool.next = m.pool.next)
      (fun k a v hk => (next_setByte k a v).trans hk) rfl
  have hcount : n.pool.count = m.pool.count :=
    hw.keeps (P := fun k => k.pool.count = m.pool.count)
      (fun k a v hk => (count_setByte k a v).trans hk) rfl
  refine eq_of_contents_eq hw.shape_eq hw.region_eq hnext hcount fun c => ?_
  by_cases hc : ∃ a, m.cell a = c
  · obtain ⟨a, rfl⟩ := hc
    rw [← getByte_eq_contents, ← cell_congr hw.shape_eq, ← getByte_eq_contents, h]
  · push Not at hc
    exact hw.contents_eq hc

/-- The bytes that a mask takes from `key` on before it starts again. Only the first of them may be
zero, since the counter has just come back to it. -/
structure Pads (m : Memory) (key : Nat) (pad : Bytes) : Prop where
  pos : 0 < pad.length
  bytes : ∀ j < pad.length, m.getByte (key + j) = pad.getD j 0
  ended : m.getByte (key + pad.length) = 0
  proper : ∀ j < pad.length, 0 < j → pad.getD j 0 ≠ 0

theorem Pads.congr (hp : m.Pads key pad)
    (h : ∀ j ≤ pad.length, n.getByte (key + j) = m.getByte (key + j)) :
    n.Pads key pad where
  pos := hp.pos
  bytes j hj := (h j hj.le).trans (hp.bytes j hj)
  ended := (h _ le_rfl).trans hp.ended
  proper := hp.proper

theorem Pads.turn (hp : m.Pads key pad) (hindex : index ≤ pad.length) :
    (if m.getByte (key + index) == 0 then 0 else index) = index % pad.length := by
  rcases hindex.eq_or_lt with rfl | hlt
  · simp [hp.ended]
  · rw [Nat.mod_eq_of_lt hlt]
    rcases Nat.eq_zero_or_pos index with rfl | hpos
    · simp
    · have hne : m.getByte (key + index) ≠ 0 := hp.bytes index hlt ▸ hp.proper index hlt hpos
      simp [hne]

theorem Pads.maskFrom_succ (hp : m.Pads key pad) (hindex : index ≤ pad.length) (count a : Nat) :
    maskFrom key (count + 1) a index m = maskFrom key count (a + 1) (index % pad.length + 1)
      (m.setByte a (m.getByte a ^^^ pad.getD (index % pad.length) 0)) := by
  simp only [maskFrom, hp.turn hindex, hp.bytes _ (Nat.mod_lt index hp.pos)]

def Clear (key size a count : Nat) : Prop := ∀ i < count, Outside key size (a + i)

theorem Clear.mono {size size' : Nat} (h : Clear key size a count) (hle : size' ≤ size) :
    Clear key size' a count :=
  fun i hi j hj => h i hi j (hj.trans_le hle)

theorem Clear.outside {size j : Nat} (h : Clear key size a count) (hj : j < size) :
    Outside a count (key + j) :=
  fun i hi => (h i hi j hj).symm

section

variable (h : m.Unshared) (hp : m.Pads key pad) (hclear : Clear key (pad.length + 1) a count)

include h hp hclear

theorem getByte_maskFrom (hcount : count ≤ addressSpace) (hindex : index ≤ pad.length)
    (hi : i < count) :
    (maskFrom key count a index m).getByte (a + i) =
      m.getByte (a + i) ^^^ pad.getD ((index + i) % pad.length) 0 := by
  induction count generalizing m a index i with
  | zero => omega
  | succ count ih =>
    rw [hp.maskFrom_succ hindex]
    let next := m.setByte a (m.getByte a ^^^ pad.getD (index % pad.length) 0)
    have hnext : next.Unshared := h.setByte a _
    cases i with
    | zero =>
      -- What follows does not come round to the first byte again.
      have hout : Outside (a + 1) count a := by
        intro j hj
        simp only [addressSpace] at hcount ⊢
        omega
      have hrest :=
        (writesIn_maskFrom next key count (a + 1) (index % pad.length + 1)).getByte_eq hnext hout
      simp only [Nat.add_zero]
      rw [hrest, getByte_setByte h, if_pos rfl]
    | succ i =>
      have hpads : next.Pads key pad := hp.congr fun j hj => by
        have hne : a % addressSpace ≠ (key + j) % addressSpace :=
          hclear 0 count.succ_pos j (by omega)
        rw [getByte_setByte h, if_neg hne.symm]
      have hrest : Clear key (pad.length + 1) (a + 1) count := fun j hj => by
        rw [Nat.add_assoc, Nat.add_comm 1 j]
        exact hclear (j + 1) (by omega)
      have hbyte : next.getByte (a + 1 + i) = m.getByte (a + 1 + i) := by
        have hne : (a + 1 + i) % addressSpace ≠ a % addressSpace := by
          simp only [addressSpace] at hcount ⊢
          omega
        rw [getByte_setByte h, if_neg hne]
      have hplace : (index % pad.length + 1 + i) % pad.length = (index + (i + 1)) % pad.length := by
        rw [Nat.add_assoc, Nat.mod_add_mod, Nat.add_comm 1 i]
      have hat : a + (i + 1) = a + 1 + i := by omega
      rw [hat, ih hnext hpads hrest (by omega) (Nat.mod_lt index hp.pos) (by omega), hbyte, hplace]

theorem getByte_mask (hcount : count ≤ addressSpace) (hi : i < count) :
    (m.mask a count key).getByte (a + i) = m.getByte (a + i) ^^^ pad.getD (i % pad.length) 0 := by
  have hbyte := getByte_maskFrom h hp hclear hcount (Nat.zero_le pad.length) hi
  rwa [Nat.zero_add] at hbyte

theorem mask_mask (hcount : count ≤ addressSpace) : (m.mask a count key).mask a count key = m := by
  let after := m.mask a count key
  have hwrites : WritesIn (Within a count) m after := m.writesIn_mask a count key
  have hshare : after.Unshared := h.writes hwrites.writes
  have hpads : after.Pads key pad := hp.congr fun j hj =>
    hwrites.getByte_eq h (hclear.outside (Nat.lt_succ_of_le hj))
  have hwrites' : WritesIn (Within a count) after (after.mask a count key) :=
    after.writesIn_mask a count key
  refine (hwrites.trans hwrites').writes.eq_of_getByte_eq fun b => ?_
  by_cases hb : Outside a count b
  · rw [hwrites'.getByte_eq hshare hb, hwrites.getByte_eq h hb]
  · simp only [Outside, not_forall, not_not] at hb
    obtain ⟨i, hi, hmod⟩ := hb
    rw [Memory.getByte_eq_of_mod_eq _ hmod, m.getByte_eq_of_mod_eq hmod,
      getByte_mask hshare hpads hclear hcount hi, getByte_mask h hp hclear hcount hi,
      UInt8.xor_assoc, UInt8.xor_self, UInt8.xor_zero]

end

theorem getD_string {j : Nat} (hj : j < m.stringLength a) :
    (m.string a).getD j 0 = m.getByte (a + j) := by
  simp [string, readBlock, hj]

theorem getD_string_ne_zero {j : Nat} (hj : j < m.stringLength a) : (m.string a).getD j 0 ≠ 0 := by
  rw [← length_string] at hj
  rw [List.getD_eq_getElem _ _ hj]
  exact ne_of_mem_of_not_mem (List.getElem_mem hj) (m.zero_notMem_string a)

theorem pads_string (h : m.stringLength key < addressSpace) (hpos : 0 < m.stringLength key) :
    m.Pads key (m.string key) := by
  rw [← length_string] at hpos
  exact {
    pos := hpos
    bytes := fun j hj => (getD_string (by rwa [← length_string])).symm
    ended := by rw [length_string]; exact getByte_stringLength h
    proper := fun j hj _ => getD_string_ne_zero (by rwa [← length_string]) }

/-- A terminator right at the start counts as a byte of the pad. -/
theorem pads_behind (hzero : m.getByte key = 0) : m.Pads key (0 :: m.string (key + 1)) := by
  have hended : m.stringLength (key + 1) < addressSpace := (m.stringLength_lt_iff (key + 1)).2
    ⟨key % addressSpace,
      mod_addressSpace_lt key, by rw [m.getByte_eq_of_mod_eq (Nat.mod_mod _ _), hzero]⟩
  have hnext (j : Nat) : key + (j + 1) = key + 1 + j := by omega
  refine ⟨Nat.succ_pos _, fun j hj => ?_, ?_, fun j hj hpos => ?_⟩
  · cases j with
    | zero => exact hzero
    | succ j =>
      rw [List.length_cons, length_string] at hj
      rw [hnext, List.getD_cons_succ, getD_string (by omega)]
  · rw [List.length_cons, length_string, hnext, getByte_stringLength hended]
  · obtain ⟨j, rfl⟩ := Nat.exists_eq_add_one_of_ne_zero hpos.ne'
    rw [List.length_cons, length_string] at hj
    exact getD_string_ne_zero (by omega)

theorem maskFrom_of_zeros (hzero : m.getByte key = 0) (hnext : m.getByte (key + 1) = 0)
    (hindex : index ≤ 1) (count a : Nat) : maskFrom key count a index m = m := by
  induction count generalizing a index with
  | zero => rfl
  | succ count ih =>
    have hstart : m.getByte (key + index) = 0 := by
      obtain rfl | rfl : index = 0 ∨ index = 1 := by omega
      · exact hzero
      · exact hnext
    simp only [maskFrom, hstart, beq_self_eq_true, if_true, Nat.add_zero, hzero, UInt8.xor_zero,
      setByte_getByte]
    exact ih (Nat.le_refl 1) (a + 1)

/-- A block that is clear of a string and its terminator is masked with the string over and over,
nothing else changes, and masking once more restores memory. A string without bytes changes nothing
if another zero follows; if not, the block is masked with that zero and the string behind it. -/
theorem mask_cyclic (h : m.Unshared) (a key : Nat) (size : Word)
    (hkey : m.stringLength key < addressSpace)
    (hclear : Clear key (m.stringLength key + 1) a size.length) :
    let text := m.string key
    let tail := m.string (key + 1)
    let after := m.mask a size.length key
    (∀ b, Outside a size.length b → after.getByte b = m.getByte b) ∧
    (text ≠ [] →
      (∀ i < size.length, after.getByte (a + i) =
        m.getByte (a + i) ^^^ text.getD (i % text.length) 0) ∧
      after.mask a size.length key = m) ∧
    (text = [] → tail = [] → after = m) ∧
    (text = [] → Clear key (tail.length + 2) a size.length →
      (∀ i < size.length, after.getByte (a + i) = m.getByte (a + i) ^^^ (0 :: tail).getD
        (i % (tail.length + 1)) 0) ∧
      after.mask a size.length key = m) := by
  intro text tail after
  have hcount := size.length_lt.le
  have hempty (htext : text = []) : m.getByte key = 0 := by
    have hlength : m.stringLength key = 0 :=
      (m.length_string key).symm.trans (congrArg List.length htext)
    simpa [hlength] using getByte_stringLength hkey
  refine ⟨fun b hb => (m.writesIn_mask _ _ _).getByte_eq h hb, fun htext => ?_,
    fun htext htail => ?_, fun htext htail => ?_⟩
  · have hpads := pads_string hkey (by rw [← length_string]; exact List.length_pos_of_ne_nil htext)
    rw [← length_string] at hclear
    exact ⟨fun i hi => getByte_mask h hpads hclear hcount hi, mask_mask h hpads hclear hcount⟩
  · have hnext := (pads_behind (hempty htext)).ended
    rw [show m.string (key + 1) = [] from htail] at hnext
    exact maskFrom_of_zeros (hempty htext) hnext (Nat.zero_le 1) _ _
  · have hpads := pads_behind (hempty htext)
    exact ⟨fun i hi => getByte_mask h hpads htail hcount hi, mask_mask h hpads htail hcount⟩

/-- The block runs over the end of the address space and through a window, and the string is used
two and a half times. -/
theorem mask_cyclic_wrapped :
    let m := { blank (Pool.empty 4096 16) #[#[97, 98], #[1, 2, 0]] with
      mappings := [⟨65534, 0⟩, ⟨8192, 1⟩] : Memory }
    let after := m.mask 65534 5 8192
    m.Unshared ∧ m.string 8192 = [1, 2] ∧ after.readBlock 65534 5 = [96, 96, 1, 2, 1] ∧
      after.mask 65534 5 8192 = m := by
  intro m after
  have hshare : m.Unshared := by simp [Unshared, m]
  have htext : m.string 8192 = [1, 2] := by decide +kernel
  have hlength : m.stringLength 8192 = 2 := by simp [← length_string, htext]
  have hsize : (5 : Word).length = 5 := by decide
  have hclear : Clear 8192 3 65534 5 := by
    intro i hi j hj
    simp only [addressSpace]
    omega
  obtain ⟨_, hmasked, _⟩ :=
    mask_cyclic hshare 65534 8192 5 (by rw [hlength]; decide) (by rwa [hlength, hsize])
  rw [htext, hsize] at hmasked
  obtain ⟨hbytes, hback⟩ := hmasked (by simp)
  refine ⟨hshare, htext, ?_, hback⟩
  have hread : m.readBlock 65534 5 = [97, 98, 0, 0, 0] := by decide +kernel
  have hmask : after.readBlock 65534 5 =
      (List.range 5).map fun i => m.getByte (65534 + i) ^^^ ([1, 2] : Bytes).getD (i % 2) 0 :=
    List.map_congr_left fun i hi => hbytes i (List.mem_range.1 hi)
  have hold :
      m.getByte 65534 = 97 ∧ m.getByte 65535 = 98 ∧ m.getByte 65536 = 0 ∧ m.getByte 65537 = 0 ∧
      m.getByte 65538 = 0 := by simpa [readBlock, List.range_succ] using hread
  rw [hmask]
  simp only [List.range_succ, List.range_zero, List.nil_append, List.map_append, List.map_cons,
    List.map_nil, Nat.add_zero, Nat.reduceAdd, hold]
  decide

/-- A string without bytes: the second byte of the block is masked with the one behind the
terminator. -/
theorem mask_without_key :
    let m := (blank (Pool.empty 4096 16) #[]).setByte 8449 5
    m.Unshared ∧ m.string 8448 = [] ∧ Clear 8448 1 8192 2 ∧ m.getByte 8193 = 0 ∧
      (m.mask 8192 2 8448).getByte 8193 = 5 := by
  intro m
  have hblank := unshared_blank (Pool.empty 4096 16) #[]
  have hshare : m.Unshared := hblank.setByte 8449 5
  have hbyte (b : Nat) : m.getByte b = if b % addressSpace = 8449 % addressSpace then 5 else 0 := by
    rw [getByte_setByte hblank, getByte_blank]
  have hkey : m.getByte 8448 = 0 := by rw [hbyte, if_neg (by decide)]
  have hempty : m.string 8448 = [] := by
    refine string_of_bytes (fun i hi => ?_) List.not_mem_nil (by decide)
    obtain rfl := Nat.le_zero.1 hi
    exact hkey
  have htail : m.string 8449 = [5] := by
    refine string_of_bytes (fun i hi => ?_) (by decide) (by decide)
    obtain rfl | rfl : i = 0 ∨ i = 1 := by simp only [List.length_singleton] at hi; omega
    · simp [hbyte]
    · simp [hbyte, addressSpace]
  have hclear : Clear 8448 3 8192 2 := by
    intro i hi j hj
    simp only [addressSpace]
    omega
  have hpads : m.Pads 8448 [0, 5] := htail ▸ pads_behind hkey
  have hold : m.getByte 8193 = 0 := by rw [hbyte, if_neg (by decide)]
  have hmasked := getByte_mask hshare hpads hclear (by decide) Nat.one_lt_two
  simp only [Nat.reduceAdd, hold] at hmasked
  exact ⟨hshare, hempty, hclear.mono (by decide), hold, hmasked.trans (by decide)⟩

end LavMachine.Memory
