import Mathlib
import LavMachine.Memory.Blocks
import LavMachine.Memory.Strings
set_option autoImplicit false

namespace LavMachine

theorem Pool.covers_iff (p : Pool) (a : Nat) : p.covers a ↔ p.base ≤ a ∧ a < p.limit := by
  rw [covers, Bool.and_eq_true, decide_eq_true_iff, decide_eq_true_iff]

theorem Pool.limit_le (p : Pool) : p.limit ≤ p.base + p.capacity := Nat.mod_le _ _

namespace Memory

theorem inMapping_iff (m : Memory) (a : Nat) (w : Mapping) :
    m.inMapping a w ↔ w.base ≤ a ∧ a < m.mappingLimit w := by
  rw [inMapping, Bool.and_eq_true, decide_eq_true_iff, decide_eq_true_iff]

theorem mappingLimit_le (m : Memory) (w : Mapping) :
    m.mappingLimit w ≤ w.base + (m.window w.slot).size :=
  Nat.mod_le _ _

theorem inMapping_iff_of_size_le {m : Memory} {w : Mapping}
    (hsize : (m.window w.slot).size ≤ addressSpace) {a : Nat} :
    m.inMapping (a % addressSpace) w ↔
      w.base ≤ a % addressSpace ∧ a % addressSpace < w.base + (m.window w.slot).size := by
  have hlt := mod_addressSpace_lt a
  rw [inMapping_iff]
  refine and_congr_right fun hbase => ?_
  have hfits : w.base + (m.window w.slot).size < UInt64.size := by
    simp only [addressSpace, UInt64.size] at *
    omega
  rw [mappingLimit, Nat.mod_eq_of_lt hfits]

structure Shape where
  mappings : List Mapping
  windows : Array Nat
  poolBase : Nat
  poolSize : Nat
  deriving DecidableEq, Repr

def shape (m : Memory) : Shape :=
  { mappings := m.mappings
    windows := m.bank.map Array.size
    poolBase := m.pool.base
    poolSize := m.pool.capacity }

theorem size_window (m : Memory) (slot : Nat) :
    (m.window slot).size = m.shape.windows.getD slot 0 := by
  by_cases h : slot < m.bank.size <;> simp [window, shape, h]

theorem mappingLimit_congr {m n : Memory} (h : m.shape = n.shape) :
    m.mappingLimit = n.mappingLimit := by
  funext w
  rw [mappingLimit, mappingLimit, size_window, size_window, h]

theorem inMapping_congr {m n : Memory} (h : m.shape = n.shape) (a : Nat) :
    m.inMapping a = n.inMapping a := by
  funext w
  rw [Bool.eq_iff_iff, inMapping_iff, inMapping_iff, mappingLimit_congr h]

theorem covers_congr {m n : Memory} (h : m.shape = n.shape) : m.pool.covers = n.pool.covers := by
  have hbase : m.pool.base = n.pool.base := congrArg Shape.poolBase h
  have hsize : m.pool.capacity = n.pool.capacity := congrArg Shape.poolSize h
  funext a
  rw [Bool.eq_iff_iff, Pool.covers_iff, Pool.covers_iff, Pool.limit, Pool.limit, hbase, hsize]

/-- Memories of one shape keep the byte at an address in the same place. -/
theorem cell_congr {m n : Memory} (h : m.shape = n.shape) (a : Nat) : m.cell a = n.cell a := by
  have hmap : m.mappings = n.mappings := congrArg Shape.mappings h
  have hbase : m.pool.base = n.pool.base := congrArg Shape.poolBase h
  simp only [cell, hmap, hbase, inMapping_congr h, covers_congr h]

def InRange (m : Memory) : Cell → Prop
  | .window slot i => i < (m.window slot).size
  | .pool i => i < m.pool.bytes.size
  | .own i => i < m.own.size

theorem cell_cases (m : Memory) (a : Nat) :
    (∃ w ∈ m.mappings, m.inMapping (a % addressSpace) w ∧
      m.cell a = .window w.slot (a % addressSpace - w.base)) ∨
    (m.pool.covers (a % addressSpace) ∧ m.cell a = .pool (a % addressSpace - m.pool.base)) ∨
    m.cell a = .own ⟨a % addressSpace, mod_addressSpace_lt a⟩ := by
  unfold cell
  cases hw : m.mappings.find? (m.inMapping (a % addressSpace)) with
  | some w =>
    have hin := List.find?_some hw
    have hmem := List.mem_of_find?_eq_some hw
    exact .inl ⟨w, hmem, hin, by simp [hw]⟩
  | none =>
    by_cases hp : m.pool.covers (a % addressSpace)
    · exact .inr (.inl ⟨hp, by simp [hw, hp]⟩)
    · exact .inr (.inr (by simp [hw, hp]))

/-- Whatever is in memory and wherever an address points, there is a byte for it. -/
theorem cell_inRange (m : Memory) (a : Nat) : m.InRange (m.cell a) := by
  obtain ⟨w, _, hin, hc⟩ | ⟨hp, hc⟩ | hc := m.cell_cases a
  · have hlimit := m.mappingLimit_le w
    rw [inMapping_iff] at hin
    simp only [hc, InRange]
    omega
  · have hlimit := m.pool.limit_le
    rw [Pool.capacity] at hlimit
    rw [Pool.covers_iff] at hp
    simp only [hc, InRange]
    omega
  · simp only [hc, InRange, Vector.size]
    exact mod_addressSpace_lt a

theorem inRange_load (m : Memory) (a : Nat) : (m.load a).inRange := by
  have hin := m.cell_inRange a
  unfold load
  cases hc : m.cell a with
  | window slot i => rwa [hc] at hin
  | pool i => rwa [hc] at hin
  | own i => trivial

theorem inRange_store (m : Memory) (a : Nat) (v : UInt8) : (m.store a v).inRange := by
  have hin := m.cell_inRange a
  unfold store
  cases hc : m.cell a with
  | window slot i => rwa [hc] at hin
  | pool i => rwa [hc] at hin
  | own i => trivial

theorem getByte_eq (m : Memory) (a : Nat) : m.getByte a =
    match m.cell a with
    | .window slot i => (m.window slot).getD i 0
    | .pool i => m.pool.bytes.getD i 0
    | .own i => m.own.get i := by
  unfold getByte load
  cases m.cell a <;> rfl

theorem setByte_eq (m : Memory) (a : Nat) (v : UInt8) : m.setByte a v =
    match m.cell a with
    | .window slot i => { m with bank := m.bank.modify slot (·.setIfInBounds i v) }
    | .pool i => { m with pool := { m.pool with bytes := m.pool.bytes.setIfInBounds i v } }
    | .own i => { m with own := m.own.set i v i.isLt } := by
  unfold setByte store
  cases m.cell a <;> rfl

theorem map_size_modify (bank : Array Window) (slot i : Nat) (v : UInt8) :
    (bank.modify slot (·.setIfInBounds i v)).map Array.size = bank.map Array.size := by
  apply Array.ext
  · simp
  · intro j hj _
    by_cases h : slot = j <;> simp [Array.getElem_modify, h]

@[simp] theorem shape_setByte (m : Memory) (a : Nat) (v : UInt8) :
    (m.setByte a v).shape = m.shape := by
  rw [setByte_eq]
  split
  · simp [shape, map_size_modify]
  · simp [shape, Pool.capacity]
  · rfl

@[simp] theorem shape_setOwnByte (m : Memory) (a : Nat) (v : UInt8) :
    (m.setOwnByte a v).shape = m.shape := rfl

@[simp] theorem shape_setRegion (m : Memory) (r : Region) : (m.setRegion r).shape = m.shape := rfl

@[simp] theorem shape_clear (m : Memory) : m.clear.shape = m.shape := by
  simp [clear, shape, Pool.clear, Pool.empty, Pool.capacity]

end Memory

namespace Pool

@[simp] theorem base_put (p : Pool) (i : Nat) (text : Bytes) : (p.put i text).base = p.base := by
  induction text generalizing p i with
  | nil => rfl
  | cons b rest ih => rw [put, ih]

@[simp] theorem capacity_put (p : Pool) (i : Nat) (text : Bytes) :
    (p.put i text).capacity = p.capacity := by
  induction text generalizing p i with
  | nil => rfl
  | cons b rest ih => rw [put, ih]; simp [capacity]

theorem place_add_lt (p : Pool) {length : Nat} (h : length < p.capacity) :
    p.place length + length < p.capacity := by
  unfold place
  split <;> omega

theorem length_kept_lt (p : Pool) (text : Bytes) (h : p.capacity ≠ 0) :
    (text.take (p.capacity - 1)).length < p.capacity := by
  rw [List.length_take]
  omega

theorem intern_eq (p : Pool) (text : Bytes) : p.intern text =
    if p.capacity = 0 then ((Reference.literal p.base).encode, p)
    else
      let kept := text.take (p.capacity - 1)
      let start := p.place kept.length
      ((Reference.literal (p.base + start)).encode,
        { p.put start (kept ++ [0]) with next := start + kept.length + 1, count :=
          p.count + 1 }) := by
  have hkept : text.take (min text.length (p.capacity - 1)) = text.take (p.capacity - 1) := by
    rw [Nat.min_comm, ← List.take_eq_take_min]
  unfold intern addLiteral
  by_cases h : p.capacity = 0
  · simp [h]
  · simp [h, Checked.first, store, hkept]

/-- A literal is cut to a length that it has, and the pool has room for all that is stored. -/
theorem inRange_addLiteral (p : Pool) (text : Bytes) : (p.addLiteral text).inRange := by
  unfold addLiteral
  by_cases h : p.capacity = 0
  · simp [h]
  · have hkept : (text.take (min text.length (p.capacity - 1))).length < p.capacity := by
      rw [List.length_take]
      omega
    have hplace := p.place_add_lt hkept
    rw [capacity] at hplace
    simp only [beq_iff_eq, h, if_false, Checked.inRange_bind, Checked.inRange_pure, and_true, store,
      Checked.first, List.length_append, List.length_singleton]
    exact ⟨Nat.min_le_left _ _, hplace⟩

theorem base_intern (p : Pool) (text : Bytes) : (p.intern text).2.base = p.base := by
  rw [intern_eq]
  split
  · rfl
  · exact base_put p _ _

theorem capacity_intern (p : Pool) (text : Bytes) : (p.intern text).2.capacity = p.capacity := by
  rw [intern_eq]
  split
  · rfl
  · exact capacity_put p _ _

theorem next_intern_le (p : Pool) (text : Bytes) (h : p.next ≤ p.capacity) :
    (p.intern text).2.next ≤ p.capacity := by
  rw [intern_eq]
  split
  · exact h
  · rename_i hc
    have hk := p.length_kept_lt text (by simpa using hc)
    exact p.place_add_lt hk

end Pool

theorem Memory.shape_intern (m : Memory) (text : Bytes) :
    { m with pool := (m.pool.intern text).2 : Memory }.shape = m.shape := by
  simp only [shape, Pool.base_intern, Pool.capacity_intern]

end LavMachine
