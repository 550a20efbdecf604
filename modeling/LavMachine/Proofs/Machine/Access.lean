import Mathlib
import LavMachine.Proofs.Machine.Expression
import LavMachine.Proofs.Memory.Cells
set_option autoImplicit false

/-!
Instructions that work on cells. Every addressing mode adds up whole numbers modulo the address
space, so an instruction that stores and one that loads meet whenever their sums agree, in whatever
frames they were added up. What is stored is read back by all of them, cut to the width. An
increment leaves the sum on the stack as it is and cuts it only in memory; the two agree as long as
the sum is a number that the cell can stand for.
-/
namespace LavMachine

/-- The address of a cell: the operand, the index and the frame start as far as they count, modulo
the address space. -/
def Place.target (place : Place) (index : Word) (offset : Int16) (start : Nat) : Nat :=
  (((if place.indexed then index.toInt else 0) + offset.toInt +
    if place.framed then (start : Int) else 0) % addressSpace).toNat

theorem Place.target_lt (place : Place) (index : Word) (offset : Int16) (start : Nat) :
    place.target index offset start < addressSpace := by
  simp only [target, addressSpace]
  omega

/-- Sums wrap at 32 bits on the way, but no address depends on that. -/
theorem Place.target_eq (place : Place) (index : Word) (offset : Int16) (start : Nat) :
    place.target index offset start =
      let a := ((if place.indexed then index else 0) + offset.toInt32).address
      if place.framed then (a + start) % addressSpace else a := by
  have hsum := Word.toInt_add_cases (if place.indexed then index else 0) offset.toInt32
  have hindex :
      (if place.indexed then index else 0).toInt = if place.indexed then index.toInt else 0 := by
    split <;> rfl
  rw [Int16.toInt_toInt32, hindex] at hsum
  simp only [target, Word.address_eq, addressSpace]
  generalize (if place.indexed then index.toInt else 0) = n at hsum ⊢
  generalize ((if place.indexed then index else 0) + offset.toInt32).toInt = sum at hsum ⊢
  split <;> omega

namespace Processor

variable {κ φ : Type} [Keyboard κ] [Disk φ] {i : Image} {s : Stack} {ws : List Word} {r v x : Word}
  {tail : Bytes} {width : Width} {a : Nat}

omit [Keyboard κ] [Disk φ] in
theorem effectiveAddress_eq (place : Place) {index : Word} {offset : Int16}
    (hrest : i.rest = Bytes.ofNat 2 offset.toUInt16.toNat ++ tail)
    (hstack : s.toList = ws ++ if place.indexed then [index] else []) :
    ∃ t, (∀ w : World κ φ, effectiveAddress place ⟨i, s, w⟩ =
        .ok (place.target index offset w.memory.region.start) ⟨i.skip 2, t, w⟩) ∧
      t.toList = ws ∧ t.capacity = s.capacity := by
  obtain ⟨indexed, framed⟩ := place
  have hoffset := Image.int16_of_rest hrest
  cases indexed with
  | false =>
    refine ⟨s, fun w => ?_, by simpa using hstack, rfl⟩
    cases framed <;>
      simp only [effectiveAddress, Place.target_eq, bind, EStateM.bind, pure, EStateM.pure, fetch,
        hoffset, region, effect, World.readMemory, get, getThe, MonadStateOf.get, EStateM.get,
        if_true, if_false, Bool.false_eq_true]
  | true =>
    obtain ⟨t, hpop, ht, hcapacity⟩ := Stack.pop_concat hstack
    refine ⟨t, fun w => ?_, ht, hcapacity⟩
    cases framed <;>
      simp only [effectiveAddress, Place.target_eq, bind, EStateM.bind, pure, EStateM.pure, pop,
        onStack, hpop, fetch, hoffset, region, effect, World.readMemory, get, getThe,
        MonadStateOf.get, EStateM.get, if_true, if_false, Bool.false_eq_true]

/-- The word that an instruction pushes for the cell at `a`. -/
def cellWord (m : Memory) (a : Nat) : CellUse → Word
  | .value width => readCell m a width
  | .reference width => { addr := a, width := width.bytes : Reference }.encode
  | .address => Int32.ofNat a

theorem execute_cell (place : Place) (use : CellUse) {index : Word} {offset : Int16}
    (hrest : i.rest = Bytes.ofNat 2 offset.toUInt16.toNat ++ tail)
    (hstack : s.toList = ws ++ if place.indexed then [index] else [])
    (hroom : ws.length < s.capacity) (m : Memory) :
    ∃ t, (∀ w : World κ φ, w.memory = m →
        execute (.cell place use) ⟨i, s, w⟩ = .ok () ⟨i.skip 2, t, { w with memory := m }⟩) ∧
      t.toList = ws ++ [cellWord m (place.target index offset m.region.start) use] ∧
      t.capacity = s.capacity := by
  obtain ⟨t, haddress, rfl, hcapacity⟩ := effectiveAddress_eq (κ := κ) (φ := φ) place hrest hstack
  obtain ⟨u, hpush, hu, hcapacity'⟩ := Stack.push_of_lt (hcapacity ▸ hroom)
    (cellWord m (place.target index offset m.region.start) use)
  refine ⟨u, ?_, hu, hcapacity'.trans hcapacity⟩
  rintro w rfl
  cases use <;>
    simp only [cellWord] at hpush <;>
    simp only [execute, bind, EStateM.bind, haddress, pure, EStateM.pure, effect, World.readMemory,
      get, getThe, MonadStateOf.get, EStateM.get, push, onStack, hpush]

theorem execute_makeReference (hstack : s.toList = ws ++ [x]) (m : Memory) :
    ∃ t, (∀ w : World κ φ, w.memory = m →
        execute .makeReference ⟨i, s, w⟩ = .ok () ⟨i, t, { w with memory := m }⟩) ∧
      t.toList = ws ++ [{ addr := x.address, width := Width.char.bytes : Reference }.encode] ∧
      t.capacity = s.capacity := by
  obtain ⟨t, hpop, rfl, hcapacity⟩ := Stack.pop_concat hstack
  obtain ⟨u, hpush, hu, hcapacity'⟩ := Stack.push_of_taken hcapacity (by simp [hstack])
    { addr := x.address, width := Width.char.bytes : Reference }.encode
  refine ⟨u, ?_, hu, hcapacity'⟩
  rintro w rfl
  simp only [Width.bytes] at hpush
  simp only [execute, bind, EStateM.bind, pop, push, onStack, hpop, hpush]

theorem execute_dereference (hstack : s.toList = ws ++ [x]) (m : Memory) :
    ∃ t, (∀ w : World κ φ, w.memory = m →
        execute .dereference ⟨i, s, w⟩ = .ok () ⟨i, t, { w with memory := m }⟩) ∧
      t.toList = ws ++ [readCell m x.address .char] ∧ t.capacity = s.capacity := by
  obtain ⟨t, hpop, rfl, hcapacity⟩ := Stack.pop_concat hstack
  obtain ⟨u, hpush, hu, hcapacity'⟩ :=
    Stack.push_of_taken hcapacity (by simp [hstack]) (readCell m x.address .char)
  refine ⟨u, ?_, hu, hcapacity'⟩
  rintro w rfl
  simp only [readCell] at hpush
  simp only [execute, bind, EStateM.bind, pop, push, onStack, hpop, effect, World.readMemory,
    get, getThe, MonadStateOf.get, EStateM.get, pure, EStateM.pure, hpush]

theorem execute_store (hr : r.Names width a) (hstack : s.toList = ws ++ [r] ++ [v]) (m : Memory) :
    ∃ t, (∀ w : World κ φ, w.memory = m →
        execute .store ⟨i, s, w⟩ = .ok () ⟨i, t, { w with memory := m.setBytes a width.bytes v }⟩) ∧
      t.toList = ws ++ [v] ∧ t.capacity = s.capacity := by
  obtain ⟨t, hpop, ht, hcapacity⟩ := Stack.pop_concat hstack
  obtain ⟨u, hpop', rfl, hcapacity'⟩ := Stack.pop_concat ht
  obtain ⟨z, hpush, hz, hcapacity''⟩ :=
    Stack.push_of_taken (s := s) (hcapacity'.trans hcapacity) (by simp [hstack]) v
  refine ⟨z, ?_, hz, hcapacity''⟩
  rintro w rfl
  simp only [execute, bind, EStateM.bind, pop, push, onStack, hpop, hpop', region, effect,
    World.readMemory, get, getThe, MonadStateOf.get, EStateM.get, pure, EStateM.pure, changeMemory,
    World.changeMemory, modify, modifyGet,
    MonadStateOf.modifyGet, EStateM.modifyGet, hr.resolve, hr.width, hpush]

theorem execute_increment (hr : r.Names width a) (hstack : s.toList = ws ++ [r]) (delta : Word)
    (old : Bool) (m : Memory) :
    let before := readCell m a width
    ∃ t, (∀ w : World κ φ, w.memory = m → execute (.increment delta old) ⟨i, s, w⟩ =
        .ok () ⟨i, t, { w with memory := m.setBytes a width.bytes (before + delta) }⟩) ∧
      t.toList = ws ++ [if old then before else before + delta] ∧ t.capacity = s.capacity := by
  intro before
  obtain ⟨t, hpop, rfl, hcapacity⟩ := Stack.pop_concat hstack
  obtain ⟨u, hpush, hu, hcapacity'⟩ := Stack.push_of_taken hcapacity (by simp [hstack])
    (if old then before else before + delta)
  refine ⟨u, ?_, hu, hcapacity'⟩
  rintro w rfl
  simp only [execute, increment, bind, EStateM.bind, pop, push, onStack, hpop, region, effect,
    World.readMemory, get, getThe, MonadStateOf.get, EStateM.get, pure, EStateM.pure, changeMemory,
    World.changeMemory, modify, modifyGet,
    MonadStateOf.modifyGet, EStateM.modifyGet, hr.resolve, hr.width, Memory.readReference_eq]
  simp only [before] at hpush
  simp only [hpush, before]

theorem execute_intern_ended {text : Bytes} (hrest : i.rest = text ++ 0 :: tail) (hzero : 0 ∉ text)
    (hroom : s.depth < s.capacity) (m : Memory) :
    ∃ t, (∀ w : World κ φ, w.memory = m → execute .intern ⟨i, s, w⟩ =
        .ok () ⟨i.skip (text.length + 1), t,
          { w with memory := { m with pool := (m.pool.intern text).2 } }⟩) ∧
      t.toList = s.toList ++ [(m.pool.intern text).1] ∧ t.capacity = s.capacity := by
  obtain ⟨t, hpush, ht, hcapacity⟩ :=
    Stack.push_of_lt (by rwa [Stack.length_toList]) (m.pool.intern text).1
  refine ⟨t, ?_, ht, hcapacity⟩
  rintro w rfl
  rw [execute_intern (Image.literal_of_ended hrest hzero)]
  simp only [push, onStack, hpush]

end Processor

namespace Machine

open Processor

variable {κ φ : Type} [Keyboard κ] [Disk φ] {m : Machine κ φ} {i j : Image} {ws : List Word}
  {k : Memory} {width : Width} {a : Nat}

structure Faces (m : Machine κ φ) (i : Image) (op : Opcode) (operand : Bytes) : Prop where
  live : m.Live
  image : m.image = some i
  code : ∃ b tail, (Instruction.ofByte? b).map (·.opcode) = some op ∧
    i.rest = b :: (operand ++ tail)

/-- The next step succeeds and comes to `i` with the live words `ws` and the memory `k`; of the rest
of the world only the log has changed. -/
structure Leads (m : Machine κ φ) (i : Image) (ws : List Word) (k : Memory) : Prop where
  result : m.step.1 = .ok ()
  live : m.step.2.Live
  image : m.step.2.image = some i
  stack : m.step.2.stack.toList = ws
  capacity : m.step.2.stack.capacity = m.stack.capacity
  world : ∃ bus, m.world.bus.Logged bus ∧ m.step.2.world = { m.world with memory := k, bus }

theorem Leads.memory (h : m.Leads i ws k) : m.step.2.world.memory = k := by
  obtain ⟨bus, _, hworld⟩ := h.world
  rw [hworld]

omit [Keyboard κ] [Disk φ] in
theorem Faces.rest {op : Opcode} {operand : Bytes} (h : m.Faces i op operand) :
    ∃ tail, (i.skip 1).rest = operand ++ tail := by
  obtain ⟨b, tail, _, hrest⟩ := h.code
  exact ⟨tail, (Image.rest_eq_cons hrest).2⟩

theorem Faces.leads {op : Opcode} {operand : Bytes} (h : m.Faces i op operand) (hstop : op ≠ .stop)
    (hexecute : ∃ t, (∀ w : World κ φ, w.memory = m.world.memory →
        Processor.execute op ⟨i.skip 1, m.stack, w⟩ = .ok () ⟨j, t, { w with memory := k }⟩) ∧
      t.toList = ws ∧ t.capacity = m.stack.capacity) : m.Leads j ws k := by
  obtain ⟨t, hexecute, hws, hcapacity⟩ := hexecute
  obtain ⟨b, tail, hop, hrest⟩ := h.code
  obtain ⟨bus, hbus, hstep⟩ := step_of_rest h.live h.image hrest hop hstop hexecute
  exact {
    result := congrArg Prod.fst hstep
    live := by rw [hstep]; exact .inr rfl
    image := by rw [hstep]
    stack := by rw [hstep]; exact hws
    capacity := by rw [hstep]; exact hcapacity
    world := ⟨bus, hbus, by rw [hstep]⟩ }

/-- The next instruction finds the cell at `a` by a 16-bit operand; it leaves `ws` on the stack and
has room for a word above. -/
inductive Aims (m : Machine κ φ) (use : CellUse) (ws : List Word) : Nat → Prop where
  | intro {i : Image} {place : Place} {offset : Int16} {index : Word} :
    m.Faces i (.cell place use) (Bytes.ofNat 2 offset.toUInt16.toNat) →
    m.stack.toList = ws ++ (if place.indexed then [index] else []) → ws.length < m.stack.capacity →
    Aims m use ws (place.target index offset m.region.start)

/-- The next instruction pushes a reference to the cell of the given width at `a`. Only adding a
literal changes memory on the way. -/
inductive Refers (m : Machine κ φ) (ws : List Word) : Width → Nat → Memory → Prop where
  | cell {width : Width} {a : Nat} :
    m.Aims (.reference width) ws a → Refers m ws width a m.world.memory
  | word {i : Image} {x : Word} : m.Faces i .makeReference [] → m.stack.toList = ws ++ [x] →
    Refers m ws .char (x.toInt % addressSpace).toNat m.world.memory
  | literal {i : Image} {text : Bytes} :
    m.Faces i .intern (text ++ [0]) → 0 ∉ text → m.stack.toList = ws →
    ws.length < m.stack.capacity → Refers m ws .char (m.world.memory.pool.intern text).1.address
      { m.world.memory with pool := (m.world.memory.pool.intern text).2 }

inductive Loads (m : Machine κ φ) (ws : List Word) : Width → Nat → Prop where
  | cell {width : Width} {a : Nat} : m.Aims (.value width) ws a → Loads m ws width a
  | word {i : Image} {x : Word} : m.Faces i .dereference [] → m.stack.toList = ws ++ [x] →
    Loads m ws .char (x.toInt % addressSpace).toNat

theorem Aims.leads {use : CellUse} (h : m.Aims use ws a) :
    a < addressSpace ∧ ∃ j, m.Leads j (ws ++ [cellWord m.world.memory a use]) m.world.memory := by
  obtain ⟨hfaces, hstack, hroom⟩ := h
  rename_i place offset index
  obtain ⟨tail, hrest⟩ := hfaces.rest
  exact ⟨place.target_lt _ _ _, _,
    hfaces.leads (by simp) (execute_cell place use hrest hstack hroom m.world.memory)⟩

theorem Refers.leads (h : m.Refers ws width a k) :
    ∃ r, r.Names width a ∧ ∃ j, m.Leads j (ws ++ [r]) k := by
  cases h with
  | cell h =>
    obtain ⟨ha, j, hleads⟩ := h.leads
    exact ⟨_, Reference.names_encode width ha, j, hleads⟩
  | word hfaces hstack =>
    rename_i i x
    rw [← Word.address_eq]
    exact ⟨_, Reference.names_encode .char x.address_lt, _,
      hfaces.leads (by simp) (execute_makeReference hstack m.world.memory)⟩
  | literal hfaces hzero hstack hroom =>
    rename_i i text
    subst hstack
    obtain ⟨tail, hrest⟩ := hfaces.rest
    rw [List.append_assoc] at hrest
    rw [Stack.length_toList] at hroom
    exact ⟨_, m.world.memory.pool.names_intern text, _,
      hfaces.leads (by simp) (execute_intern_ended hrest hzero hroom m.world.memory)⟩

theorem Loads.leads (h : m.Loads ws width a) :
    ∃ j, m.Leads j (ws ++ [readCell m.world.memory a width]) m.world.memory := by
  cases h with
  | cell h => exact h.leads.2
  | word hfaces hstack =>
    rw [← Word.address_eq]
    exact ⟨_, hfaces.leads (by simp) (execute_dereference hstack m.world.memory)⟩

/-- Whatever is stored through a reference is pushed as it is and read back, cut to the width, by
every instruction whose own sum is the address of the cell. The reference may be used in another
frame than it was made in, and the cell read in a third. -/
theorem stored_value_loads (h : m.Refers ws width a k) :
    ∃ r, (∃ j, m.Leads j (ws ++ [r]) k) ∧
      ∀ (n : Machine κ φ) (i : Image) (vs : List Word) (v : Word), n.Faces i .store [] →
        n.world.memory.Unshared → n.stack.toList = vs ++ [r] ++ [v] →
        ∃ after, n.Leads (i.skip 1) (vs ++ [v]) after ∧
          (∀ b, Memory.Outside a width.bytes b → after.getByte b = n.world.memory.getByte b) ∧
          ∀ (l : Machine κ φ) (us : List Word), l.Loads us width a →
            (∀ b, Memory.Within a width.bytes b → l.world.memory.getByte b = after.getByte b) →
            ∃ j, l.Leads j (us ++ [width.narrow v]) l.world.memory := by
  obtain ⟨r, hr, hleads⟩ := h.leads
  refine ⟨r, hleads, fun n i vs v hfaces hshare hstack => ?_⟩
  refine ⟨_, hfaces.leads (by simp) (execute_store hr hstack n.world.memory),
    fun b hb => Memory.getByte_setBytes_of_outside_cell a width hshare _ hb,
    fun l us hloads hsame => ?_⟩
  rw [← Memory.readCell_setBytes a width hshare v, ← Memory.readCell_congr a width hsame]
  exact hloads.leads

/-- A reference made in a frame at the end of the address space, a word that does not fit, and an
absolute load. -/
theorem stored_value_loads_elsewhere :
    let start := bare #[0x15, 0xfe, 0xff] ⟨#[9, 5], 2, by decide⟩
    let framed := start.world.memory.setRegion ⟨65534, 65535, by decide, by decide⟩
    let m := { start with world := { start.world with memory := framed } }
    let n := bare #[0x35] ⟨#[131073, 0x18000], 2, by decide⟩
    let reading := bare #[0x05, 1, 0] ⟨#[0], 0, by decide⟩
    let l := { reading with world := { reading.world with memory := n.step.2.world.memory } }
    m.step.2.stack.toList = [9, 131073] ∧ n.step.2.stack.toList = [0x18000] ∧
    l.step.2.stack.toList = [-32768] := by
  intro start framed m n reading l
  have hmade : m.step.2.stack.toList = [9, 131073] := by decide +kernel
  have haims : m.Aims (.reference .int) [9] (Place.target ⟨true, true⟩ 5 (-2) 65534) :=
    .intro ⟨.inr rfl, rfl, 0x15, [], by decide, by decide⟩ rfl (by decide)
  have hfaces : n.Faces ⟨"BARE", #[0x35], 0⟩ .store [] :=
    ⟨.inr rfl, rfl, 0x35, [], by decide, by decide⟩
  have hreads : l.Aims (.value .int) [] (Place.target ⟨false, false⟩ 0 1 0) :=
    .intro ⟨.inr rfl, rfl, 0x05, [], by decide, by decide⟩ rfl (by decide)
  rw [show Place.target ⟨true, true⟩ 5 (-2) 65534 = 1 by decide] at haims
  rw [show Place.target ⟨false, false⟩ 0 1 0 = 1 by decide] at hreads
  obtain ⟨r, ⟨j, hleads⟩, hstores⟩ := stored_value_loads (.cell haims)
  obtain rfl : r = 131073 := by simpa [hmade] using hleads.stack.symm
  obtain ⟨after, hstored, _, hloads⟩ :=
    hstores n _ [] 0x18000 hfaces (Memory.unshared_blank _ _) rfl
  obtain ⟨j', hloaded⟩ := hloads l [] (.cell hreads) fun b _ => by rw [← hstored.memory]
  exact ⟨hmade, hstored.stack, hloaded.stack⟩

/-- An increment pushes the sum and stores it cut to the width. What is read back through the
reference, by a load or by the next increment, is the sum exactly when it is a number that the cell
can stand for. -/
theorem incremented_value_reads (h : m.Refers ws width a k) :
    ∃ r, (∃ j, m.Leads j (ws ++ [r]) k) ∧
      ∀ (n : Machine κ φ) (i : Image) (vs : List Word) (delta : Word),
      n.Faces i (.increment delta false) [] →
        n.world.memory.Unshared → n.stack.toList = vs ++ [r] →
        let old := readCell n.world.memory a width
        ∃ after, n.Leads (i.skip 1) (vs ++ [old + delta]) after ∧
          (∀ b, Memory.Outside a width.bytes b → after.getByte b = n.world.memory.getByte b) ∧
          readCell after a width = width.narrow (old + delta) ∧
          (readCell after a width = old + delta ↔ old.toInt + delta.toInt ∈ width.range) ∧
          ∀ (l : Machine κ φ) (us : List Word),
            (∀ b, Memory.Within a width.bytes b → l.world.memory.getByte b = after.getByte b) →
            (l.Loads us width a → ∃ j, l.Leads j (us ++ [readCell after a width]) l.world.memory) ∧
            ∀ j delta', l.Faces j (.increment delta' true) [] → l.stack.toList = us ++ [r] →
              ∃ final, l.Leads (j.skip 1) (us ++ [readCell after a width]) final := by
  obtain ⟨r, hr, hleads⟩ := h.leads
  refine ⟨r, hleads, fun n i vs delta hfaces hshare hstack => ?_⟩
  intro old
  let after := n.world.memory.setBytes a width.bytes (old + delta)
  have hback : readCell after a width = width.narrow (old + delta) :=
    Memory.readCell_setBytes a width hshare _
  have hrange : readCell after a width = old + delta ↔ old.toInt + delta.toInt ∈ width.range := by
    rw [hback, width.narrow_eq_self_iff,
      width.toInt_add_mem_range_iff (Memory.toInt_readCell_mem_range a width n.world.memory)]
  refine ⟨after, hfaces.leads (by simp) (execute_increment hr hstack delta false n.world.memory),
    fun b hb => Memory.getByte_setBytes_of_outside_cell a width hshare _ hb, hback, hrange,
    fun l us hsame => ?_⟩
  rw [← Memory.readCell_congr a width hsame]
  exact ⟨Loads.leads, fun j delta' hfaces' hstack' =>
    ⟨_, hfaces'.leads (by simp) (execute_increment hr hstack' delta' true l.world.memory)⟩⟩

/-- The two bytes of the cell lie in two windows, at both ends of the address space, and the sum
carries over. -/
theorem incremented_value_reads_carried :
    let m := bare #[0x0b, 0xff, 0xff] ⟨#[0], 1, by decide⟩
    let start := bare #[0x1d] ⟨#[196607], 1, by decide⟩
    let ends :=
      { Memory.blank (Pool.empty 4096 16) #[#[255], #[0]] with
        mappings := [⟨65535, 0⟩, ⟨0, 1⟩] : Memory }
    let n := { start with world := { start.world with memory := ends } }
    let next := bare #[0x1f] ⟨#[196607], 1, by decide⟩
    let l := { next with world := { next.world with memory := n.step.2.world.memory } }
    m.step.2.stack.toList = [196607] ∧ n.step.2.stack.toList = [256] ∧
      readCell n.step.2.world.memory 65535 .int = 256 ∧ l.step.2.stack.toList = [256] := by
  intro m start ends n next l
  have hmade : m.step.2.stack.toList = [196607] := by decide +kernel
  have haims : m.Aims (.reference .int) [] (Place.target ⟨true, false⟩ 0 (-1) 0) :=
    .intro ⟨.inr rfl, rfl, 0x0b, [], by decide, by decide⟩ rfl (by decide)
  have hfaces : n.Faces ⟨"BARE", #[0x1d], 0⟩ (.increment 1 false) [] :=
    ⟨.inr rfl, rfl, 0x1d, [], by decide, by decide⟩
  have hnext : l.Faces ⟨"BARE", #[0x1f], 0⟩ (.increment 1 true) [] :=
    ⟨.inr rfl, rfl, 0x1f, [], by decide, by decide⟩
  have hshare : n.world.memory.Unshared := by simp [n, ends, Memory.Unshared]
  have hold : readCell n.world.memory 65535 .int = 255 := by decide +kernel
  rw [show Place.target ⟨true, false⟩ 0 (-1) 0 = 65535 by decide] at haims
  obtain ⟨r, ⟨j, hleads⟩, hreads⟩ := incremented_value_reads (.cell haims)
  obtain rfl : r = 196607 := by simpa [hmade] using hleads.stack.symm
  obtain ⟨after, hpushed, _, hback, _, hlater⟩ := hreads n _ [] 1 hfaces hshare rfl
  rw [hold] at hpushed hback
  rw [← hpushed.memory] at hback
  obtain ⟨final, hold'⟩ := (hlater l [] fun b _ => by rw [← hpushed.memory]).2 _ 1 hnext rfl
  refine ⟨hmade, hpushed.stack, hback.trans (by decide), ?_⟩
  rw [hold'.stack, ← hpushed.memory, hback]
  decide

/-- A byte of 255 is incremented: 256 is pushed and 0 is stored. -/
theorem increment_past_the_range :
    let start := bare #[0x37, 0x1d, 0x04, 0x00, 0x20] ⟨#[0x2000, 0], 1, by decide⟩
    let full :=
      { Memory.blank (Pool.empty 4096 16) #[#[255]] with mappings := [⟨0x2000, 0⟩] : Memory }
    let m := { start with world := { start.world with memory := full } }
    m.world.memory.Unshared ∧ m.Refers [] .char 0x2000 m.world.memory ∧
      m.step.2.opcode? = some (.increment 1 false) ∧ (m.after 3).stack.toList = [256, 0] := by
  intro start full m
  have hrefers : m.Refers [] .char ((0x2000 : Word).toInt % addressSpace).toNat m.world.memory :=
    .word ⟨.inr rfl, rfl, 0x37, [0x1d, 0x04, 0x00, 0x20], by decide, by decide⟩ rfl
  exact ⟨by simp [m, full, Memory.Unshared], hrefers, by decide +kernel, by decide +kernel⟩

end Machine
end LavMachine
