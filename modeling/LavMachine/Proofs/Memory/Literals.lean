import Mathlib
import LavMachine.Machine.Processor
import LavMachine.Proofs.Image
import LavMachine.Proofs.Memory.Placement
import LavMachine.Proofs.Memory.Strings
import LavMachine.Proofs.Reference
set_option autoImplicit false

/-!
Literals in the pool. They are put one behind the other until one does not fit; then the pool starts
over at its base, and a new lap begins. A literal can be read back through memory, by the word that
refers to it, as long as the lap lasts.
-/
namespace LavMachine

theorem Reference.decode_literal {a : Nat} (ha : a < addressSpace) :
    decode (literal a).encode = literal a :=
  decode_encode ⟨ha, rfl⟩

theorem Pool.limit_eq_of_le {p : Pool} (h : p.base + p.capacity ≤ addressSpace) :
    p.limit = p.base + p.capacity :=
  Nat.mod_eq_of_lt (Nat.lt_of_le_of_lt h (by decide))

namespace Memory

variable {m : Memory}

theorem Placed.getByte_pool (h : m.Placed) {i : Nat} (hi : i < m.pool.capacity)
    (hlimit : m.pool.base + m.pool.capacity ≤ addressSpace) :
    m.getByte (m.pool.base + i) = m.pool.bytes.getD i 0 := by
  have hmod : (m.pool.base + i) % addressSpace = m.pool.base + i :=
    Nat.mod_eq_of_lt (Nat.lt_of_lt_of_le (Nat.add_lt_add_left hi _) hlimit)
  have hcovers : m.pool.covers (m.pool.base + i) := by
    rw [Pool.covers_iff, Pool.limit_eq_of_le hlimit]
    omega
  have hnone : m.mappings.find? (m.inMapping (m.pool.base + i)) = none := by
    rw [List.find?_eq_none]
    intro w hw hin
    exact h.not_covers hw hin hcovers
  have hcell : m.cell (m.pool.base + i) = .pool i := by
    simp [cell, hmod, hnone, hcovers]
  simp only [getByte_eq, hcell]

end Memory

structure Interned where
  word : Word
  text : Bytes
  deriving DecidableEq

def Interned.address (e : Interned) : Nat := (Reference.decode e.word).addr

namespace Pool

variable {p : Pool} {text : Bytes}

/-- What is kept of a literal leaves room for its terminator. -/
def kept (p : Pool) (text : Bytes) : Bytes := text.take (p.capacity - 1)

def Fits (p : Pool) (text : Bytes) : Prop := p.next + ((p.kept text).length + 1) ≤ p.capacity

instance (p : Pool) (text : Bytes) : Decidable (p.Fits text) := inferInstanceAs (Decidable (_ ≤ _))

def start (p : Pool) (text : Bytes) : Nat := if p.Fits text then p.next else 0

theorem place_kept (p : Pool) (text : Bytes) : p.place (p.kept text).length = p.start text := by
  unfold place start
  by_cases hfits : p.Fits text
  · rw [if_pos hfits, if_neg (by unfold Fits at hfits; omega)]
  · rw [if_neg hfits, if_pos (by unfold Fits at hfits; omega)]

theorem start_add_le (hsize : 0 < p.capacity) (text : Bytes) :
    p.start text + ((p.kept text).length + 1) ≤ p.capacity := by
  have hlt := p.length_kept_lt text hsize.ne'
  have hplace := p.place_add_lt hlt
  rw [← place_kept]
  exact hplace

theorem intern_of_pos (hsize : 0 < p.capacity) (text : Bytes) :
    p.intern text = ((Reference.literal (p.base + p.start text)).encode,
      { p.put (p.start text) (p.kept text ++ [0]) with
        next := p.start text + (p.kept text).length + 1, count := p.count + 1 }) := by
  rw [← place_kept, intern_eq, if_neg hsize.ne']
  rfl

theorem getD_put (p : Pool) (start : Nat) (bytes : Bytes) (h : start + bytes.length ≤ p.capacity)
    (i : Nat) :
    (p.put start bytes).bytes.getD i 0 =
      if start ≤ i ∧ i < start + bytes.length then bytes.getD (i - start) 0
      else p.bytes.getD i 0 := by
  induction bytes generalizing p start with
  | nil => simp [put]
  | cons b rest ih =>
    simp only [List.length_cons] at h ⊢
    have hroom : start < p.bytes.size := by
      simp only [capacity] at h
      omega
    rw [put, ih _ _ (by simpa [capacity, Nat.add_assoc, Nat.add_comm 1] using h)]
    rw [Memory.getD_setIfInBounds _ hroom]
    rcases Nat.lt_trichotomy i start with hlt | rfl | hgt
    · rw [if_neg (by omega), if_neg (by omega), if_neg (by omega)]
    · rw [if_neg (by omega), if_pos rfl, if_pos (by omega), Nat.sub_self]
      rfl
    · have hindex : i - start = i - (start + 1) + 1 := by omega
      rw [hindex, List.getD_cons_succ]
      by_cases hi : i < start + 1 + rest.length
      · rw [if_pos (by omega), if_pos (by omega)]
      · rw [if_neg (by omega), if_neg (by omega), if_neg (by omega)]

/-- The literal stands in the pool from an index on, in front of the place for the next one. -/
structure Stands (p : Pool) (e : Interned) (start : Nat) : Prop where
  word : e.word = (Reference.literal (p.base + start)).encode
  fits : start + (e.text.length + 1) ≤ p.next
  zero : 0 ∉ e.text
  bytes : ∀ i ≤ e.text.length, p.bytes.getD (start + i) 0 = e.text.getD i 0

theorem stands_intern (hsize : 0 < p.capacity) (hzero : 0 ∉ text) :
    (p.intern text).2.Stands ⟨(p.intern text).1, p.kept text⟩ (p.start text) := by
  have hle := p.start_add_le hsize text
  rw [intern_of_pos hsize]
  refine ⟨?_, ?_, fun hmem => hzero (List.mem_of_mem_take hmem), fun i hi => ?_⟩
  · simp
  · simp [Nat.add_assoc]
  · have hin : p.start text ≤ p.start text + i ∧
        p.start text + i < p.start text + (p.kept text ++ [0]).length := by
      simp
      omega
    simp only
    rw [getD_put _ _ _ (by simpa using hle), if_pos hin, Nat.add_sub_cancel_left,
      Bytes.getD_concat_zero]

theorem Stands.intern {e : Interned} {start : Nat} (h : p.Stands e start) (hsize : 0 < p.capacity)
    (hfits : p.Fits text) : (p.intern text).2.Stands e start := by
  have hle := p.start_add_le hsize text
  have hstart : p.start text = p.next := if_pos hfits
  have hend := h.fits
  refine ⟨?_, ?_, h.zero, fun i hi => ?_⟩
  · rw [base_intern]
    exact h.word
  · rw [intern_of_pos hsize]
    simp only [hstart]
    omega
  · have hout :
        ¬ (p.start text ≤ start + i ∧ start + i < p.start text + (p.kept text ++ [0]).length) := by
      omega
    rw [intern_of_pos hsize]
    simp only
    rw [getD_put _ _ _ (by simpa using hle), if_neg hout]
    exact h.bytes i hi

section

variable {e : Interned} {start : Nat} (h : p.Stands e start) (hnext : p.next ≤ p.capacity)
  (hlimit : p.base + p.capacity ≤ addressSpace)

include h hnext hlimit

theorem Stands.decode_word : Reference.decode e.word = Reference.literal (p.base + start) := by
  have hend := h.fits
  rw [h.word, Reference.decode_literal]
  omega

theorem Stands.address_eq : e.address = p.base + start := by
  rw [Interned.address, h.decode_word hnext hlimit]
  rfl

theorem Stands.string_eq {m : Memory} (hm : m.Placed) (hpool : m.pool = p) :
    m.string (p.base + start) = e.text := by
  have hend := h.fits
  have hcap : p.capacity ≤ addressSpace := Nat.le_trans (Nat.le_add_left _ _) hlimit
  subst hpool
  refine Memory.string_of_bytes (fun i hi => ?_) h.zero (by omega)
  rw [Nat.add_assoc, hm.getByte_pool (by omega) hlimit]
  exact h.bytes i hi

end

end Pool

/-- A pool, and what has been added to it since a literal was last put at its base. -/
structure Lap where
  pool : Pool
  entries : List Interned := []

namespace Lap

variable {base size : Nat} {l : Lap} {i j : Image} {text : Bytes}

def add (l : Lap) (i : Image) : Lap :=
  match Image.literal i with
  | .error .. => l
  | .ok text _ =>
    let (word, pool) := l.pool.intern text
    let e : Interned := ⟨word, l.pool.kept text⟩
    { pool, entries := if e.address = l.pool.base then [e] else l.entries ++ [e] }

structure Sound (base size : Nat) (l : Lap) : Prop where
  base_eq : l.pool.base = base
  capacity_eq : l.pool.capacity = size
  next_le : l.pool.next ≤ l.pool.capacity
  stands : ∀ e ∈ l.entries, ∃ start, l.pool.Stands e start
  increasing : (l.entries.map Interned.address).Pairwise (· < ·)

theorem sound_clear (p : Pool) : Sound p.base p.capacity ⟨p.clear, []⟩ := by
  refine ⟨rfl, ?_, Nat.zero_le _, by simp, by simp⟩
  simp [Pool.clear, Pool.empty, Pool.capacity]

theorem Sound.limit_le (h : Sound base size l) (hlimit : base + size ≤ addressSpace) :
    l.pool.base + l.pool.capacity ≤ addressSpace := by
  rwa [h.base_eq, h.capacity_eq]

theorem Sound.next_intern_le (h : Sound base size l) (text : Bytes) :
    (l.pool.intern text).2.next ≤ (l.pool.intern text).2.capacity := by
  rw [Pool.capacity_intern]
  exact Pool.next_intern_le _ text h.next_le

section

variable (h : Sound base size l) (hsize : 0 < size) (hlimit : base + size ≤ addressSpace)
  (hi : Image.literal i = .ok text j)

include h hsize hlimit hi

theorem Sound.address_intern :
    (⟨(l.pool.intern text).1, l.pool.kept text⟩ : Interned).address = base + l.pool.start text := by
  have hstands :=
    Pool.stands_intern (by rwa [h.capacity_eq]) (Image.zero_notMem_literal hi) (p := l.pool)
  rw [hstands.address_eq (h.next_intern_le text), Pool.base_intern, h.base_eq]
  rw [Pool.base_intern, Pool.capacity_intern]
  exact h.limit_le hlimit

/-- A lap ends exactly where a literal does not fit. -/
theorem Sound.add_eq : l.add i = ⟨(l.pool.intern text).2,
      (if l.pool.Fits text then l.entries else []) ++
      [⟨(l.pool.intern text).1, l.pool.kept text⟩]⟩ := by
  simp only [add, hi, h.address_intern hsize hlimit hi, h.base_eq, Nat.add_eq_left, Pool.start]
  by_cases hfits : l.pool.Fits text
  · simp only [if_pos hfits]
    by_cases hnext : l.pool.next = 0
    · have hnil : l.entries = [] := by
        rw [List.eq_nil_iff_forall_not_mem]
        intro e he
        obtain ⟨start, hstands⟩ := h.stands e he
        have hend := hstands.fits
        omega
      simp [hnext, hnil]
    · simp [hnext]
  · simp [hfits]

theorem Sound.add_literal : Sound base size (l.add i) := by
  have hpos : 0 < l.pool.capacity := by rwa [h.capacity_eq]
  have hnew := Pool.stands_intern hpos (Image.zero_notMem_literal hi)
  rw [h.add_eq hsize hlimit hi]
  refine ⟨(Pool.base_intern _ _).trans h.base_eq, (Pool.capacity_intern _ _).trans h.capacity_eq,
    h.next_intern_le text, ?_, ?_⟩
  · intro e he
    rcases List.mem_append.1 he with he | he
    · split at he
      · rename_i hfits
        obtain ⟨start, hstands⟩ := h.stands e he
        exact ⟨start, hstands.intern hpos hfits⟩
      · simp at he
    · rw [List.mem_singleton.1 he]
      exact ⟨_, hnew⟩
  · rw [List.map_append, List.pairwise_append]
    by_cases hfits : l.pool.Fits text
    · simp only [if_pos hfits]
      refine ⟨h.increasing, by simp, ?_⟩
      intro a ha b hb
      obtain ⟨e, he, rfl⟩ := List.mem_map.1 ha
      obtain ⟨start, hstands⟩ := h.stands e he
      have hend := hstands.fits
      have hb : b = base + l.pool.start text := by simpa [h.address_intern hsize hlimit hi] using hb
      rw [hb, hstands.address_eq h.next_le (h.limit_le hlimit), h.base_eq, Pool.start, if_pos hfits]
      omega
    · simp [hfits]

end

theorem Sound.add (h : Sound base size l) (hsize : 0 < size) (hlimit : base + size ≤ addressSpace)
    (i : Image) :
    Sound base size (l.add i) := by
  cases hi : Image.literal i with
  | ok text j => exact h.add_literal hsize hlimit hi
  | error e j => simpa [Lap.add, hi] using h

theorem Sound.foldl_add (h : Sound base size l) (hsize : 0 < size)
    (hlimit : base + size ≤ addressSpace) (images : List Image) :
    Sound base size (images.foldl Lap.add l) :=
  List.foldlRecOn images Lap.add h fun _ hl i _ => hl.add hsize hlimit i

end Lap

variable {κ φ : Type} [Keyboard κ] [Disk φ]

theorem Processor.execute_intern {i j : Image} {text : Bytes} (hi : Image.literal i = .ok text j)
    (s : Stack) (w : World κ φ) : execute .intern ⟨i, s, w⟩ = push (w.memory.pool.intern text).1
      ⟨j, s, { w with memory := { w.memory with pool := (w.memory.pool.intern text).2 } }⟩ := by
  simp only [execute, bind, EStateM.bind, fetch, hi]
  rfl

theorem Processor.execute_intern_unended {i j : Image} {e : Fault}
    (hi : Image.literal i = .error e j) (s : Stack) (w : World κ φ) :
    execute .intern ⟨i, s, w⟩ = .error e ⟨j, s, w⟩ := by
  simp only [execute, bind, EStateM.bind, fetch, hi]

/-- Literals that are added to a cleared pool are kept, and can be read through memory by their
words, until one does not fit; only then the pool starts over at its base. -/
theorem literals_last_a_lap {pool : Pool} {bank : Array Window} {windows : List Mapping}
    {built : Memory} (hbuilt : Memory.installAll windows (Memory.blank pool bank) = .ok () built)
    (hsize : 1 ≤ pool.capacity) (hlimit : pool.base + pool.capacity ≤ addressSpace)
    (images : List Image) :
    let l := images.foldl Lap.add ⟨pool.clear, []⟩
    l.pool.next ≤ pool.capacity ∧
    (∀ m : Memory, m.shape = built.shape → m.pool = l.pool → ∀ e ∈ l.entries,
      Reference.decode e.word = { addr := e.address, width := 1, pool := true } ∧
      pool.covers e.address ∧ m.string e.address = e.text) ∧
    (l.entries.map Interned.address).Pairwise (· < ·) ∧
    (∀ (i : Image) text more, i.rest = text ++ 0 :: more → 0 ∉ text →
      let kept := text.take (pool.capacity - 1)
      let fits := l.pool.next + (kept.length + 1) ≤ pool.capacity
      let e : Interned := ⟨(l.pool.intern text).1, kept⟩
      l.add i = ⟨(l.pool.intern text).2, (if fits then l.entries else []) ++ [e]⟩ ∧
      e.address = pool.base + (if fits then l.pool.next else 0) ∧
      ∀ s (w : World κ φ), w.memory.pool = l.pool → Processor.execute .intern ⟨i, s, w⟩ =
        Processor.push e.word
          ⟨i.skip (text.length + 1), s,
            { w with memory := { w.memory with pool := (l.add i).pool } }⟩) ∧
    ∀ i : Image, 0 ∉ i.rest → l.add i = l ∧ ∀ s (w : World κ φ), ∃ e j,
      Processor.execute .intern ⟨i, s, w⟩ = .error e ⟨j, s, w⟩ ∧ e.kind = .endOfImage := by
  intro l
  have hl : Lap.Sound pool.base pool.capacity l :=
    (Lap.sound_clear pool).foldl_add hsize hlimit images
  have hplaced := (Memory.placed_blank pool bank).installAll hbuilt
  refine ⟨hl.capacity_eq ▸ hl.next_le, fun m hshape hpool e he => ?_, hl.increasing,
    fun i text more hrest hzero => ?_, fun i hzero => ?_⟩
  · obtain ⟨start, hstands⟩ := hl.stands e he
    have hfull := hl.limit_le hlimit
    have haddress := hstands.address_eq hl.next_le hfull
    have hend := hstands.fits
    have hnext := hl.next_le
    refine ⟨?_, ?_, ?_⟩
    · rw [hstands.decode_word hl.next_le hfull, haddress]
      rfl
    · rw [Pool.covers_iff, Pool.limit_eq_of_le hlimit, haddress, hl.base_eq, ← hl.capacity_eq]
      omega
    · rw [haddress]
      exact hstands.string_eq hl.next_le hfull (hplaced.congr hshape.symm) hpool
  · intro kept fits e
    have hi := Image.literal_of_ended hrest hzero
    have hkept : l.pool.kept text = kept := by rw [Pool.kept, hl.capacity_eq]
    have hfits : l.pool.Fits text ↔ fits := by rw [Pool.Fits, hkept, hl.capacity_eq]
    have hadd := hl.add_eq hsize hlimit hi
    have haddress := hl.address_intern hsize hlimit hi
    simp only [Pool.start, hkept, hfits] at hadd haddress
    refine ⟨hadd, haddress, fun s w hpool => ?_⟩
    rw [Processor.execute_intern hi, hpool, hadd]
  · obtain ⟨j, hi⟩ := Image.literal_of_unended hzero
    exact ⟨by simp [Lap.add, hi], fun s w => ⟨_, _, Processor.execute_intern_unended hi s w, rfl⟩⟩

/-- The pool ends the address space, behind a window. Two literals fill it; a third begins a lap and
is cut. -/
theorem literals_last_a_lap_full :
    let start := Memory.blank (Pool.empty 65530 6) #[#[0, 0]]
    let built := { start with mappings := [⟨65528, 0⟩] }
    let lap :=
      [⟨"", #[97, 98, 99, 0], 0⟩, ⟨"", #[100, 0], 0⟩].foldl Lap.add ⟨(Pool.empty 65530 6).clear, []⟩
    Memory.installAll [⟨65528, 0⟩] start = .ok () built ∧
    lap.entries.map Interned.address = [65530, 65534] ∧
    { built with pool := lap.pool }.string 65530 = [97, 98, 99] ∧
    (lap.add ⟨"", #[1, 2, 3, 4, 5, 6, 7, 0], 0⟩).entries.map Interned.text = [[1, 2, 3, 4, 5]] := by
  intro start built lap
  have hbuilt : Memory.installAll [⟨65528, 0⟩] start = .ok () built := rfl
  obtain ⟨_, hread, _, hnext, _⟩ :=
    literals_last_a_lap (κ := Detached) (φ := Detached) hbuilt (by decide) (by decide)
    [⟨"", #[97, 98, 99, 0], 0⟩, ⟨"", #[100, 0], 0⟩]
  have hentries : lap.entries = [⟨1114106, [97, 98, 99]⟩, ⟨1114110, [100]⟩] := by decide +kernel
  have hshape : { built with pool := lap.pool }.shape = built.shape := by decide +kernel
  have hfirst : ⟨1114106, [97, 98, 99]⟩ ∈ lap.entries := hentries ▸ .head _
  obtain ⟨_, _, hstring⟩ := hread { built with pool := lap.pool } hshape rfl _ hfirst
  obtain ⟨hadd, _⟩ :=
    hnext ⟨"", #[1, 2, 3, 4, 5, 6, 7, 0], 0⟩ [1, 2, 3, 4, 5, 6, 7] [] (by decide) (by decide)
  refine ⟨hbuilt, ?_, hstring, ?_⟩
  · rw [hentries]
    decide
  · rw [hadd]
    decide +kernel

end LavMachine
