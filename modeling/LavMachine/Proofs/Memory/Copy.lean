import Mathlib
import LavMachine.Proofs.Memory.Footprint
set_option autoImplicit false

/-!
Copying between ranges that overlap. When the destination lies a little further on in the direction
of a copy, the copy comes to bytes that it has written itself, and the start of the source is
repeated with the distance of the ranges as its period. Addresses lie on a ring, so ranges can
overlap round its end as well. A move chooses its direction by the plain addresses; it is safe for
all overlaps but those round the end.
-/
namespace LavMachine

theorem Word.address_lt (w : Word) : w.address < addressSpace := mod_addressSpace_lt _

theorem Word.length_lt (w : Word) : w.length < addressSpace := by
  have hlt := w.toInt16.toInt_lt
  simp only [length, addressSpace]
  omega

namespace Memory

/-- How far on from `a` the address `b` lies, where addresses wrap. -/
def ahead (a b : Nat) : Nat := (b + (addressSpace - a % addressSpace)) % addressSpace

theorem ahead_lt (a b : Nat) : ahead a b < addressSpace := mod_addressSpace_lt _

theorem add_ahead (a b : Nat) : (a + ahead a b) % addressSpace = b % addressSpace := by
  simp only [ahead, addressSpace]
  omega

theorem ahead_succ (a b : Nat) : ahead (a + 1) (b + 1) = ahead a b := by
  simp only [ahead, addressSpace]
  omega

theorem ahead_self (a : Nat) : ahead a a = 0 := by
  simp only [ahead, addressSpace]
  omega

theorem succ_mod (i d : Nat) : (i + 1) % d = if i % d + 1 = d then 0 else i % d + 1 := by
  rcases Nat.eq_zero_or_pos d with rfl | hd
  · simp
  · have hlt := Nat.mod_lt i hd
    rw [← Nat.mod_add_mod]
    split
    · rename_i h
      rw [h, Nat.mod_self]
    · exact Nat.mod_eq_of_lt (by omega)

theorem cell_eq_of_mod_eq (m : Memory) {a b : Nat} (h : a % addressSpace = b % addressSpace) :
    m.cell a = m.cell b := by
  simp only [cell, h]

theorem getByte_eq_of_mod_eq (m : Memory) {a b : Nat} (h : a % addressSpace = b % addressSpace) :
    m.getByte a = m.getByte b := by
  simp only [getByte_eq, m.cell_eq_of_mod_eq h]

theorem setIfInBounds_getD (w : Window) (i : Nat) : w.setIfInBounds i (w.getD i 0) = w := by
  apply Array.ext
  · simp
  · intro j _ hj
    rw [Array.getElem_setIfInBounds hj]
    split
    · rename_i h
      subst h
      simp [hj]
    · rfl

theorem modify_setIfInBounds_getD (m : Memory) (slot i : Nat) :
    m.bank.modify slot (·.setIfInBounds i ((m.window slot).getD i 0)) = m.bank := by
  apply Array.ext
  · simp
  · intro j _ hj
    by_cases h : slot = j
    · subst h
      have hwindow : m.window slot = m.bank[slot] := by simp [window, hj]
      simp only [Array.getElem_modify, hwindow, setIfInBounds_getD, if_true]
    · simp [Array.getElem_modify, h]

theorem setByte_getByte (m : Memory) (a : Nat) : m.setByte a (m.getByte a) = m := by
  rw [setByte_eq, getByte_eq]
  cases m.cell a with
  | window slot i => simp only [modify_setIfInBounds_getD]
  | pool i => simp only [setIfInBounds_getD]
  | own i => simp [Vector.get_eq_getElem]

theorem copyUp_self (m : Memory) {dst src : Nat} (h : dst % addressSpace = src % addressSpace)
    (count : Nat) :
    m.copyUp dst src count = m := by
  induction count generalizing dst src with
  | zero => rfl
  | succ count ih =>
    have hnext : (dst + 1) % addressSpace = (src + 1) % addressSpace := by
      simp only [addressSpace] at h ⊢
      omega
    rw [copyUp, ← m.getByte_eq_of_mod_eq h, setByte_getByte, ih hnext]

section

variable {m : Memory} (h : m.Unshared) (dst src : Nat) {count i : Nat}

include h

theorem getByte_first (hi : i + 1 < addressSpace) :
    (m.setByte dst (m.getByte src)).getByte (src + 1 + i % ahead src dst) =
      m.getByte (src + (i + 1) % ahead src dst) := by
  have hle := Nat.mod_le i (ahead src dst)
  have hlt := ahead_lt src dst
  have hadd := add_ahead src dst
  have hmod : 0 < ahead src dst → i % ahead src dst < ahead src dst := Nat.mod_lt i
  rw [getByte_setByte h, succ_mod]
  generalize i % ahead src dst = r at hle hmod ⊢
  generalize ahead src dst = d at hlt hadd hmod ⊢
  have hreach : (src + 1 + r) % addressSpace = dst % addressSpace ↔ r + 1 = d := by
    simp only [addressSpace] at hi hlt hadd ⊢
    omega
  simp only [hreach]
  split
  · rfl
  · rw [Nat.add_assoc, Nat.add_comm 1]

/-- Copying upwards repeats the bytes before the destination, if the source reaches it. -/
theorem getByte_copyUp (hcount : count ≤ addressSpace) (hi : i < count) :
    (m.copyUp dst src count).getByte (dst + i) = m.getByte (src + i % ahead src dst) := by
  induction count generalizing m dst src i with
  | zero => omega
  | succ count ih =>
    have hnext := h.setByte dst (m.getByte src)
    rw [copyUp]
    cases i with
    | zero =>
      -- What follows does not come round to the first byte again.
      have hout : Outside (dst + 1) count dst := by
        intro j hj
        simp only [addressSpace] at hcount ⊢
        omega
      simp only [Nat.zero_mod, Nat.add_zero]
      rw [(writesIn_copyUp _ _ _ _).getByte_eq hnext hout, getByte_setByte h, if_pos rfl]
    | succ i =>
      have hat : dst + (i + 1) = dst + 1 + i := by omega
      rw [hat, ih hnext (dst + 1) (src + 1) (by omega) (by omega), ahead_succ,
        getByte_first h dst src (by omega)]

theorem getByte_last (hcount : count < addressSpace) (hi : i < count) :
    (m.setByte (dst + count) (m.getByte (src + count))).getByte
      (src + (count - 1 - i % ahead dst src)) =
      m.getByte (src + (count - (i + 1) % ahead dst src)) := by
  have hle := Nat.mod_le i (ahead dst src)
  have hlt := ahead_lt dst src
  have hadd := add_ahead dst src
  have hmod : 0 < ahead dst src → i % ahead dst src < ahead dst src := Nat.mod_lt i
  rw [getByte_setByte h, succ_mod]
  generalize i % ahead dst src = r at hle hmod ⊢
  generalize ahead dst src = d at hlt hadd hmod ⊢
  have hreach : (src + (count - 1 - r)) % addressSpace = (dst + count) % addressSpace ↔
      r + 1 = d := by
    simp only [addressSpace] at hcount hlt hadd ⊢
    omega
  simp only [hreach]
  split
  · rfl
  · rw [Nat.sub_sub, Nat.add_comm 1]

theorem getByte_copyDown (hcount : count ≤ addressSpace) (hi : i < count) :
    (m.copyDown dst src count).getByte (dst + (count - 1 - i)) =
      m.getByte (src + (count - 1 - i % ahead dst src)) := by
  induction count generalizing m i with
  | zero => omega
  | succ count ih =>
    have hnext := h.setByte (dst + count) (m.getByte (src + count))
    rw [copyDown, Nat.add_sub_cancel]
    cases i with
    | zero =>
      have hout : Outside dst count (dst + count) := by
        intro j hj
        simp only [addressSpace] at hcount ⊢
        omega
      simp only [Nat.zero_mod, Nat.sub_zero]
      rw [(writesIn_copyDown _ _ _ _).getByte_eq hnext hout, getByte_setByte h, if_pos rfl]
    | succ i =>
      have hat : count - (i + 1) = count - 1 - i := by omega
      rw [hat, ih hnext (by omega) (by omega), getByte_last h dst src (by omega) (by omega)]

end

/-- A copy upwards repeats the start of its source, and the distance from there to the destination
is its period. It is faithful unless it is longer than that. -/
theorem copy_periodic {m : Memory} (h : m.Unshared) (dst src : Nat) (size : Word) :
    let after := m.copyUp dst src size.length
    let gap := ahead src dst
    (gap = 0 → after = m) ∧
    (0 < gap → ∀ i < size.length, after.getByte (dst + i) = m.getByte (src + i % gap)) ∧
    (∀ b, Outside dst size.length b → after.getByte b = m.getByte b) ∧
    (size.length ≤ gap → ∀ i < size.length, after.getByte (dst + i) = m.getByte (src + i)) := by
  intro after gap
  have hbyte : ∀ i < size.length, after.getByte (dst + i) = m.getByte (src + i % gap) := fun i hi =>
    getByte_copyUp h dst src size.length_lt.le hi
  refine ⟨fun hgap => ?_, fun _ => hbyte, fun b hb => (writesIn_copyUp _ _ _ _).getByte_eq h hb,
    fun hle i hi => ?_⟩
  · have hmod := add_ahead src dst
    rw [show ahead src dst = 0 from hgap, Nat.add_zero] at hmod
    exact m.copyUp_self hmod.symm size.length
  · rw [hbyte i hi, Nat.mod_eq_of_lt (by omega)]

/-- Two bytes in a window that ends the address space are repeated behind it, the last three times
into the pool. -/
theorem copy_periodic_through_windows :
    let start := { blank (Pool.empty 2 4) #[#[0, 0]] with mappings := [⟨65534, 0⟩] }
    let m := start.writeBlock 65534 [1, 2]
    m.Unshared ∧ (m.copyUp 0 65534 5).readBlock 0 5 = [1, 2, 1, 2, 1] := by
  intro start m
  have hstart : start.Unshared := List.nodup_singleton 0
  have hshare : m.Unshared := hstart.writes (writes_writeBlock _ _ _)
  have hlong : (5 : Word).length = 5 := by decide
  have hgap : ahead 65534 0 = 2 := by decide
  obtain ⟨_, hcopied, _⟩ := copy_periodic hshare 0 65534 5
  rw [hlong, hgap] at hcopied
  have hread : m.readBlock 65534 2 = [1, 2] := readBlock_writeBlock hstart _ _ (by decide)
  have hbytes : m.getByte 65534 = 1 ∧ m.getByte 65535 = 2 := by
    simpa [readBlock, List.range_succ] using hread
  have hcopy :
      (m.copyUp 0 65534 5).readBlock 0 5 = (List.range 5).map fun i => m.getByte (65534 + i % 2) :=
    List.map_congr_left fun i hi => hcopied (by decide) i (List.mem_range.1 hi)
  refine ⟨hshare, ?_⟩
  rw [hcopy]
  simp [List.range_succ, hbytes]

def detour (a b : Nat) : Nat := addressSpace - (max a b - min a b)

/-- Which byte of the source a move brings to the place `i` of the destination. -/
def origin (dst src count i : Nat) : Nat :=
  if dst < src then i % detour dst src else count - 1 - (count - 1 - i) % detour dst src

section

variable {dst src count : Nat}

theorem detour_comm (a b : Nat) : detour a b = detour b a := by
  rw [detour, detour, max_comm, min_comm]

theorem mod_ahead {a b i : Nat} (hab : a ≤ b) (hb : b < addressSpace) (hi : i < addressSpace) :
    i % ahead b a = i % detour a b := by
  rcases hab.eq_or_lt with rfl | hlt
  · rw [ahead_self, Nat.mod_zero, detour, max_self, min_self, Nat.sub_self, Nat.sub_zero,
      Nat.mod_eq_of_lt hi]
  · have hahead : ahead b a = detour a b := by
      simp only [ahead, detour, addressSpace] at hb ⊢
      omega
    rw [hahead]

theorem getByte_move {m : Memory} (h : m.Unshared) (hdst : dst < addressSpace)
    (hsrc : src < addressSpace) (hcount : count < addressSpace) {i : Nat} (hi : i < count) :
    (m.move dst src count).getByte (dst + i) = m.getByte (src + origin dst src count i) := by
  unfold move origin
  by_cases hup : dst < src
  · rw [if_pos hup, if_pos hup, getByte_copyUp h dst src hcount.le hi,
      mod_ahead hup.le hsrc (by omega)]
  · have hcopy := getByte_copyDown h dst src hcount.le (show count - 1 - i < count by omega)
    have hback : count - 1 - (count - 1 - i) = i := by omega
    rw [mod_ahead (by omega) hdst (by omega), detour_comm, hback] at hcopy
    rw [if_neg hup, if_neg hup, hcopy]

/-- The detour is a period of what a move writes; it shows as soon as the ranges are longer. -/
theorem origin_eq_self_iff (hdst : dst < addressSpace) (hsrc : src < addressSpace) (count : Nat) :
    (∀ i < count, origin dst src count i = i) ↔ count ≤ detour dst src := by
  have hpos : 0 < detour dst src := by
    simp only [detour, addressSpace] at *
    omega
  constructor
  · intro horigin
    by_contra hlong
    by_cases hup : dst < src
    · have hperiod := horigin (detour dst src) (by omega)
      rw [origin, if_pos hup, Nat.mod_self] at hperiod
      omega
    · have hperiod := horigin (count - 1 - detour dst src) (by omega)
      have hback : count - 1 - (count - 1 - detour dst src) = detour dst src := by omega
      rw [origin, if_neg hup, hback, Nat.mod_self] at hperiod
      omega
  · intro hshort i hi
    unfold origin
    split
    · exact Nat.mod_eq_of_lt (by omega)
    · rw [Nat.mod_eq_of_lt (by omega)]
      omega

end

/-- A move brings every byte of its source to the destination and changes nothing else, as long as
the ranges do not overlap round the end of the address space. There it repeats a part of the
source. -/
theorem move_overlap_exact {m : Memory} (h : m.Unshared) (dst src size : Word) :
    let after := m.move dst.address src.address size.length
    let gap := detour dst.address src.address
    (size.length ≤ gap →
      ∀ i < size.length, after.getByte (dst.address + i) = m.getByte (src.address + i)) ∧
    (∀ b, Outside dst.address size.length b → after.getByte b = m.getByte b) ∧
    (∀ i < size.length, after.getByte (dst.address + i) =
      m.getByte (src.address + origin dst.address src.address size.length i)) ∧
    (gap < size.length → ∃ i < size.length, origin dst.address src.address size.length i ≠ i) := by
  intro after gap
  have hiff := origin_eq_self_iff dst.address_lt src.address_lt size.length
  have hexact : ∀ i < size.length, after.getByte (dst.address + i) =
      m.getByte (src.address + origin dst.address src.address size.length i) := fun i hi =>
    getByte_move h dst.address_lt src.address_lt size.length_lt hi
  refine ⟨fun hshort i hi => ?_, fun b hb => (writesIn_move _ _ _ _).getByte_eq h hb, hexact,
    fun hlong => ?_⟩
  · rw [hexact i hi, hiff.2 hshort i hi]
  · by_contra hnone
    push Not at hnone
    exact absurd (hiff.1 hnone) (by omega)

theorem unshared_blank (pool : Pool) (bank : Array Window) : (blank pool bank).Unshared :=
  List.nodup_nil

/-- Both ranges wrap and overlap, one byte apart. -/
theorem move_overlap_exact_wrapped :
    let m := (blank (Pool.empty 4096 16) #[]).writeBlock 65534 [1, 2, 3]
    m.Unshared ∧ (m.move 65535 65534 3).readBlock 65535 3 = [1, 2, 3] := by
  intro m
  have hblank := unshared_blank (Pool.empty 4096 16) #[]
  have hshare : m.Unshared := hblank.writes (writes_writeBlock _ _ _)
  have hlong : (3 : Word).length = 3 := by decide
  have hfrom : (-2 : Word).address = 65534 := by decide
  have hto : (-1 : Word).address = 65535 := by decide
  obtain ⟨hmoved, _⟩ := move_overlap_exact hshare (-1) (-2) 3
  rw [hlong, hfrom, hto] at hmoved
  have hread : (m.move 65535 65534 3).readBlock 65535 3 = m.readBlock 65534 3 :=
    List.map_congr_left fun i hi => hmoved (by decide) i (List.mem_range.1 hi)
  exact ⟨hshare, hread.trans (readBlock_writeBlock hblank _ _ (by decide))⟩

/-- The source ends where the destination goes on, on the other side of address zero: its first byte
arrives three times. -/
theorem move_round_the_end :
    let m := (blank (Pool.empty 4096 16) #[]).writeBlock 65535 [1, 2, 3]
    m.Unshared ∧ m.readBlock 65535 3 = [1, 2, 3] ∧
    (m.move 0 65535 3).readBlock 0 3 = [1, 1, 1] := by
  intro m
  have hblank := unshared_blank (Pool.empty 4096 16) #[]
  have hshare : m.Unshared := hblank.writes (writes_writeBlock _ _ _)
  have hread : m.readBlock 65535 3 = [1, 2, 3] := readBlock_writeBlock hblank _ _ (by decide)
  have hmoved : ∀ i < 3, (m.move 0 65535 3).getByte (0 + i) = m.getByte (65535 + i % 1) :=
    fun i hi =>
    getByte_move hshare (by decide) (by decide) (by decide) hi
  have hfirst : m.getByte 65535 = 1 := congrArg List.head? hread |> Option.some.inj
  refine ⟨hshare, hread, ?_⟩
  simp [readBlock, List.range_succ, hmoved 0, hmoved 1, hmoved 2, Nat.mod_one, hfirst]

end Memory
end LavMachine
