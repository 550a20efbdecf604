import Mathlib
import LavMachine.Image
set_option autoImplicit false

namespace LavMachine.Image

variable {α : Type}

def rest (i : Image) : Bytes := i.bytes.toList.drop i.cursor

def skip (i : Image) (n : Nat) : Image := { i with cursor := i.cursor + n }

@[simp] theorem rest_skip (i : Image) (n : Nat) : (i.skip n).rest = i.rest.drop n := by
  simp [rest, skip, List.drop_drop]

theorem skip_skip (i : Image) (m n : Nat) : (i.skip m).skip n = i.skip (m + n) := by
  simp [skip, Nat.add_assoc]

theorem length_rest (i : Image) : i.rest.length = i.bytes.size - i.cursor := by simp [rest]

def pastEnd (offset : Nat) : Fault := { kind := .endOfImage, offset := some offset }

/-- The fetch takes `n` bytes, or none when there are fewer. -/
def Reads (n : Nat) (f : Fetch α) (value : Bytes → α) : Prop :=
  ∀ i : Image, f i = if n ≤ i.rest.length then .ok (value (i.rest.take n)) (i.skip n)
    else .error (pastEnd i.cursor) i

theorem reads_take {n : Nat} (hn : 0 < n) : Reads n (take n) id := by
  intro i
  have hlen := i.length_rest
  unfold take
  by_cases h : n ≤ i.rest.length
  · have hbytes : (i.bytes.extract i.cursor (i.cursor + n)).toList = i.rest.take n := by simp [rest]
    rw [if_pos (by omega), if_pos h, hbytes]
    rfl
  · rw [if_neg (by omega), if_neg h]
    rfl

theorem Reads.map {β : Type} {n : Nat} {f : Fetch α} {value : Bytes → α} (hf : Reads n f value)
    (g : α → β) :
    Reads n (do return g (← f)) (g ∘ value) := by
  intro i
  simp only [bind, EStateM.bind, hf i]
  by_cases h : n ≤ i.rest.length
  · simp [h, pure, EStateM.pure]
  · simp [h]

theorem Reads.of_ok {n : Nat} {f : Fetch α} {value : Bytes → α} (hf : Reads n f value)
    {i j : Image} {a : α} (h : f i = .ok a j) : a = value (i.rest.take n) ∧ j = i.skip n := by
  rw [hf i] at h
  split at h
  · cases h
    exact ⟨rfl, rfl⟩
  · cases h

theorem reads_byte : Reads 1 byte fun bytes => bytes.headD 0 := (reads_take (by decide)).map _

theorem reads_int16 : Reads 2 int16 fun bytes => Int16.ofNat bytes.toNat :=
  (reads_take (by decide)).map _

theorem reads_address : Reads 2 address Bytes.toNat := (reads_take (by decide)).map _

theorem reads_target : Reads 3 target Bytes.toNat := (reads_take (by decide)).map _

theorem reads_int32 : Reads 4 int32 fun bytes => Int32.ofNat bytes.toNat :=
  (reads_take (by decide)).map _

/-- The bytes that a literal at the front of the list takes, its terminator included. -/
def literalSize (bytes : Bytes) : Nat := (bytes.takeWhile (· ≠ 0)).length + 1

theorem literalSize_cons_of_ne {b : UInt8} (hb : b ≠ 0) (bytes : Bytes) :
    literalSize (b :: bytes) = literalSize bytes + 1 := by
  simp [literalSize, hb]

theorem literalSize_le_length_iff (bytes : Bytes) :
    literalSize bytes ≤ bytes.length ↔ 0 ∈ bytes := by
  induction bytes with
  | nil => simp [literalSize]
  | cons b bytes ih =>
    by_cases hb : b = 0
    · simp [literalSize, hb]
    · have hb' : 0 ≠ b := Ne.symm hb
      rw [literalSize_cons_of_ne hb, List.length_cons, List.mem_cons, Nat.add_le_add_iff_right, ih]
      simp [hb']

theorem rest_eq_cons {i : Image} {b : UInt8} {bytes : Bytes} (h : i.rest = b :: bytes) :
    byte i = .ok b (i.skip 1) ∧ (i.skip 1).rest = bytes := by
  simp [reads_byte i, h]

theorem literalFrom_eq {fuel : Nat} {i : Image} (hfuel : i.rest.length < fuel) (read : Bytes) :
    literalFrom fuel read i = if 0 ∈ i.rest
      then .ok (read.reverse ++ i.rest.takeWhile (· ≠ 0)) (i.skip (literalSize i.rest))
      else .error (pastEnd (i.cursor + i.rest.length)) (i.skip i.rest.length) := by
  induction fuel generalizing i read with
  | zero => omega
  | succ fuel ih =>
    simp only [literalFrom, bind, EStateM.bind]
    cases hrest : i.rest with
    | nil => simp [reads_byte i, hrest, skip]
    | cons b bytes =>
      obtain ⟨hbyte, hnext⟩ := rest_eq_cons hrest
      rw [hbyte]
      by_cases hb : b = 0
      · simp [hb, literalSize, pure, EStateM.pure]
      · have hb' : 0 ≠ b := Ne.symm hb
        have hlen : (i.skip 1).rest.length < fuel := by
          rw [hrest, List.length_cons] at hfuel
          rw [hnext]
          omega
        have hcursor : (i.skip 1).cursor + bytes.length = i.cursor + (bytes.length + 1) := by
          simp only [skip]
          omega
        have hskip (n : Nat) : (i.skip 1).skip n = i.skip (n + 1) := by rw [skip_skip, Nat.add_comm]
        simp only [beq_iff_eq, hb, if_false, ih hlen, hnext, hcursor, hskip,
          literalSize_cons_of_ne hb, List.length_cons]
        simp [hb, hb']

theorem literal_eq (i : Image) : literal i = if literalSize i.rest ≤ i.rest.length
    then .ok (i.rest.takeWhile (· ≠ 0)) (i.skip (literalSize i.rest))
    else .error (pastEnd (i.cursor + i.rest.length)) (i.skip i.rest.length) := by
  have hfuel : i.rest.length < i.bytes.size - i.cursor + 1 := by
    rw [length_rest]
    omega
  have hfrom := literalFrom_eq hfuel []
  simp only [literalSize_le_length_iff]
  exact hfrom

theorem zero_notMem_literal {i j : Image} {text : Bytes} (h : literal i = .ok text j) :
    0 ∉ text := by
  rw [literal_eq] at h
  split at h
  · cases h
    intro hmem
    simpa using List.mem_takeWhile_imp hmem
  · cases h

theorem literal_of_ended {i : Image} {text more : Bytes} (h : i.rest = text ++ 0 :: more)
    (hzero : 0 ∉ text) :
    literal i = .ok text (i.skip (text.length + 1)) := by
  have hall : ∀ b ∈ text, decide (b ≠ 0) = true := by
    intro b hb
    simpa using ne_of_mem_of_not_mem hb hzero
  have htake : i.rest.takeWhile (· ≠ 0) = text := by
    rw [h, List.takeWhile_append_of_pos hall]
    simp
  have hended : literalSize i.rest ≤ i.rest.length := by
    rw [literalSize_le_length_iff]
    simp [h]
  rw [literal_eq, if_pos hended, literalSize, htake]

theorem literal_of_unended {i : Image} (h : 0 ∉ i.rest) :
    ∃ j, literal i = .error (pastEnd (i.cursor + i.rest.length)) j := by
  rw [literal_eq, if_neg (by rwa [literalSize_le_length_iff])]
  exact ⟨_, rfl⟩

end LavMachine.Image
