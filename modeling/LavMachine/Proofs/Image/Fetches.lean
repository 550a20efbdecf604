import Mathlib
import LavMachine.Proofs.Image
set_option autoImplicit false

namespace LavMachine

namespace Bytes

theorem toNat_eq_sum (bytes : Bytes) :
    bytes.toNat = ∑ k ∈ Finset.range bytes.length, (bytes.getD k 0).toNat * 256 ^ k := by
  induction bytes with
  | nil => rfl
  | cons b rest ih =>
    rw [List.length_cons, Finset.sum_range_succ', toNat, ih, Finset.mul_sum, Nat.add_comm]
    congr 1
    · refine Finset.sum_congr rfl fun k _ => ?_
      rw [List.getD_cons_succ, Nat.pow_succ]
      ring
    · simp

theorem toNat_lt (bytes : Bytes) : bytes.toNat < 256 ^ bytes.length := by
  induction bytes with
  | nil => exact Nat.one_pos
  | cons b rest ih =>
    have hb := b.toNat_lt
    rw [toNat, List.length_cons, Nat.pow_succ]
    omega

theorem ofNat_toNat (bytes : Bytes) : ofNat bytes.length bytes.toNat = bytes := by
  induction bytes with
  | nil => rfl
  | cons b rest ih =>
    have hb := b.toNat_lt
    have hlow : UInt8.ofNat (b.toNat + 256 * toNat rest) = b := by
      rw [← UInt8.toNat_inj, UInt8.toNat_ofNat']
      omega
    have hhigh : (b.toNat + 256 * toNat rest) / 256 = toNat rest := by omega
    rw [List.length_cons, toNat, ofNat, hlow, hhigh, ih]

theorem eq_takeWhile_append_of_mem {bytes : Bytes} (h : 0 ∈ bytes) :
    ∃ tail, bytes = bytes.takeWhile (· ≠ 0) ++ 0 :: tail := by
  induction bytes with
  | nil => cases h
  | cons b rest ih =>
    by_cases hb : b = 0
    · exact ⟨rest, by simp [hb]⟩
    · obtain ⟨tail, htail⟩ := ih (List.mem_of_ne_of_mem (Ne.symm hb) h)
      refine ⟨tail, ?_⟩
      rw [List.takeWhile_cons_of_pos (by simpa using hb), List.cons_append, ← htail]

end Bytes

namespace Image

theorem rest_of_int16 {i j : Image} {k : Int16} (h : int16 i = .ok k j) :
    ∃ tail, i.rest = Bytes.ofNat 2 k.toUInt16.toNat ++ tail := by
  rw [reads_int16 i] at h
  split at h
  · rename_i hle
    cases h
    have hlength : (i.rest.take 2).length = 2 := by simpa using hle
    have hlt := Bytes.toNat_lt (i.rest.take 2)
    have hcode := Bytes.ofNat_toNat (i.rest.take 2)
    rw [hlength] at hlt hcode
    have hnumber : (Int16.ofNat (Bytes.toNat (i.rest.take 2))).toUInt16.toNat =
        Bytes.toNat (i.rest.take 2) := by
      rw [Int16.toUInt16_ofNat', UInt16.toNat_ofNat']
      omega
    exact ⟨i.rest.drop 2, by rw [hnumber, hcode, List.take_append_drop]⟩
  · cases h

theorem rest_of_literal {i j : Image} {text : Bytes} (h : literal i = .ok text j) :
    ∃ tail, i.rest = text ++ 0 :: tail := by
  rw [literal_eq] at h
  split at h
  · rename_i hended
    cases h
    exact Bytes.eq_takeWhile_append_of_mem ((literalSize_le_length_iff _).1 hended)
  · cases h

inductive Number where
  | byte
  | int16
  | target
  | int32

namespace Number

def width : Number → Nat
  | .byte => 1
  | .int16 => 2
  | .target => 3
  | .int32 => 4

def signed : Number → Bool
  | .byte | .target => false
  | .int16 | .int32 => true

def interpret (n : Number) (digits : Nat) : Int :=
  if n.signed then Int.bmod digits (256 ^ n.width) else digits

/-- The number in the bytes from `offset` on, the lowest first. -/
def value (n : Number) (bytes : Array UInt8) (offset : Nat) : Int :=
  n.interpret (∑ k ∈ Finset.range n.width, (bytes.getD (offset + k) 0).toNat * 256 ^ k)

def range (n : Number) : Set Int :=
  if n.signed then Set.Ico (-(256 ^ n.width / 2)) (256 ^ n.width / 2) else Set.Ico 0 (256 ^ n.width)

def code (n : Number) (v : Int) : Bytes := Bytes.ofNat n.width (v % 256 ^ n.width).toNat

def fetch : Number → Fetch Int
  | .byte => return (← Image.byte).toNat
  | .int16 => return (← Image.int16).toInt
  | .target => return (← Image.target : Nat)
  | .int32 => return (← Image.int32).toInt

theorem interpret_of_mem_range {n : Number} {v : Int} (h : v ∈ n.range) :
    n.interpret (v % 256 ^ n.width).toNat = v := by
  cases n <;> simp [range, interpret, signed, width, Int.bmod] at h ⊢ <;> omega

end Number

theorem Reads.congr {α : Type} {n : Nat} {f : Fetch α} {value value' : Bytes → α}
    (h : Reads n f value) (heq : ∀ bytes : Bytes, bytes.length = n → value bytes = value' bytes) :
    Reads n f value' := by
  intro i
  rw [h i]
  split
  · rename_i hle
    rw [heq _ (List.length_take_of_le hle)]
  · rfl

theorem reads_fetch (n : Number) : Reads n.width n.fetch fun bytes => n.interpret bytes.toNat := by
  cases n with
  | byte =>
    refine (reads_byte.map fun b => (b.toNat : Int)).congr fun bytes hone => ?_
    obtain ⟨b, rfl⟩ := List.length_eq_one_iff.1 hone
    simp [Number.interpret, Number.signed, Bytes.toNat]
  | int16 =>
    refine (reads_int16.map Int16.toInt).congr fun bytes _ => ?_
    have hsize : Int16.size = 256 ^ 2 := by decide
    simp only [Function.comp, Int16.toInt_ofNat', hsize, Number.interpret, Number.signed,
      Number.width, if_true]
  | target => exact reads_target.map Nat.cast
  | int32 =>
    refine (reads_int32.map Int32.toInt).congr fun bytes _ => ?_
    have hsize : Int32.size = 256 ^ 4 := by decide
    simp only [Function.comp, Int32.toInt_ofNat', hsize, Number.interpret, Number.signed,
      Number.width, if_true]

variable {i : Image}

theorem getElem?_rest (i : Image) (k : Nat) : i.rest[k]? = i.bytes[i.cursor + k]? := by simp [rest]

theorem fetch_eq (i : Image) (n : Number) : n.fetch i =
    if i.cursor + n.width ≤ i.bytes.size then .ok (n.value i.bytes i.cursor) (i.skip n.width)
    else .error (pastEnd i.cursor) i := by
  have hlength := i.length_rest
  have hpos : 0 < n.width := by cases n <;> decide
  rw [reads_fetch n i]
  by_cases hle : n.width ≤ i.rest.length
  · have hsum : Bytes.toNat (i.rest.take n.width) =
        ∑ k ∈ Finset.range n.width, (i.bytes.getD (i.cursor + k) 0).toNat * 256 ^ k := by
      rw [Bytes.toNat_eq_sum, List.length_take_of_le hle]
      refine Finset.sum_congr rfl fun k hk => ?_
      rw [List.getD_eq_getElem?_getD, List.getElem?_take_of_lt (Finset.mem_range.1 hk),
        getElem?_rest, Array.getD_eq_getD_getElem?]
    rw [if_pos hle, if_pos (by omega), Number.value, ← hsum]
  · rw [if_neg hle, if_neg (by omega)]

theorem fetch_of_code {n : Number} {v : Int} (hv : v ∈ n.range)
    (hcode : (i.bytes.extract i.cursor (i.cursor + n.width)).toList = n.code v) :
    n.fetch i = .ok v (i.skip n.width) := by
  have htake : i.rest.take n.width = n.code v := by rw [← hcode, rest]; simp
  have hle : n.width ≤ i.rest.length := by
    have hlength := congrArg List.length htake
    rw [List.length_take, Number.code, Bytes.length_ofNat] at hlength
    omega
  have hdigits : Bytes.toNat (n.code v) = (v % 256 ^ n.width).toNat := by
    have hpos : (0 : Int) < 256 ^ n.width := by positivity
    have hlow := Int.emod_nonneg v hpos.ne'
    have hhigh := Int.emod_lt_of_pos v hpos
    rw [Number.code, Bytes.toNat_ofNat]
    refine Nat.mod_eq_of_lt ((Int.toNat_lt hlow).2 ?_)
    exact_mod_cast hhigh
  rw [reads_fetch n i, if_pos hle, htake]
  simp only [hdigits, Number.interpret_of_mem_range hv]

/-- `first` is the offset of the first zero at or behind `offset`. -/
structure FirstZero (bytes : Array UInt8) (offset first : Nat) : Prop where
  le : offset ≤ first
  is_zero : bytes[first]? = some 0
  before {k : Nat} : offset ≤ k → k < first → bytes[k]? ≠ some 0

theorem exists_firstZero {bytes : Array UInt8} {offset k : Nat} (hle : offset ≤ k)
    (hzero : bytes[k]? = some 0) :
    ∃ first, FirstZero bytes offset first := by
  have hex : ∃ k, offset ≤ k ∧ bytes[k]? = some 0 := ⟨k, hle, hzero⟩
  obtain ⟨hfirst, his⟩ := Nat.find_spec hex
  exact ⟨Nat.find hex, hfirst, his, fun hk hlt h => Nat.find_min hex hlt ⟨hk, h⟩⟩

theorem literal_of_firstZero {first : Nat} (h : FirstZero i.bytes i.cursor first) :
    literal i = .ok (i.bytes.extract i.cursor first).toList { i with cursor := first + 1 } := by
  obtain ⟨n, rfl⟩ := Nat.exists_eq_add_of_le h.le
  have hzero : i.rest[n]? = some 0 := by rw [getElem?_rest, h.is_zero]
  obtain ⟨hn, hget⟩ := List.getElem?_eq_some_iff.1 hzero
  have hlength : (i.rest.take n).length = n := List.length_take_of_le hn.le
  have hsplit : i.rest = i.rest.take n ++ 0 :: i.rest.drop (n + 1) := by
    rw [← hget, ← List.drop_eq_getElem_cons hn, List.take_append_drop]
  have hbefore : 0 ∉ i.rest.take n := by
    intro hmem
    obtain ⟨k, hk⟩ := List.mem_iff_getElem?.1 hmem
    have hlt : k < n := by
      have := (List.getElem?_eq_some_iff.1 hk).1
      omega
    rw [List.getElem?_take_of_lt hlt, getElem?_rest] at hk
    exact h.before (Nat.le_add_right _ _) (Nat.add_lt_add_left hlt _) hk
  have htext : (i.bytes.extract i.cursor (i.cursor + n)).toList = i.rest.take n := by simp [rest]
  rw [literal_of_ended hsplit hbefore, htext, hlength]
  rfl

theorem literal_of_no_zero (h : ∀ k, i.cursor ≤ k → i.bytes[k]? ≠ some 0) :
    literal i = .error (pastEnd (max i.cursor i.bytes.size))
      { i with cursor := max i.cursor i.bytes.size } := by
  have hnone : 0 ∉ i.rest := by
    intro hmem
    obtain ⟨k, hk⟩ := List.mem_iff_getElem?.1 hmem
    exact h (i.cursor + k) (Nat.le_add_right _ _) (by rw [← getElem?_rest, hk])
  have hend : i.cursor + i.rest.length = max i.cursor i.bytes.size := by
    rw [length_rest]
    omega
  rw [literal_eq, if_neg (by rwa [literalSize_le_length_iff]), skip, hend]

inductive Move where
  | number (n : Number)
  | literal
  | jump (offset : Nat)

def reached {α : Type} : EStateM.Result Fault Image α → Image
  | .ok _ i | .error _ i => i

def obey (i : Image) : Move → Image
  | .number n => reached (n.fetch i)
  | .literal => reached (Image.literal i)
  | .jump offset => reached (Image.jump offset i)

def obeyAll (i : Image) (moves : List Move) : Image := moves.foldl obey i

theorem obey_eq (i : Image) (move : Move) :
    ∃ offset, i.obey move = { i with cursor := offset } := by
  cases move with
  | number n =>
    rw [obey, fetch_eq]
    split
    · exact ⟨_, rfl⟩
    · exact ⟨i.cursor, rfl⟩
  | literal =>
    rw [obey, literal_eq]
    split <;> exact ⟨_, rfl⟩
  | jump offset => exact ⟨offset, rfl⟩

theorem obeyAll_eq (i : Image) (moves : List Move) :
    ∃ offset, i.obeyAll moves = { i with cursor := offset } := by
  induction moves generalizing i with
  | nil => exact ⟨i.cursor, rfl⟩
  | cons move moves ih =>
    obtain ⟨offset, hmove⟩ := i.obey_eq move
    obtain ⟨offset', hmoves⟩ := ih { i with cursor := offset }
    exact ⟨offset', by rw [obeyAll, List.foldl_cons, hmove]; exact hmoves⟩

theorem eq_of_ofBytes {name : String} {bytes : Array UInt8} {i : Image}
    (h : ofBytes name bytes = .ok i) :
    i = ⟨name, bytes, headerSize⟩ := by
  unfold ofBytes at h
  split at h
  · cases h
  · dsimp only at h
    split at h
    · cases h
    · exact (Except.ok.inj h).symm

/-- Whatever has been fetched before and wherever a jump has led, the next fetch gives the bytes at
the cursor: a number if there are enough of them, a literal if a zero follows. -/
theorem fetches_read_bytes {name : String} {bytes : Array UInt8} {start : Image}
    (h : ofBytes name bytes = .ok start) (history : List Move) :
    let i := start.obeyAll history
    i.name = name ∧ i.bytes = bytes ∧
    (∀ n : Number, n.fetch i =
      if i.cursor + n.width ≤ bytes.size then
        .ok (n.value bytes i.cursor) { i with cursor := i.cursor + n.width }
      else .error { kind := .endOfImage, offset := some i.cursor } i) ∧
    (∀ (n : Number) (v : Int), v ∈ n.range →
      (bytes.extract i.cursor (i.cursor + n.width)).toList = n.code v →
      n.fetch i = .ok v { i with cursor := i.cursor + n.width }) ∧
    ((∃ text j, literal i = .ok text j) ↔ ∃ k, i.cursor ≤ k ∧ bytes[k]? = some 0) ∧
    (∀ first, FirstZero bytes i.cursor first →
      literal i = .ok (bytes.extract i.cursor first).toList { i with cursor := first + 1 }) ∧
    ((∀ k, i.cursor ≤ k → bytes[k]? ≠ some 0) →
      literal i = .error { kind := .endOfImage, offset := some (max i.cursor bytes.size) }
        { i with cursor := max i.cursor bytes.size }) := by
  obtain ⟨offset, hi⟩ := start.obeyAll_eq history
  rw [hi, eq_of_ofBytes h]
  intro i
  refine ⟨rfl, rfl, i.fetch_eq, fun n v hv hcode => fetch_of_code hv hcode, ⟨?_, ?_⟩,
    fun first hfirst => literal_of_firstZero hfirst, fun hnone => literal_of_no_zero hnone⟩
  · rintro ⟨text, j, hok⟩
    by_contra hnone
    have herror := literal_of_no_zero (i := i) fun k hk hzero => hnone ⟨k, hk, hzero⟩
    cases hok.symm.trans herror
  · rintro ⟨k, hk, hzero⟩
    obtain ⟨first, hfirst⟩ := exists_firstZero hk hzero
    exact ⟨_, _, literal_of_firstZero hfirst⟩

/-- A negative number that ends before the last byte of its image, a literal that never ends, and a
jump past the end. -/
theorem fetches_read_bytes_unended :
    let bytes : Array UInt8 :=
      #[0x4c, 0x41, 0x56, 0x12, 0, 0, 0, 0, 0, 0, 0, 0, 0, 0, 0, 0, 0xfe, 0xff, 0x41]
    let start : Image := ⟨"A", bytes, 16⟩
    ofBytes "A" bytes = .ok start ∧
      Number.int16.fetch start = .ok (-2) { start with cursor := 18 } ∧
      literal (start.obeyAll [.number .int16]) = .error (pastEnd 19) { start with cursor := 19 } ∧
      literal (start.obeyAll [.literal, .jump 40]) =
        .error (pastEnd 40) { start with cursor := 40 } := by
  intro bytes start
  have hstart : ofBytes "A" bytes = .ok start := by decide
  obtain ⟨-, -, -, hcode, -⟩ := fetches_read_bytes hstart []
  obtain ⟨-, -, -, -, -, -, hunended⟩ := fetches_read_bytes hstart [.number .int16]
  obtain ⟨-, -, -, -, -, -, hpast⟩ := fetches_read_bytes hstart [.literal, .jump 40]
  have hnone (k : Nat) (hk : 18 ≤ k) : bytes[k]? ≠ some 0 := by
    obtain rfl | hk := hk.eq_or_lt
    · decide
    · simp [Array.getElem?_eq_none (show bytes.size ≤ k from hk)]
  have hrange : -2 ∈ Number.int16.range := by simp [Number.range, Number.signed, Number.width]
  exact ⟨hstart, hcode .int16 (-2) hrange (by decide), hunended fun k hk => hnone k hk,
    hpast fun k hk => hnone k (le_trans (by decide) hk)⟩

end Image
end LavMachine
