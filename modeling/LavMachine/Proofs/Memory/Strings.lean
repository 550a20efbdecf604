import Mathlib
import LavMachine.Proofs.Memory.Copy
set_option autoImplicit false

/-!
Strings in memory as lists. A scan that may look at `fuel` bytes sees the part of a string that lies
within them, and one pass over the address space sees the whole string. A string is copied byte by
byte while its end is not known yet; the result is that of writing the string as it was before,
unless the copy runs over the terminator it is looking for.
-/
namespace LavMachine

theorem Bytes.getD_concat_zero (text : Bytes) (i : Nat) :
    (text ++ [0]).getD i 0 = text.getD i 0 := by
  induction text generalizing i with
  | nil => cases i <;> simp
  | cons v rest ih =>
    cases i with
    | zero => rfl
    | succ i => simpa using ih i

theorem Bytes.getD_takeWhile (text : Bytes) {i : Nat} (h : i ≤ (text.takeWhile (· ≠ 0)).length) :
    text.getD i 0 = (text.takeWhile (· ≠ 0)).getD i 0 := by
  induction text generalizing i with
  | nil => rfl
  | cons v rest ih =>
    by_cases hv : v = 0
    · obtain rfl : i = 0 := by simpa [hv] using h
      simp [hv]
    · cases i with
      | zero => simp [hv]
      | succ i => simpa [hv] using ih (by simpa [hv] using h)

namespace Memory

variable {m n : Memory} {a b fuel : Nat} {text more : Bytes}

theorem length_readBlock (m : Memory) (a count : Nat) : (m.readBlock a count).length = count := by
  simp [readBlock]

theorem readBlock_succ (m : Memory) (a count : Nat) :
    m.readBlock a (count + 1) = m.getByte a :: m.readBlock (a + 1) count := by
  simp [readBlock, List.range_succ_eq_map, Nat.add_assoc, Nat.add_comm 1]

/-- The part of the string at `a` that lies within the next `fuel` bytes. -/
def stringWithin (m : Memory) (a fuel : Nat) : Bytes := m.readBlock a (m.lengthFrom a fuel 0)

theorem length_stringWithin (m : Memory) (a fuel : Nat) :
    (m.stringWithin a fuel).length = m.lengthFrom a fuel 0 :=
  length_readBlock _ _ _

theorem length_string (m : Memory) (a : Nat) : (m.string a).length = m.stringLength a :=
  length_readBlock _ _ _

@[simp] theorem stringWithin_zero (m : Memory) (a : Nat) : m.stringWithin a 0 = [] := rfl

theorem stringWithin_succ (m : Memory) (a fuel : Nat) :
    m.stringWithin a (fuel + 1) = if m.getByte a = 0 then []
      else m.getByte a :: m.stringWithin (a + 1) fuel := by
  by_cases hzero : m.getByte a = 0
  · simp [stringWithin, lengthFrom, hzero, readBlock]
  · simp [stringWithin, lengthFrom, hzero, lengthFrom_succ, readBlock_succ]

theorem zero_notMem_stringWithin (m : Memory) (a fuel : Nat) : 0 ∉ m.stringWithin a fuel := by
  induction fuel generalizing a with
  | zero => simp
  | succ fuel ih =>
    rw [stringWithin_succ]
    by_cases hzero : m.getByte a = 0
    · simp [hzero]
    · simp [hzero, Ne.symm hzero, ih]

theorem zero_notMem_string (m : Memory) (a : Nat) : 0 ∉ m.string a :=
  m.zero_notMem_stringWithin a addressSpace

theorem length_stringWithin_le (m : Memory) (a fuel : Nat) :
    (m.stringWithin a fuel).length ≤ fuel := by
  induction fuel generalizing a with
  | zero => simp
  | succ fuel ih =>
    rw [stringWithin_succ]
    split
    · simp
    · simpa using ih (a + 1)

theorem getByte_length_stringWithin (m : Memory) (a fuel : Nat)
    (h : (m.stringWithin a fuel).length < fuel) :
    m.getByte (a + (m.stringWithin a fuel).length) = 0 := by
  induction fuel generalizing a with
  | zero => simp at h
  | succ fuel ih =>
    rw [stringWithin_succ] at h ⊢
    by_cases hzero : m.getByte a = 0
    · simp [hzero]
    · rw [if_neg hzero, List.length_cons] at h ⊢
      rw [Nat.add_comm _ 1, ← Nat.add_assoc]
      exact ih (a + 1) (by omega)

theorem getByte_stringLength (h : m.stringLength a < addressSpace) :
    m.getByte (a + m.stringLength a) = 0 := by
  rw [stringLength, ← length_stringWithin] at h ⊢
  exact m.getByte_length_stringWithin a addressSpace h

theorem stringWithin_of_bytes (hbytes : ∀ i ≤ text.length, m.getByte (a + i) = text.getD i 0)
    (hzero : 0 ∉ text) (hfuel : text.length < fuel) : m.stringWithin a fuel = text := by
  induction text generalizing a fuel with
  | nil =>
    obtain ⟨fuel, rfl⟩ := Nat.exists_eq_add_one_of_ne_zero (Nat.ne_zero_of_lt hfuel)
    have hend : m.getByte a = 0 := hbytes 0 (Nat.le_refl 0)
    rw [stringWithin_succ, if_pos hend]
  | cons v rest ih =>
    obtain ⟨fuel, rfl⟩ := Nat.exists_eq_add_one_of_ne_zero (Nat.ne_zero_of_lt hfuel)
    simp only [List.length_cons, List.mem_cons, not_or] at hbytes hzero hfuel
    have hfirst : m.getByte a = v := hbytes 0 (Nat.zero_le _)
    have hnext (i : Nat) (hi : i ≤ rest.length) : m.getByte (a + 1 + i) = rest.getD i 0 := by
      rw [Nat.add_assoc, Nat.add_comm 1 i, hbytes (i + 1) (by omega), List.getD_cons_succ]
    rw [stringWithin_succ, hfirst, if_neg (Ne.symm hzero.1), ih hnext hzero.2 (by omega)]

theorem string_of_bytes (hbytes : ∀ i ≤ text.length, m.getByte (a + i) = text.getD i 0)
    (hzero : 0 ∉ text) (hlength : text.length < addressSpace) : m.string a = text :=
  stringWithin_of_bytes hbytes hzero hlength

theorem stringWithin_congr
    (h : ∀ i ≤ (m.stringWithin a fuel).length, n.getByte (a + i) = m.getByte (a + i)) :
    n.stringWithin a fuel = m.stringWithin a fuel := by
  induction fuel generalizing a with
  | zero => rfl
  | succ fuel ih =>
    have hfirst : n.getByte a = m.getByte a := h 0 (Nat.zero_le _)
    rw [stringWithin_succ n, stringWithin_succ m, hfirst]
    rw [stringWithin_succ] at h
    by_cases hzero : m.getByte a = 0
    · rw [if_pos hzero, if_pos hzero]
    · rw [if_neg hzero, List.length_cons] at h
      have hnext (i : Nat) (hi : i ≤ (m.stringWithin (a + 1) fuel).length) :
          n.getByte (a + 1 + i) = m.getByte (a + 1 + i) := by
        rw [Nat.add_assoc, Nat.add_comm 1 i]
        exact h (i + 1) (by omega)
      rw [if_neg hzero, if_neg hzero, ih hnext]

def spelling (m : Memory) (a fuel : Nat) : Bytes :=
  m.stringWithin a fuel ++ if (m.stringWithin a fuel).length < fuel then [0] else []

theorem spelling_succ (m : Memory) (a fuel : Nat) :
    m.spelling a (fuel + 1) = m.getByte a :: if m.getByte a = 0 then []
      else m.spelling (a + 1) fuel := by
  by_cases hzero : m.getByte a = 0 <;> simp [spelling, stringWithin_succ, hzero]

/-- The first write of a copy does not reach the rest of its source. -/
theorem stringWithin_setByte (h : m.Unshared) {dst src : Nat}
    (hgap : ahead src dst = 0 ∨ (m.stringWithin (src + 1) fuel).length + 1 < ahead src dst) :
    (m.setByte dst (m.getByte src)).stringWithin (src + 1) fuel =
      m.stringWithin (src + 1) fuel := by
  have hadd := add_ahead src dst
  have hlt := ahead_lt src dst
  rcases hgap with hgap | hgap
  · rw [hgap, Nat.add_zero] at hadd
    rw [m.getByte_eq_of_mod_eq hadd, setByte_getByte]
  · refine stringWithin_congr fun i hi => ?_
    have hne : (src + 1 + i) % addressSpace ≠ dst % addressSpace := by
      simp only [addressSpace] at hadd hlt ⊢
      omega
    rw [getByte_setByte h, if_neg hne]

theorem copyStringFrom_eq (h : m.Unshared) {dst src : Nat}
    (hgap : ahead src dst = 0 ∨ (m.stringWithin src fuel).length < ahead src dst) :
    copyStringFrom dst src fuel m = m.writeBlock dst (m.spelling src fuel) := by
  induction fuel generalizing m dst src with
  | zero => rfl
  | succ fuel ih =>
    rw [spelling_succ, copyStringFrom, writeBlock]
    by_cases hzero : m.getByte src = 0
    · simp [hzero, writeBlock]
    · -- What is still to be read has not been written, so the string may as well be read at once.
      rw [stringWithin_succ, if_neg hzero, List.length_cons] at hgap
      let next := m.setByte dst (m.getByte src)
      have hrest : next.stringWithin (src + 1) fuel = m.stringWithin (src + 1) fuel :=
        stringWithin_setByte h hgap
      have hgap' : ahead (src + 1) (dst + 1) = 0 ∨
          (next.stringWithin (src + 1) fuel).length < ahead (src + 1) (dst + 1) := by
        rw [hrest, ahead_succ]
        omega
      have hspelling : next.spelling (src + 1) fuel = m.spelling (src + 1) fuel := by
        rw [spelling, hrest, spelling]
      simp only [beq_iff_eq, if_neg hzero]
      rw [ih (h.setByte dst _) hgap', hspelling]

theorem string_writeBlock (h : m.Unshared) (hbytes : m.readBlock a text.length = text)
    (hzero : 0 ∉ text ++ more) (hlength : text.length + more.length < addressSpace) :
    (m.writeBlock (a + text.length) (more ++ [0])).string a = text ++ more := by
  have hsize : (more ++ [0]).length = more.length + 1 := List.length_append
  refine string_of_bytes (fun i hi => ?_) hzero (by simpa using hlength)
  rcases Nat.lt_or_ge i text.length with hlt | hge
  · -- The block does not come round to the text in front of it.
    have hout : Outside (a + text.length) (more ++ [0]).length (a + i) := by
      intro j hj
      simp only [addressSpace] at hlength ⊢
      omega
    have hbyte : m.getByte (a + i) = text[i] := by
      have hread : (m.readBlock a text.length)[i]? = text[i]? := by rw [hbytes]
      simpa [readBlock, hlt] using hread
    rw [getByte_writeBlock_of_outside h hout, hbyte, List.getD_append _ _ _ _ hlt,
      List.getD_eq_getElem _ _ hlt]
  · obtain ⟨j, rfl⟩ := Nat.exists_eq_add_of_le hge
    rw [List.length_append] at hi
    have hj : j < (more ++ [0]).length := by omega
    rw [← Nat.add_assoc, getByte_writeBlock h _ (by omega) hj, List.getD_append_right _ _ _ _ hge,
      Nat.add_sub_cancel_left, ← Bytes.getD_concat_zero, List.getD_eq_getElem _ _ hj]

theorem writeBlock_concat (m : Memory) (a : Nat) (text : Bytes) (v : UInt8) :
    m.writeBlock a (text ++ [v]) = (m.writeBlock a text).setByte (a + text.length) v := by
  induction text generalizing m a with
  | nil => rfl
  | cons b text ih =>
    simp only [List.cons_append, writeBlock, ih, List.length_cons]
    rw [Nat.add_assoc, Nat.add_comm 1]

/-- The bytes have come to stand at `a`, and nothing else has changed. -/
structure Receives (m : Memory) (a : Nat) (bytes : Bytes) (n : Memory) : Prop where
  byte (i : Nat) (hi : i < bytes.length) : n.getByte (a + i) = bytes[i]
  outside (b : Nat) : Outside a bytes.length b → n.getByte b = m.getByte b

theorem receives_writeBlock (h : m.Unshared) (a : Nat) {bytes : Bytes}
    (hlength : bytes.length ≤ addressSpace) :
    m.Receives a bytes (m.writeBlock a bytes) :=
  ⟨fun _ hi => getByte_writeBlock h a hlength hi, fun _ hb => getByte_writeBlock_of_outside h hb⟩

theorem Receives.string_eq (h : m.Receives a (text ++ [0]) n)
    (hlength : text.length < addressSpace) :
    n.string a = text.takeWhile (· ≠ 0) := by
  have hle : (text.takeWhile (· ≠ 0)).length ≤ text.length := (List.takeWhile_sublist _).length_le
  refine string_of_bytes (fun i hi => ?_) (fun hmem => ?_) (by omega)
  · have hsize : i < (text ++ [0]).length := by
      rw [List.length_append, List.length_singleton]
      omega
    rw [h.byte i hsize, ← List.getD_eq_getElem _ 0 hsize, Bytes.getD_concat_zero,
      Bytes.getD_takeWhile text hi]
  · simpa using List.mem_takeWhile_imp hmem

section

variable (h : m.Unshared) {dst src : Nat}

include h

theorem copyString_eq_writeBlock (hlength : m.stringLength src < addressSpace)
    (hgap : ahead src dst = 0 ∨ m.stringLength src < ahead src dst) :
    m.copyString dst src = m.writeBlock dst (m.string src ++ [0]) := by
  rw [stringLength, ← length_stringWithin] at hlength hgap
  rw [copyString, copyStringFrom_eq h hgap, spelling, if_pos hlength]
  rfl

theorem getByte_copyString_of_outside (hlength : m.stringLength src < addressSpace)
    (hgap : ahead src dst = 0 ∨ m.stringLength src < ahead src dst)
    (hb : Outside dst (m.stringLength src + 1) b) :
    (m.copyString dst src).getByte b = m.getByte b := by
  have hsize : (m.string src ++ [0]).length = m.stringLength src + 1 := by simp [length_string]
  rw [copyString_eq_writeBlock h hlength hgap, getByte_writeBlock_of_outside h (hsize ▸ hb)]

theorem string_copyString (hlength : m.stringLength src < addressSpace)
    (hgap : ahead src dst = 0 ∨ m.stringLength src < ahead src dst) :
    (m.copyString dst src).string dst = m.string src := by
  have hnil : m.readBlock dst ([] : Bytes).length = [] := rfl
  have hroom : ([] : Bytes).length + (m.string src).length < addressSpace := by
    simpa [length_string] using hlength
  have hzero : 0 ∉ [] ++ m.string src := m.zero_notMem_string src
  have hstring := string_writeBlock h hnil hzero hroom
  rwa [List.length_nil, Nat.add_zero, List.nil_append, ← copyString_eq_writeBlock h hlength hgap]
    at hstring

theorem string_appendString (hlength : m.stringLength dst + m.stringLength src < addressSpace)
    (hgap : ahead src (dst + m.stringLength dst) = 0 ∨
      m.stringLength src < ahead src (dst + m.stringLength dst)) :
    (m.appendString dst src).string dst = m.string dst ++ m.string src := by
  have hcopy := copyString_eq_writeBlock h (by omega) hgap
  have hread : m.readBlock dst (m.string dst).length = m.string dst := by
    rw [length_string]
    rfl
  have hzero : 0 ∉ m.string dst ++ m.string src := by simp [zero_notMem_string]
  rw [appendString, hcopy, ← length_string]
  refine string_writeBlock h hread hzero ?_
  rwa [length_string, length_string]

end

/-- Strings are copied and joined as lists are, and only the bytes of the copy and its terminator
change, as long as the copy does not come to the terminator of its source before it has read it. -/
theorem strings_copied_and_joined (h : m.Unshared) (dst src : Nat)
    (hsrc : m.stringLength src < addressSpace) :
    let size := m.stringLength src
    let tail := dst + m.stringLength dst
    (ahead src dst = 0 ∨ size < ahead src dst →
      (m.copyString dst src).string dst = m.string src ∧
      ∀ b, Outside dst (size + 1) b → (m.copyString dst src).getByte b = m.getByte b) ∧
    (m.stringLength dst + size < addressSpace → ahead src tail = 0 ∨ size < ahead src tail →
      (m.appendString dst src).string dst = m.string dst ++ m.string src ∧
      ∀ b, Outside tail (size + 1) b → (m.appendString dst src).getByte b = m.getByte b) := by
  intro size tail
  constructor
  · intro hgap
    exact ⟨string_copyString h hsrc hgap, fun b hb => getByte_copyString_of_outside h hsrc hgap hb⟩
  · intro hroom hgap
    exact ⟨string_appendString h hroom hgap,
      fun b hb => getByte_copyString_of_outside h hsrc hgap hb⟩

/-- The first string ends the address space, in a window of its own. The second one stands right
behind its terminator, and joining them moves it down by a byte. -/
theorem strings_copied_and_joined_across_windows :
    let m := { blank (Pool.empty 4096 16) #[#[102, 111, 111], #[0, 98, 97, 114, 0]] with
      mappings := [⟨65533, 0⟩, ⟨0, 1⟩] : Memory }
    m.Unshared ∧ m.string 65533 = [102, 111, 111] ∧ m.string 1 = [98, 97, 114] ∧
    (m.copyString 0 1).string 0 = [98, 97, 114] ∧
    (m.appendString 65533 1).string 65533 = [102, 111, 111, 98, 97, 114] := by
  intro m
  have hshare : m.Unshared := by simp [Unshared, m]
  have hdst : m.string 65533 = [102, 111, 111] := by decide +kernel
  have hsrc : m.string 1 = [98, 97, 114] := by decide +kernel
  have htail : m.stringLength 65533 = 3 := by simp [← length_string, hdst]
  have hsize : m.stringLength 1 = 3 := by simp [← length_string, hsrc]
  obtain ⟨hcopied, -⟩ := strings_copied_and_joined hshare 0 1 (by rw [hsize]; decide)
  obtain ⟨-, hjoined⟩ := strings_copied_and_joined hshare 65533 1 (by rw [hsize]; decide)
  rw [hsize] at hcopied hjoined
  rw [htail] at hjoined
  refine ⟨hshare, hdst, hsrc, ?_, ?_⟩
  · rw [(hcopied (by decide)).1, hsrc]
  · rw [(hjoined (by decide) (by decide)).1, hdst, hsrc]
    rfl

end Memory
end LavMachine
