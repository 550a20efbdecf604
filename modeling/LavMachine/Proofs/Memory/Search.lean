import Mathlib
import LavMachine.Proofs.Memory.Strings
set_option autoImplicit false

namespace LavMachine

namespace Bytes

/-- The lists agree before the place `k` and differ there, where zeros are read behind the end of a
list. -/
structure DifferAt (s t : Bytes) (k : Nat) : Prop where
  same : s.take k = t.take k
  ne : s.getD k 0 ≠ t.getD k 0

variable {s t : Bytes} {k : Nat}

theorem DifferAt.cons (h : DifferAt s t k) (v : UInt8) : DifferAt (v :: s) (v :: t) (k + 1) :=
  ⟨by simp [h.same], by simpa using h.ne⟩

theorem DifferAt.lt (h : DifferAt s t k) (hlt : s.getD k 0 < t.getD k 0) : s < t := by
  have hsame := h.same
  induction k generalizing s t with
  | zero =>
    cases t with
    | nil => simp at hlt
    | cons w t =>
      cases s with
      | nil => exact List.nil_lt_cons w t
      | cons v s => exact List.cons_lt_cons_iff.2 (.inl (by simpa using hlt))
  | succ k ih =>
    cases s with
    | nil =>
      cases t with
      | nil => simp at hlt
      | cons w t => simp at hsame
    | cons v s =>
      cases t with
      | nil => simp at hsame
      | cons w t =>
        simp only [List.take_succ_cons, List.cons.injEq] at hsame
        obtain ⟨rfl, hsame⟩ := hsame
        have htail : DifferAt s t k := ⟨hsame, by simpa using h.ne⟩
        exact List.cons_lt_cons_iff.2 (.inr ⟨rfl, ih htail (by simpa using hlt) hsame⟩)

end Bytes

namespace Memory

variable {P : Nat → Prop} {a r : Nat}

/-- What a search up from `a` for a place with `P` answers: the address of the first one, or 0. -/
inductive Finds (P : Nat → Prop) (a : Nat) : Nat → Prop where
  | found {k : Nat} : IsLeast {k | P k} k → Finds P a ((a + k) % addressSpace)
  | missed : (∀ k, ¬ P k) → Finds P a 0

namespace Finds

theorem here (h : P 0) : Finds P a (a % addressSpace) :=
  .found (k := 0) ⟨h, fun _ _ => Nat.zero_le _⟩

theorem next (hfirst : ¬ P 0) (h : Finds (fun k => P (k + 1)) (a + 1) r) : Finds P a r := by
  cases h with
  | @found k hk =>
    rw [Nat.add_assoc, Nat.add_comm 1 k]
    refine .found ⟨hk.1, fun j hj => ?_⟩
    cases j with
    | zero => exact absurd hj hfirst
    | succ j => exact Nat.succ_le_succ (hk.2 hj)
  | missed hnone =>
    refine .missed fun k hk => ?_
    cases k with
    | zero => exact hfirst hk
    | succ k => exact hnone k hk

theorem eq_of_isLeast {k : Nat} (h : Finds P a r) (hk : IsLeast {k | P k} k) :
    r = (a + k) % addressSpace := by
  cases h with
  | found hj => rw [hj.unique hk]
  | missed hnone => exact absurd hk.1 (hnone k)

theorem eq_zero (h : Finds P a r) (hnone : ∀ k, ¬ P k) : r = 0 := by
  cases h with
  | @found k hk => exact absurd hk.1 (hnone k)
  | missed _ => rfl

end Finds

theorem matchesAt_iff (m : Memory) (needle : Bytes) (a room : Nat) :
    m.matchesAt needle a room ↔ needle <+: m.readBlock a room := by
  induction needle generalizing a room with
  | nil => simp [matchesAt]
  | cons v rest ih =>
    cases room with
    | zero => simp [matchesAt, readBlock]
    | succ room =>
      rw [readBlock_succ, List.cons_prefix_cons, matchesAt, Bool.and_eq_true, beq_iff_eq, ih,
        eq_comm]

theorem finds_findStringFrom (m : Memory) (needle : Bytes) (a room : Nat) :
    Finds (fun k => k < room ∧ needle <+: (m.readBlock a room).drop k) a
      (m.findStringFrom needle a room) := by
  induction room generalizing a with
  | zero => exact .missed (by simp)
  | succ room ih =>
    rw [findStringFrom]
    by_cases hmatch : m.matchesAt needle a (room + 1)
    · rw [if_pos hmatch]
      exact .here ⟨room.succ_pos, (m.matchesAt_iff _ _ _).1 hmatch⟩
    · rw [if_neg hmatch]
      rw [matchesAt_iff] at hmatch
      refine .next (fun h => hmatch h.2) ?_
      simpa [readBlock_succ] using ih (a + 1)

/-- To look at the end of the text too makes a difference only where both texts are empty. -/
theorem isLeast_occurrence {text needle : Bytes} {k : Nat} (hsome : text ≠ [] ∨ needle ≠ [])
    (hk : IsLeast {k | k ≤ text.length ∧ needle <+: text.drop k} k) :
    IsLeast {k | k < text.length ∧ needle <+: text.drop k} k := by
  obtain ⟨⟨hle, hprefix⟩, hleast⟩ := hk
  refine ⟨⟨Nat.lt_of_le_of_ne hle ?_, hprefix⟩, fun j hj => hleast ⟨hj.1.le, hj.2⟩⟩
  rintro rfl
  have hneedle : needle = [] := by simpa using hprefix
  have hstart : text.length ≤ 0 := hleast ⟨Nat.zero_le _, by simp [hneedle]⟩
  have htext : text = [] := List.eq_nil_of_length_eq_zero (by omega)
  exact hsome.elim (· htext) (· hneedle)

/-- The search for a string finds its first occurrence, with one exception: the empty string is not
found in an empty string. -/
theorem findString_first (m : Memory) (a b : Nat) :
    let text := m.string a
    let needle := m.string b
    (text ≠ [] ∨ needle ≠ [] →
      (∀ k, IsLeast {k | k ≤ text.length ∧ needle <+: text.drop k} k →
        m.findString a b = (a + k) % addressSpace) ∧
      ((∀ k ≤ text.length, ¬ needle <+: text.drop k) → m.findString a b = 0)) ∧
    (text = [] → needle = [] → m.findString a b = 0) := by
  intro text needle
  have hfinds : Finds (fun k => k < text.length ∧ needle <+: text.drop k) a (m.findString a b) := by
    rw [show text.length = m.stringLength a from m.length_string a]
    exact m.finds_findStringFrom needle a (m.stringLength a)
  refine ⟨fun hsome =>
    ⟨fun k hk => hfinds.eq_of_isLeast (isLeast_occurrence hsome hk), fun hnone => ?_⟩,
      fun htext _ => ?_⟩
  · exact hfinds.eq_zero fun k hk => hnone k hk.1.le hk.2
  · exact hfinds.eq_zero (by simp [htext])

/-- The text runs over the end of the address space, from one window into another, and begins with a
false start. -/
theorem findString_first_wrapped :
    let m := { blank (Pool.empty 4096 16) #[#[97, 97], #[99, 97, 98, 0, 97, 98, 0]] with
      mappings := [⟨65534, 0⟩, ⟨0, 1⟩] : Memory }
    m.string 65534 = [97, 97, 99, 97, 98] ∧ m.string 4 = [97, 98] ∧ m.findString 65534 4 = 1 := by
  intro m
  have htext : m.string 65534 = [97, 97, 99, 97, 98] := by decide +kernel
  have hneedle : m.string 4 = [97, 98] := by decide +kernel
  obtain ⟨hfirst, -⟩ := findString_first m 65534 4
  rw [htext, hneedle] at hfirst
  refine ⟨htext, hneedle, (hfirst (.inl (by decide))).1 3 ⟨by decide, fun k hk => ?_⟩⟩
  by_contra hlt
  have hbefore : k = 0 ∨ k = 1 ∨ k = 2 := by omega
  rcases hbefore with rfl | rfl | rfl <;> exact absurd hk (by decide)

theorem getByte_blank (base size : Nat) (bank : Array Window) (a : Nat) :
    (blank (Pool.empty base size) bank).getByte a = 0 := by
  rw [getByte_eq_contents]
  obtain ⟨w, hw, _⟩ | ⟨_, hc⟩ | hc := (blank (Pool.empty base size) bank).cell_cases a
  · simp [blank] at hw
  · rw [hc]
    simp only [contents, blank, Pool.empty, Array.getD_eq_getD_getElem?, Array.getElem?_replicate]
    split <;> rfl
  · rw [hc]
    simp [contents, blank, Vector.get_eq_getElem]

theorem string_blank (base size : Nat) (bank : Array Window) (a : Nat) :
    (blank (Pool.empty base size) bank).string a = [] :=
  string_of_bytes (fun i _ => getByte_blank base size bank (a + i)) List.not_mem_nil (by decide)

/-- The empty string stands at the start of every string, but the search does not find it in an
empty one. -/
theorem findString_both_empty :
    let m := blank (Pool.empty 4096 16) #[]
    IsLeast {k | k ≤ (m.string 8192).length ∧ m.string 8448 <+: (m.string 8192).drop k} 0 ∧
    m.findString 8192 8448 ≠ (8192 + 0) % addressSpace := by
  intro m
  have hlength : m.stringLength 8192 = 0 := by rw [← length_string, string_blank, List.length_nil]
  have hfound : m.findString 8192 8448 = 0 := by rw [findString, hlength, findStringFrom]
  refine ⟨⟨⟨Nat.zero_le _, by simp [m, string_blank]⟩, fun _ _ => Nat.zero_le _⟩, ?_⟩
  rw [hfound]
  decide

theorem finds_findCharFrom (m : Memory) (c : UInt8) (fuel a : Nat) :
    Finds (fun k => (m.spelling a fuel)[k]? = some c) a (m.findCharFrom c fuel a) := by
  induction fuel generalizing a with
  | zero => exact .missed (by simp [spelling])
  | succ fuel ih =>
    rw [spelling_succ, findCharFrom]
    by_cases hc : m.getByte a = c
    · simp only [hc, beq_self_eq_true, if_true]
      exact .here (by simp)
    · by_cases hzero : m.getByte a = 0
      · simp only [beq_iff_eq, if_neg hc, if_pos hzero]
        refine .missed fun k hk => hc ?_
        simpa using (List.getElem?_eq_some_iff.1 hk).2
      · simp only [beq_iff_eq, if_neg hc, if_neg hzero]
        exact .next (by simpa using hc) (by simpa using ih (a + 1))

theorem stringLength_lt_iff (m : Memory) (a : Nat) :
    m.stringLength a < addressSpace ↔ ∃ b < addressSpace, m.getByte b = 0 := by
  have hle : m.stringLength a ≤ addressSpace := by
    rw [stringLength, ← length_stringWithin]
    exact m.length_stringWithin_le a addressSpace
  constructor
  · intro h
    refine ⟨_, mod_addressSpace_lt (a + m.stringLength a), ?_⟩
    rw [m.getByte_eq_of_mod_eq (Nat.mod_mod _ _), getByte_stringLength h]
  · rintro ⟨b, _, hb⟩
    by_contra hlong
    -- A string of full length passes every address, that of the zero too.
    have hbyte : m.getByte (a + ahead a b) = 0 := by rw [m.getByte_eq_of_mod_eq (add_ahead a b), hb]
    apply m.zero_notMem_string a
    rw [string, Nat.le_antisymm hle (Nat.le_of_not_lt hlong), ← hbyte]
    exact List.mem_map.2 ⟨ahead a b, List.mem_range.2 (ahead_lt a b), rfl⟩

theorem spelling_addressSpace (m : Memory) (a : Nat) : m.spelling a addressSpace =
    m.string a ++ if ∃ b < addressSpace, m.getByte b = 0 then [0] else [] := by
  simp only [spelling, length_stringWithin, ← m.stringLength_lt_iff a]
  rfl

theorem isLeast_terminator (m : Memory) (a : Nat) :
    IsLeast {k | (m.string a ++ [0])[k]? = some 0} (m.stringLength a) := by
  rw [← length_string]
  refine ⟨by simp, fun k hk => ?_⟩
  by_contra hlt
  have hbyte : (m.string a)[k]? = some 0 := (List.getElem?_append_left (by omega)).symm.trans hk
  exact m.zero_notMem_string a (List.mem_of_getElem? hbyte)

theorem compareFrom_succ (m : Memory) (fuel a b : Nat) : m.compareFrom (fuel + 1) a b =
    if m.getByte a = m.getByte b ∧ m.getByte b ≠ 0 then m.compareFrom fuel (a + 1) (b + 1)
    else (m.getByte a).toNat - (m.getByte b).toNat := by
  rw [compareFrom]
  by_cases heq : m.getByte a = m.getByte b
  · by_cases hzero : m.getByte b = 0 <;> simp [heq, hzero]
  · simp [heq]

theorem getD_zero_stringWithin (m : Memory) (a fuel : Nat) :
    (m.stringWithin a (fuel + 1)).getD 0 0 = m.getByte a := by
  rw [stringWithin_succ]
  by_cases hzero : m.getByte a = 0
  · rw [if_pos hzero, hzero]
    rfl
  · rw [if_neg hzero]
    rfl

theorem compareFrom_cases (m : Memory) (fuel a b : Nat) :
    (m.stringWithin a fuel = m.stringWithin b fuel ∧ m.compareFrom fuel a b = 0) ∨
    ∃ k, Bytes.DifferAt (m.stringWithin a fuel) (m.stringWithin b fuel) k ∧ m.compareFrom fuel a b =
      ((m.stringWithin a fuel).getD k 0).toNat - ((m.stringWithin b fuel).getD k 0).toNat := by
  induction fuel generalizing a b with
  | zero => exact .inl ⟨rfl, rfl⟩
  | succ fuel ih =>
    rw [compareFrom_succ]
    by_cases heq : m.getByte a = m.getByte b
    · rw [stringWithin_succ, stringWithin_succ, heq]
      by_cases hzero : m.getByte b = 0
      · exact .inl (by simp [hzero])
      · rw [if_neg hzero, if_neg hzero, if_pos ⟨rfl, hzero⟩]
        obtain ⟨hsame, hdiff⟩ | ⟨k, hdiffer, hdiff⟩ := ih (a + 1) (b + 1)
        · exact .inl ⟨by rw [hsame], hdiff⟩
        · exact .inr ⟨k + 1, hdiffer.cons _, by simpa using hdiff⟩
    · -- Also where one of them is a terminator: a string that has ended reads as zero.
      refine .inr ⟨0, ⟨rfl, ?_⟩, ?_⟩
      · rwa [getD_zero_stringWithin, getD_zero_stringWithin]
      · rw [if_neg (fun h => heq h.1), getD_zero_stringWithin, getD_zero_stringWithin]

theorem compareFrom_swap (m : Memory) (fuel a b : Nat) :
    m.compareFrom fuel b a = -m.compareFrom fuel a b := by
  induction fuel generalizing a b with
  | zero => rfl
  | succ fuel ih =>
    rw [compareFrom_succ, compareFrom_succ]
    by_cases heq : m.getByte a = m.getByte b
    · rw [heq]
      by_cases hzero : m.getByte b = 0
      · simp [hzero]
      · rw [if_pos ⟨rfl, hzero⟩, if_pos ⟨rfl, hzero⟩, ih]
    · rw [if_neg (fun h => heq h.1.symm), if_neg (fun h => heq h.1), Int.neg_sub]

section

variable (m : Memory) (a b : Nat)

theorem compareStrings_cases :
    (m.string a = m.string b ∧ m.compareStrings a b = 0) ∨
    ∃ k, Bytes.DifferAt (m.string a) (m.string b) k ∧
      m.compareStrings a b = ((m.string a).getD k 0).toNat - ((m.string b).getD k 0).toNat :=
  m.compareFrom_cases addressSpace a b

theorem compareStrings_swap : m.compareStrings b a = -m.compareStrings a b :=
  m.compareFrom_swap addressSpace a b

theorem compareStrings_eq_zero_iff : m.compareStrings a b = 0 ↔ m.string a = m.string b := by
  obtain ⟨hsame, hdiff⟩ | ⟨k, hdiffer, hdiff⟩ := m.compareStrings_cases a b
  · simp [hsame, hdiff]
  · have hne : ((m.string a).getD k 0).toNat ≠ ((m.string b).getD k 0).toNat := fun h =>
      hdiffer.ne (UInt8.toNat_inj.1 h)
    constructor
    · intro h
      omega
    · intro h
      exact absurd (by rw [h]) hdiffer.ne

variable {m a b} in
theorem lt_of_compareStrings_neg (h : m.compareStrings a b < 0) : m.string a < m.string b := by
  obtain ⟨_, hdiff⟩ | ⟨k, hdiffer, hdiff⟩ := m.compareStrings_cases a b
  · omega
  · refine hdiffer.lt (UInt8.lt_iff_toNat_lt.2 ?_)
    omega

theorem compareStrings_neg_iff : m.compareStrings a b < 0 ↔ m.string a < m.string b := by
  refine ⟨lt_of_compareStrings_neg, fun hlt => ?_⟩
  have hne : m.compareStrings a b ≠ 0 := by
    rw [Ne, compareStrings_eq_zero_iff]
    intro hsame
    exact List.lt_irrefl _ (hsame ▸ hlt)
  have hnot : ¬ m.compareStrings b a < 0 :=
    fun hgt => List.lt_asymm hlt (lt_of_compareStrings_neg hgt)
  rw [compareStrings_swap] at hnot
  omega

theorem compareStrings_nonpos_iff : m.compareStrings a b ≤ 0 ↔ m.string a ≤ m.string b := by
  rw [← List.not_lt, ← compareStrings_neg_iff, compareStrings_swap]
  omega

end

theorem compareStrings_trans {m : Memory} {a b c : Nat} (hab : m.compareStrings a b ≤ 0)
    (hbc : m.compareStrings b c ≤ 0) : m.compareStrings a c ≤ 0 ∧
      (m.compareStrings a c = 0 → m.compareStrings a b = 0 ∧ m.compareStrings b c = 0) := by
  simp only [compareStrings_nonpos_iff, compareStrings_eq_zero_iff] at hab hbc ⊢
  refine ⟨List.le_trans hab hbc, fun hac => ?_⟩
  have hsame : m.string a = m.string b := List.le_antisymm hab (hac ▸ hbc)
  exact ⟨hsame, hsame ▸ hac⟩

/-- Comparing orders the strings of memory as lists of unsigned bytes, and a search for a byte finds
the first one, the terminator included. -/
theorem strings_compared_and_searched (m : Memory) :
    (∀ a b,
      (m.compareStrings a b = 0 ↔ m.string a = m.string b) ∧
      (m.compareStrings a b < 0 ↔ m.string a < m.string b) ∧
      (m.string a ≠ m.string b → ∃ k, Bytes.DifferAt (m.string a) (m.string b) k ∧
        m.compareStrings a b = ((m.string a).getD k 0).toNat - ((m.string b).getD k 0).toNat) ∧
      m.compareStrings b a = -m.compareStrings a b) ∧
    (∀ a b c, m.compareStrings a b ≤ 0 → m.compareStrings b c ≤ 0 →
      m.compareStrings a c ≤ 0 ∧
      (m.compareStrings a c = 0 → m.compareStrings a b = 0 ∧ m.compareStrings b c = 0)) ∧
    (∀ a c,
      let spelled := m.string a ++ if ∃ b < addressSpace, m.getByte b = 0 then [0] else []
      (∀ k, IsLeast {k | spelled[k]? = some c} k → m.findChar a c = (a + k) % addressSpace) ∧
      (c ∉ spelled → m.findChar a c = 0)) ∧
    ∀ a, (∃ b < addressSpace, m.getByte b = 0) →
      m.findChar a 0 = (a + m.stringLength a) % addressSpace ∧ m.getByte (m.findChar a 0) = 0 := by
  have hfinds (a : Nat) (c : UInt8) := m.finds_findCharFrom c addressSpace a
  simp only [spelling_addressSpace] at hfinds
  refine ⟨fun a b => ⟨m.compareStrings_eq_zero_iff a b, m.compareStrings_neg_iff a b, fun hne => ?_,
    m.compareStrings_swap a b⟩, fun a b c => compareStrings_trans,
    fun a c => ⟨fun k hk => ?_, fun hc => ?_⟩, fun a hzero => ?_⟩
  · exact (m.compareStrings_cases a b).resolve_left fun h => hne h.1
  · exact (hfinds a c).eq_of_isLeast hk
  · exact (hfinds a c).eq_zero fun k hk => hc (List.mem_of_getElem? hk)
  · have hend := hfinds a 0
    rw [if_pos hzero] at hend
    have hat : m.findChar a 0 = (a + m.stringLength a) % addressSpace :=
      hend.eq_of_isLeast (m.isLeast_terminator a)
    refine ⟨hat, ?_⟩
    rw [hat, m.getByte_eq_of_mod_eq (Nat.mod_mod _ _), stringLength, ← length_stringWithin]
    refine m.getByte_length_stringWithin a addressSpace ?_
    rw [length_stringWithin]
    exact (m.stringLength_lt_iff a).2 hzero

end Memory
end LavMachine
