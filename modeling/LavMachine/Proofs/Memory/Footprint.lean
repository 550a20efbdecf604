import Mathlib
import LavMachine.Proofs.Memory.Flat
set_option autoImplicit false

namespace LavMachine.Memory

variable {m n : Memory} {a b count : Nat}

theorem WritesIn.exists_of_ne {S : Nat → Prop} (hw : WritesIn S m n) (h : m.Unshared)
    (hb : n.getByte b ≠ m.getByte b) : ∃ a, S a ∧ b % addressSpace = a % addressSpace := by
  induction hw with
  | refl m => exact absurd rfl hb
  | @setByte m n a v ha _ ih =>
    by_cases hsame : b % addressSpace = a % addressSpace
    · exact ⟨a, ha, hsame⟩
    · refine ih (h.setByte a v) ?_
      rwa [getByte_setByte h, if_neg hsame]

theorem WritesIn.within_of_ne (hw : WritesIn (Within a count) m n) (h : m.Unshared)
    (hb : n.getByte b ≠ m.getByte b) : Within a count b := by
  obtain ⟨c, hc, hmod⟩ := hw.exists_of_ne h hb
  exact hc.congr hmod

theorem WritesIn.getByte_eq (hw : WritesIn (Within a count) m n) (h : m.Unshared)
    (hb : Outside a count b) :
    n.getByte b = m.getByte b := by
  by_contra hne
  obtain ⟨i, hi, hmod⟩ := hw.within_of_ne h hne
  exact hb i hi hmod

theorem lengthFrom_succ (m : Memory) (a fuel n : Nat) :
    m.lengthFrom a fuel (n + 1) = m.lengthFrom (a + 1) fuel n + 1 := by
  induction fuel generalizing n with
  | zero => rfl
  | succ fuel ih =>
    have hat : a + (n + 1) = a + 1 + n := by omega
    simp only [lengthFrom, hat, ih]
    split <;> rfl

/-- How many bytes a copy has written that the string at its destination now shows. -/
def copied (m : Memory) (dst fuel : Nat) : Nat := min (m.lengthFrom dst fuel 0 + 1) fuel

theorem writesIn_copyStringFrom (h : m.Unshared) (dst src : Nat) {fuel : Nat}
    (hfuel : fuel ≤ addressSpace) :
    WritesIn (Within dst ((copyStringFrom dst src fuel m).copied dst fuel)) m
      (copyStringFrom dst src fuel m) := by
  induction fuel generalizing m dst src with
  | zero => exact .refl m
  | succ fuel ih =>
    let next := m.setByte dst (m.getByte src)
    have hnext : next.getByte dst = m.getByte src := by rw [getByte_setByte h, if_pos rfl]
    simp only [copyStringFrom]
    by_cases hzero : m.getByte src == 0
    · have hlen : next.copied dst (fuel + 1) = 1 := by
        simp [copied, lengthFrom, hnext, beq_iff_eq.1 hzero]
      rw [if_pos hzero, hlen]
      exact .single (.head dst 0) m _
    · rw [if_neg hzero]
      let after := copyStringFrom (dst + 1) (src + 1) fuel next
      have hrest : WritesIn (Within (dst + 1) (after.copied (dst + 1) fuel)) next after :=
        ih (h.setByte dst (m.getByte src)) (dst + 1) (src + 1) (Nat.le_of_succ_le hfuel)
      -- What follows does not come round to the first byte again.
      have hfirst : after.getByte dst = m.getByte src := by
        by_contra hne
        obtain ⟨i, hi, hmod⟩ := hrest.within_of_ne (h.setByte _ _) (by rwa [hnext])
        have hle : after.copied (dst + 1) fuel ≤ fuel := Nat.min_le_right _ _
        simp only [addressSpace] at hmod hfuel
        omega
      have hlen : after.copied dst (fuel + 1) = after.copied (dst + 1) fuel + 1 := by
        have hstart :
            after.lengthFrom dst (fuel + 1) 0 = after.lengthFrom (dst + 1) fuel 0 + 1 := by
          rw [lengthFrom, Nat.add_zero, hfirst, if_neg hzero, lengthFrom_succ]
        rw [copied, copied, hstart]
        omega
      change WritesIn (Within dst (after.copied dst (fuel + 1))) m after
      rw [hlen]
      exact .cons hrest

theorem writesIn_copyString (h : m.Unshared) (dst src : Nat) :
    WritesIn (Within dst (min ((m.copyString dst src).stringLength dst + 1) addressSpace)) m
      (m.copyString dst src) :=
  writesIn_copyStringFrom h dst src (Nat.le_refl _)

theorem getByte_setOwnByte_of_ne {v : UInt8} (hb : (m.setOwnByte a v).getByte b ≠ m.getByte b) :
    b % addressSpace = a % addressSpace ∧ ∃ j, m.cell b = .own j := by
  rw [getByte_eq_contents, getByte_eq_contents, cell_congr (m.shape_setOwnByte a v)] at hb
  obtain ⟨w, _, _, hc⟩ | ⟨_, hc⟩ | hc := m.cell_cases b
  · simp [hc, contents, setOwnByte, window] at hb
  · simp [hc, contents, setOwnByte] at hb
  · refine ⟨?_, _, hc⟩
    by_contra hne
    have hindex : a % addressSpace ≠ b % addressSpace := Ne.symm hne
    simp [hc, contents, setOwnByte, Vector.get_eq_getElem, hindex] at hb

theorem covers_of_intern_ne {text : Bytes}
    (hb : { m with pool := (m.pool.intern text).2 : Memory }.getByte b ≠ m.getByte b) :
    m.pool.covers (b % addressSpace) := by
  rw [getByte_eq_contents, getByte_eq_contents, cell_congr (m.shape_intern text)] at hb
  obtain ⟨w, _, _, hc⟩ | ⟨hcovers, _⟩ | hc := m.cell_cases b
  · exact absurd rfl (hc ▸ hb)
  · exact hcovers
  · exact absurd rfl (hc ▸ hb)

end LavMachine.Memory
