import Mathlib
import LavMachine.Proofs.Agreement
import LavMachine.Proofs.Memory.Shape
set_option autoImplicit false

namespace LavMachine.Memory

theorem install_eq_ok {m n : Memory} {base slot : Nat} (h : install base slot m = .ok () n) :
    m.mappingLimit ⟨base, slot⟩ ≤ addressSpace ∧
    (∀ w ∈ m.mappings, ¬ rangesOverlap base (m.mappingLimit ⟨base, slot⟩) w.base
      (m.mappingLimit w)) ∧
    ¬ rangesOverlap base (m.mappingLimit ⟨base, slot⟩) m.pool.base m.pool.limit ∧
    n = { m with mappings := m.mappings ++ [⟨base, slot⟩] } := by
  simp only [install] at h
  split at h
  · simp at h
  · rename_i hlimit
    split at h
    · simp at h
    · rename_i hfree
      simp only [Bool.or_eq_true, List.any_eq_true, not_or, not_exists, not_and] at hfree
      exact ⟨by omega, hfree.1, hfree.2, by simpa using h.symm⟩

theorem installAll_nil_eq_ok {m n : Memory} (h : installAll [] m = .ok () n) : n = m := by
  cases h
  rfl

theorem installAll_cons_eq_ok {m n : Memory} {w : Mapping} {rest : List Mapping}
    (h : installAll (w :: rest) m = .ok () n) :
    ∃ k, install w.base w.slot m = .ok () k ∧ installAll rest k = .ok () n := by
  obtain ⟨_, k, hw, hrest⟩ := bind_eq_ok h
  exact ⟨k, hw, hrest⟩

theorem mappings_installAll {m n : Memory} {windows : List Mapping}
    (h : installAll windows m = .ok () n) :
    n = { m with mappings := m.mappings ++ windows } := by
  induction windows generalizing m with
  | nil =>
    obtain rfl := installAll_nil_eq_ok h
    simp
  | cons w rest ih =>
    obtain ⟨k, hw, hrest⟩ := installAll_cons_eq_ok h
    obtain ⟨_, _, _, rfl⟩ := install_eq_ok hw
    rw [ih hrest]
    simp

/-- Mapped windows end inside the address space and overlap neither each other nor the pool. -/
structure Placed (m : Memory) : Prop where
  within : ∀ w ∈ m.mappings, m.mappingLimit w ≤ addressSpace
  disjoint : m.mappings.Pairwise fun v w =>
    ¬ rangesOverlap v.base (m.mappingLimit v) w.base (m.mappingLimit w)
  apart : ∀ w ∈ m.mappings, ¬ rangesOverlap w.base (m.mappingLimit w) m.pool.base m.pool.limit

theorem Placed.congr {m n : Memory} (h : m.shape = n.shape) (hm : m.Placed) : n.Placed := by
  have hmap : m.mappings = n.mappings := congrArg Shape.mappings h
  have hbase : m.pool.base = n.pool.base := congrArg Shape.poolBase h
  have hsize : m.pool.capacity = n.pool.capacity := congrArg Shape.poolSize h
  have hlimit := mappingLimit_congr h
  obtain ⟨hwithin, hdisjoint, hapart⟩ := hm
  simp only [Pool.limit, hmap, hbase, hsize, hlimit] at hwithin hdisjoint hapart
  exact ⟨hwithin, hdisjoint, hapart⟩

theorem rangesOverlap_comm (start limit start' limit' : Nat) :
    rangesOverlap start limit start' limit' = rangesOverlap start' limit' start limit :=
  Bool.and_comm _ _

theorem placed_blank (pool : Pool) (bank : Array Window) : (blank pool bank).Placed :=
  ⟨by simp [blank], by simp [blank], by simp [blank]⟩

theorem Placed.install {m n : Memory} {base slot : Nat} (hm : m.Placed)
    (h : install base slot m = .ok () n) :
    n.Placed := by
  obtain ⟨hlimit, hfree, hpool, rfl⟩ := install_eq_ok h
  refine ⟨?_, ?_, ?_⟩
  · intro w hw
    rcases List.mem_append.1 hw with hw | hw
    · exact hm.within w hw
    · rw [List.mem_singleton.1 hw]
      exact hlimit
  · refine List.pairwise_append.2 ⟨hm.disjoint, List.pairwise_singleton _ _, ?_⟩
    intro v hv w hw
    rw [List.mem_singleton.1 hw, rangesOverlap_comm]
    exact hfree v hv
  · intro w hw
    rcases List.mem_append.1 hw with hw | hw
    · exact hm.apart w hw
    · rw [List.mem_singleton.1 hw]
      exact hpool

theorem Placed.installAll {m n : Memory} {windows : List Mapping} (hm : m.Placed)
    (h : installAll windows m = .ok () n) : n.Placed := by
  induction windows generalizing m with
  | nil =>
    obtain rfl := installAll_nil_eq_ok h
    exact hm
  | cons w rest ih =>
    obtain ⟨k, hw, hrest⟩ := installAll_cons_eq_ok h
    exact ih (hm.install hw) hrest

end LavMachine.Memory
