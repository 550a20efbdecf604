import Mathlib
import LavMachine.Proofs.Machine.Lifecycle
set_option autoImplicit false

namespace LavMachine.Machine

variable {κ φ : Type}

def andThen (r : Outcome × Machine κ φ) (k : Machine κ φ → Outcome × Machine κ φ) :
    Outcome × Machine κ φ :=
  match r with
  | (.running, m) => k m
  | finished => finished

theorem andThen_of_ne {r : Outcome × Machine κ φ} (h : r.1 ≠ .running)
    (k : Machine κ φ → Outcome × Machine κ φ) : andThen r k = r := by
  obtain ⟨outcome, m⟩ := r
  cases outcome with
  | running => exact absurd rfl h
  | ended | fault | suspended => rfl

theorem andThen_running (r : Outcome × Machine κ φ) : andThen r (fun m => (.running, m)) = r := by
  obtain ⟨outcome, m⟩ := r
  cases outcome <;> rfl

variable [Keyboard κ] [Disk φ] {m : Machine κ φ}

theorem executeFrom_add (j k : Nat) (m : Machine κ φ) :
    m.executeFrom (j + k) = andThen (m.executeFrom j) (·.executeFrom k) := by
  induction j generalizing m with
  | zero =>
    rw [Nat.zero_add]
    rfl
  | succ j ih =>
    rw [Nat.add_right_comm]
    simp only [executeFrom]
    split
    · rfl
    · split
      · rfl
      · split
        · rfl
        · split
          · rfl
          · exact ih _

theorem phase_of_executeFrom {cycles : Nat} {n : Machine κ φ} (hphase : m.phase ≠ .ended)
    (h : m.executeFrom cycles = (.running, n)) : n.phase ≠ .ended := by
  induction cycles generalizing m with
  | zero =>
    obtain ⟨_, rfl⟩ := Prod.mk.inj h
    exact hphase
  | succ cycles ih =>
    have hcases := executeFrom_succ cycles m
    rw [h] at hcases
    generalize hr : (Outcome.running, n) = r at hcases
    cases hcases with
    | suspended | cancelled | failed | finished => cases hr
    | goesOn _ hnext => exact ih hnext hr.symm

theorem execute_add (j k : Nat) (m : Machine κ φ) :
    m.execute (j + k) = andThen (m.execute j) (·.execute k) := by
  by_cases hended : m.phase = .ended
  · rw [execute_of_ended hended, execute_of_ended hended]
    rfl
  · rw [execute_of_not_ended hended, execute_of_not_ended hended, executeFrom_add]
    cases hr : m.executeFrom j with
    | mk outcome n =>
      cases outcome with
      | running => exact (execute_of_not_ended (phase_of_executeFrom hended hr) k).symm
      | ended | fault | suspended => rfl

theorem execute_of_le {n k : Nat} (hstops : (m.execute n).1 ≠ .running) (hle : n ≤ k) :
    m.execute k = m.execute n := by
  obtain ⟨extra, rfl⟩ := Nat.exists_eq_add_of_le hle
  rw [execute_add, andThen_of_ne hstops]

theorem run_succ_eq (batch batches : Nat) (m : Machine κ φ) :
    m.run batch (batches + 1) = andThen (m.execute batch) (run batch batches) := by
  simp only [run]
  cases m.execute batch with
  | mk outcome n => cases outcome <;> rfl

/-- A loop over batches is one long batch. -/
theorem run_eq_execute (batch batches : Nat) (m : Machine κ φ) :
    m.run batch (batches + 1) = m.execute (batch * (batches + 1)) := by
  induction batches generalizing m with
  | zero => rw [run_succ_eq, Nat.zero_add, Nat.mul_one]; exact andThen_running _
  | succ batches ih =>
    have hrest : run batch (batches + 1) = fun n : Machine κ φ =>
        n.execute (batch * (batches + 1)) := funext ih
    have hsplit : batch * (batches + 1 + 1) = batch + batch * (batches + 1) := by
      rw [Nat.mul_succ, Nat.add_comm]
    rw [run_succ_eq, hrest, hsplit, execute_add]

def after (m : Machine κ φ) (k : Nat) : Machine κ φ := (fun n : Machine κ φ => n.step.2)^[k] m

/-- The next `k` steps succeed and the program has not ended before, between or after them. -/
def Runs (m : Machine κ φ) (k : Nat) : Prop :=
  m.phase ≠ .ended ∧ ∀ j < k, (m.after j).step.1 = .ok () ∧ (m.after (j + 1)).phase ≠ .ended

theorem Runs.succ {k : Nat} (hphase : m.phase ≠ .ended) (hok : m.step.1 = .ok ())
    (h : m.step.2.Runs k) :
    m.Runs (k + 1) := by
  refine ⟨hphase, fun j hj => ?_⟩
  cases j with
  | zero => exact ⟨hok, h.1⟩
  | succ j => exact h.2 j (by omega)

theorem after_add (m : Machine κ φ) (j k : Nat) : m.after (j + k) = (m.after j).after k := by
  rw [after, Nat.add_comm, Function.iterate_add_apply]
  rfl

theorem Runs.add {j k : Nat} (hj : m.Runs j) (hk : (m.after j).Runs k) : m.Runs (j + k) := by
  refine ⟨hj.1, fun l hl => ?_⟩
  obtain hlt | hle := Nat.lt_or_ge l j
  · exact hj.2 l hlt
  · obtain ⟨l, rfl⟩ := Nat.exists_eq_add_of_le hle
    rw [Nat.add_assoc, after_add, after_add]
    exact hk.2 l (by omega)

/-- Stepping until `n` steps are done, a step fails or the program ends. -/
inductive Stepped (n : Nat) (m : Machine κ φ) : Outcome × Machine κ φ → Prop where
  | already : m.phase = .ended → Stepped n m (.ended, m)
  | done : m.Runs n → Stepped n m (.running, m.after n)
  | failed {k : Nat} {f : Fault} : k < n → m.Runs k → (m.after k).step.1 = .error f →
    Stepped n m (.fault f, m.after (k + 1))
  | finished {k : Nat} :
    k < n → m.Runs k → (m.after k).step.1 = .ok () → (m.after (k + 1)).phase = .ended →
    Stepped n m (.ended, m.after (k + 1))

theorem Stepped.succ {n : Nat} {r : Outcome × Machine κ φ} (hphase : m.phase ≠ .ended)
    (hok : m.step.1 = .ok ()) (hnext : m.step.2.phase ≠ .ended) (h : m.step.2.Stepped n r) :
    m.Stepped (n + 1) r := by
  cases h with
  | already hended => exact absurd hended hnext
  | done hruns => exact .done (hruns.succ hphase hok)
  | failed hk hruns hfault => exact .failed (Nat.succ_lt_succ hk) (hruns.succ hphase hok) hfault
  | finished hk hruns hlast hended =>
    exact .finished (Nat.succ_lt_succ hk) (hruns.succ hphase hok) hlast hended

theorem stepped_executeFrom {n : Nat} (hphase : m.phase ≠ .ended)
    (hfree : ∀ k < n, m.Runs k → (m.after k).control = .running) :
    m.Stepped n (m.executeFrom n) := by
  induction n generalizing m with
  | zero => exact .done ⟨hphase, fun j hj => by omega⟩
  | succ n ih =>
    have hstart : m.Runs 0 := ⟨hphase, fun j hj => by omega⟩
    have hcontrol : m.control = .running := hfree 0 (Nat.succ_pos n) hstart
    have hcases := executeFrom_succ n m
    generalize m.executeFrom (n + 1) = r at hcases ⊢
    cases hcases with
    | suspended hpaused => simp [hcontrol, Control.isPaused] at hpaused
    | cancelled hcancelled => simp [hcontrol, Control.checkpoint] at hcancelled
    | failed hfault => exact .failed (Nat.succ_pos n) hstart hfault
    | finished hok hended => exact .finished (Nat.succ_pos n) hstart hok hended
    | goesOn hok hnext =>
      refine .succ hphase hok hnext (ih hnext fun k hk hruns => ?_)
      exact hfree (k + 1) (by omega) (hruns.succ hphase hok)

/-- Two batches make one. While the control lets it run, a batch does what single steps do. A loop
over batches, whatever their size, comes to where a long enough batch comes. -/
theorem batches_agree (m : Machine κ φ) :
    (∀ j k, m.execute (j + k) = andThen (m.execute j) (·.execute k)) ∧
    (∀ n, (∀ k < n, m.Runs k → (m.after k).control = .running) → m.Stepped n (m.execute n)) ∧
    (∀ n batch batches, (m.execute n).1 ≠ .running → 0 < batch → n < batches →
      m.run batch batches = m.execute n) := by
  refine ⟨fun j k => execute_add j k m, fun n hfree => ?_,
    fun n batch batches hstops hbatch hlt => ?_⟩
  · by_cases hended : m.phase = .ended
    · rw [execute_of_ended hended]
      exact .already hended
    · rw [execute_of_not_ended hended]
      exact stepped_executeFrom hended hfree
  · obtain ⟨batches, rfl⟩ := Nat.exists_eq_succ_of_ne_zero (Nat.ne_of_gt (Nat.zero_lt_of_lt hlt))
    rw [run_eq_execute]
    exact execute_of_le hstops (Nat.le_trans (Nat.le_of_lt hlt) (Nat.le_mul_of_pos_left _ hbatch))

/-- Two words are pushed and the program ends, on the last step of the second batch of two. -/
theorem batches_agree_ending :
    let m := bare #[1, 7, 0, 1, 8, 64] (Stack.empty 2)
    (m.execute 4).1 = .ended ∧ (m.execute 4).2.stack.toList = [7, 8] ∧ m.Stepped 4 (m.execute 4) ∧
      andThen (m.execute 2) (·.execute 2) = m.execute 4 ∧ m.run 2 5 = m.execute 4 ∧
      m.run 3 5 = m.execute 4 := by
  intro m
  have hended : (m.execute 4).1 = .ended := by decide +kernel
  have hfree : ∀ k < 4, m.Runs k → (m.after k).control = .running := by
    intro k hk _
    interval_cases k <;> decide +kernel
  have hstops : (m.execute 4).1 ≠ .running := by simp [hended]
  obtain ⟨hsplit, hsteps, hloop⟩ := batches_agree m
  exact ⟨hended, by decide +kernel, hsteps 4 hfree, (hsplit 2 2).symm,
    hloop 4 2 5 hstops (by decide) (by decide), hloop 4 3 5 hstops (by decide) (by decide)⟩

end LavMachine.Machine
