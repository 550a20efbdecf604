import Mathlib
set_option autoImplicit false

/-!
Two runs of one computation. A computation respects a relation between states when, started in
related states, it gives the same answer or the same fault both times and ends in related states
again. The computations that respect a relation are closed under sequencing, so it is enough to look
at the primitive ones. Taken on the diagonal, where the states are equal and satisfy a predicate,
the same notion says that the computation keeps the predicate.
-/
namespace LavMachine

variable {ε σ α β : Type} {R : σ → σ → Prop}

theorem bind_eq_ok {x : EStateM ε σ α} {k : α → EStateM ε σ β} {s t : σ} {b : β}
    (h : (x >>= k) s = .ok b t) : ∃ a u, x s = .ok a u ∧ k a u = .ok b t := by
  simp only [Bind.bind, EStateM.bind] at h
  cases hx : x s with
  | ok a u => exact ⟨a, u, rfl, by rwa [hx] at h⟩
  | error e u => simp [hx] at h

theorem bind_of_ok {x : EStateM ε σ α} {k : α → EStateM ε σ β} {s t : σ} {a : α}
    (h : x s = .ok a t) :
    (x >>= k) s = k a t := by
  simp only [bind, EStateM.bind, h]

theorem bind_eq_error {x : EStateM ε σ α} {k : α → EStateM ε σ β} {s t : σ} {e : ε}
    (h : (x >>= k) s = .error e t) :
    x s = .error e t ∨ ∃ a u, x s = .ok a u ∧ k a u = .error e t := by
  simp only [Bind.bind, EStateM.bind] at h
  cases hx : x s with
  | ok a u => exact .inr ⟨a, u, rfl, by rwa [hx] at h⟩
  | error e' u => exact .inl (by simpa [hx] using h)

inductive Agree (R : σ → σ → Prop) : EStateM.Result ε σ α → EStateM.Result ε σ α → Prop where
  | ok {a : α} {s t : σ} : R s t → Agree R (.ok a s) (.ok a t)
  | error {e : ε} {s t : σ} : R s t → Agree R (.error e s) (.error e t)

def Respects (R : σ → σ → Prop) (x : EStateM ε σ α) : Prop := ∀ s t, R s t → Agree R (x s) (x t)

def Diagonal (I : σ → Prop) (s t : σ) : Prop := s = t ∧ I s

namespace Respects

theorem pure (a : α) : Respects R (Pure.pure a : EStateM ε σ α) := fun _ _ h => .ok h

theorem throw (e : ε) : Respects R (MonadExcept.throw e : EStateM ε σ α) := fun _ _ h => .error h

theorem of_ok {x : EStateM ε σ α} (hx : Respects R x) {s t s' : σ} {a : α} (h : R s t)
    (hs : x s = .ok a s') : ∃ t', x t = .ok a t' ∧ R s' t' := by
  have hst := hx s t h
  rw [hs] at hst
  cases ht : x t with
  | ok b t' =>
    rw [ht] at hst
    cases hst with
    | ok h' => exact ⟨t', rfl, h'⟩
  | error e t' => rw [ht] at hst; cases hst

theorem of_error {x : EStateM ε σ α} (hx : Respects R x) {s t s' : σ} {e : ε} (h : R s t)
    (hs : x s = .error e s') : ∃ t', x t = .error e t' ∧ R s' t' := by
  have hst := hx s t h
  rw [hs] at hst
  cases ht : x t with
  | ok b t' => rw [ht] at hst; cases hst
  | error e' t' =>
    rw [ht] at hst
    cases hst with
    | error h' => exact ⟨t', rfl, h'⟩

theorem bind {x : EStateM ε σ α} {k : α → EStateM ε σ β} (hx : Respects R x)
    (hk : ∀ a, Respects R (k a)) : Respects R (x >>= k) := by
  intro s t h
  simp only [Bind.bind, EStateM.bind]
  cases hs : x s with
  | ok a s' =>
    obtain ⟨t', ht, h'⟩ := hx.of_ok h hs
    rw [ht]
    exact hk a s' t' h'
  | error e s' =>
    obtain ⟨t', ht, h'⟩ := hx.of_error h hs
    rw [ht]
    exact .error h'

/-- What follows a look at the state has to be the same in related states. -/
theorem get {k : σ → EStateM ε σ α} (hsame : ∀ s t, R s t → k s = k t)
    (hk : ∀ s, Respects R (k s)) :
    Respects R (MonadState.get >>= k) := by
  intro s t h
  change Agree R (k s s) (k t t)
  rw [hsame s t h]
  exact hk t s t h

theorem modifyGet {f : σ → α × σ} (hf : ∀ s t, R s t → (f s).1 = (f t).1 ∧ R (f s).2 (f t).2) :
    Respects R (modifyGet f : EStateM ε σ α) := by
  intro s t h
  change Agree R (.ok (f s).1 (f s).2) (.ok (f t).1 (f t).2)
  obtain ⟨hfst, hsnd⟩ := hf s t h
  rw [hfst]
  exact .ok hsnd

theorem modify {f : σ → σ} (hf : ∀ s t, R s t → R (f s) (f t)) :
    Respects R (modify f : EStateM ε σ PUnit) := fun s t h => .ok (hf s t h)

theorem forM {f : α → EStateM ε σ PUnit} (hf : ∀ a, Respects R (f a)) (l : List α) :
    Respects R (l.forM f) := by
  induction l with
  | nil => exact pure _
  | cons a l ih => exact bind (hf a) fun _ => ih

theorem diagonal {I : σ → Prop} {x : EStateM ε σ α} (hx : ∀ s, I s → ∃ a t, x s = .ok a t ∧ I t) :
    Respects (Diagonal I) x := by
  rintro s _ ⟨rfl, hs⟩
  obtain ⟨a, t, ht, hI⟩ := hx s hs
  rw [ht]
  exact .ok ⟨rfl, hI⟩

end Respects
end LavMachine
