set_option autoImplicit false

/-!
Accesses by index. Each one says beside its value what had to be in range for it, and longer
computations gather these statements from their parts. Programs run on the values; that the
statements hold is proved.
-/
namespace LavMachine

structure Checked (α : Type) where
  value : α
  /-- Every index on the way to the value exists. -/
  inRange : Prop

namespace Checked

variable {α β : Type}

instance : Monad Checked where
  pure a := ⟨a, True⟩
  bind x f := ⟨(f x.value).value, x.inRange ∧ (f x.value).inRange⟩

@[simp] theorem value_pure (a : α) : (pure a : Checked α).value = a := rfl

@[simp] theorem inRange_pure (a : α) : (pure a : Checked α).inRange := trivial

@[simp] theorem value_bind (x : Checked α) (f : α → Checked β) :
    (x >>= f).value = (f x.value).value := rfl

@[simp] theorem inRange_bind (x : Checked α) (f : α → Checked β) :
    (x >>= f).inRange ↔ x.inRange ∧ (f x.value).inRange := .rfl

@[ext] theorem ext {x y : Checked α} (hvalue : x.value = y.value) (hrange : x.inRange ↔ y.inRange) :
    x = y := by
  cases x
  cases y
  simp_all

instance : LawfulMonad Checked := LawfulMonad.mk' Checked
  (fun _ => ext rfl (and_iff_left trivial))
  (fun _ _ => ext rfl (and_iff_right trivial))
  (fun _ _ _ => ext rfl and_assoc)

@[simp] theorem value_map (f : α → β) (x : Checked α) : (f <$> x).value = f x.value := rfl

@[simp] theorem inRange_map (f : α → β) (x : Checked α) : (f <$> x).inRange ↔ x.inRange :=
  and_iff_left trivial

theorem value_foldlM (f : β → α → Checked β) (l : List α) (b : β) :
    (l.foldlM f b).value = l.foldl (fun b a => (f b a).value) b := by
  induction l generalizing b with
  | nil => rfl
  | cons a l ih => exact ih (f b a).value

theorem inRange_mapM {f : α → Checked β} {l : List α} (h : ∀ a ∈ l, (f a).inRange) :
    (l.mapM f).inRange := by
  induction l with
  | nil => trivial
  | cons a l ih =>
    rw [List.mapM_cons]
    exact ⟨h a List.mem_cons_self, ih fun b hb => h b (List.mem_cons_of_mem a hb), trivial⟩

@[inline] def byteAt (bytes : Array UInt8) (i : Nat) : Checked UInt8 :=
  ⟨bytes.getD i 0, i < bytes.size⟩

@[inline] def setByte (bytes : Array UInt8) (i : Nat) (b : UInt8) : Checked (Array UInt8) :=
  ⟨bytes.setIfInBounds i b, i < bytes.size⟩

@[inline] def modifyByte (bytes : Array UInt8) (i : Nat) (f : UInt8 → UInt8) :
    Checked (Array UInt8) :=
  ⟨bytes.modify i f, i < bytes.size⟩

def slice (xs : Array α) (start count : Nat) : Checked (Array α) :=
  ⟨xs.extract start (start + count), start + count ≤ xs.size⟩

def first (xs : List α) (count : Nat) : Checked (List α) := ⟨xs.take count, count ≤ xs.length⟩

end Checked
end LavMachine
