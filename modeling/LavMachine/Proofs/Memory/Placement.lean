import Mathlib
import LavMachine.Proofs.Memory.Install
set_option autoImplicit false

namespace LavMachine.Memory

variable {m n : Memory} {windows : List Mapping} {v w : Mapping} {a : Nat}

instance (m : Memory) : Std.Symm fun v w : Mapping =>
    ¬ rangesOverlap v.base (m.mappingLimit v) w.base (m.mappingLimit w) where
  symm v w h := by rwa [rangesOverlap_comm]

theorem Placed.sublist (h : m.Placed) (hs : windows.Sublist m.mappings) :
    { m with mappings := windows }.Placed :=
  ⟨fun w hw => h.within w (hs.subset hw), h.disjoint.sublist hs,
    fun w hw => h.apart w (hs.subset hw)⟩

theorem Placed.perm (h : m.Placed) (hp : windows.Perm m.mappings) :
    { m with mappings := windows }.Placed := by
  refine ⟨fun w hw => h.within w (hp.subset hw), ?_, fun w hw => h.apart w (hp.subset hw)⟩
  refine (hp.pairwise_iff ?_).2 h.disjoint
  intro v w hvw
  rwa [rangesOverlap_comm]

theorem install_of_placed (h : { m with mappings := m.mappings ++ [w] }.Placed) :
    install w.base w.slot m = .ok () { m with mappings := m.mappings ++ [w] } := by
  have hlast : w ∈ m.mappings ++ [w] := by simp
  have hwithin : ¬ m.mappingLimit w > addressSpace := Nat.not_lt.2 (h.within w hlast)
  have hfree : m.mappings.any (fun v =>
      rangesOverlap w.base (m.mappingLimit w) v.base (m.mappingLimit v)) = false := by
    simp only [List.any_eq_false]
    intro v hv
    rw [rangesOverlap_comm]
    exact (List.pairwise_append.1 h.disjoint).2.2 v hv w (by simp)
  have hpool : rangesOverlap w.base (m.mappingLimit w) m.pool.base m.pool.limit = false :=
    Bool.eq_false_iff.2 (h.apart w hlast)
  simp [install, hwithin, hfree, hpool]

theorem installAll_cons {n : Memory} (hw : install w.base w.slot m = .ok () n) :
    installAll (w :: windows) m = installAll windows n := by
  change (install w.base w.slot >>= fun _ => installAll windows) m = installAll windows n
  simp only [bind, EStateM.bind, hw]

theorem installAll_of_placed (h : { m with mappings := m.mappings ++ windows }.Placed) :
    installAll windows m = .ok () { m with mappings := m.mappings ++ windows } := by
  induction windows generalizing m with
  | nil => simp [installAll, pure, EStateM.pure]
  | cons w rest ih =>
    have hassoc : m.mappings ++ w :: rest = m.mappings ++ [w] ++ rest := by simp
    rw [hassoc] at h ⊢
    have hfirst : install w.base w.slot m = .ok () _ := install_of_placed (h.sublist (by simp))
    have hrest := ih (m := { m with mappings := m.mappings ++ [w] }) h
    rw [installAll_cons hfirst, hrest]

/-- Windows can be mapped one after the other exactly if they are well placed together. -/
theorem installAll_iff (hm : m.Placed) :
    (∃ n, installAll windows m = .ok () n) ↔
    { m with mappings := m.mappings ++ windows }.Placed := by
  constructor
  · rintro ⟨n, hn⟩
    have hplaced := hm.installAll hn
    rwa [mappings_installAll hn] at hplaced
  · intro h
    exact ⟨_, installAll_of_placed h⟩

theorem rangesOverlap_of_mem {start limit start' limit' : Nat} (h : start ≤ a ∧ a < limit)
    (h' : start' ≤ a ∧ a < limit') : rangesOverlap start limit start' limit' := by
  simp [rangesOverlap]
  omega

theorem Placed.eq_of_inMapping (h : m.Placed) (hv : v ∈ m.mappings) (hw : w ∈ m.mappings)
    (hav : m.inMapping a v) (haw : m.inMapping a w) : v = w := by
  rw [inMapping_iff] at hav haw
  by_contra hne
  exact h.disjoint.forall hv hw hne (rangesOverlap_of_mem hav haw)

theorem Placed.not_covers (h : m.Placed) (hw : w ∈ m.mappings) (haw : m.inMapping a w) :
    ¬ m.pool.covers a := by
  intro hcovers
  rw [inMapping_iff] at haw
  rw [Pool.covers_iff] at hcovers
  exact h.apart w hw (rangesOverlap_of_mem haw hcovers)

theorem Placed.owners_le_one (h : m.Placed) (a : Nat) :
    m.mappings.countP (m.inMapping a) + (m.pool.covers a).toNat ≤ 1 := by
  have hone : m.mappings.countP (m.inMapping a) ≤ 1 := by
    have hpair := h.disjoint.filter (m.inMapping a)
    have hmem : ∀ w ∈ m.mappings.filter (m.inMapping a), m.inMapping a w :=
      fun w hw => (List.mem_filter.1 hw).2
    rw [List.countP_eq_length_filter]
    generalize m.mappings.filter (m.inMapping a) = owners at hpair hmem ⊢
    match owners with
    | [] | [_] => simp
    | v :: w :: rest =>
      have hv := (m.inMapping_iff a v).1 (hmem v (by simp))
      have hw := (m.inMapping_iff a w).1 (hmem w (by simp))
      exact absurd (rangesOverlap_of_mem hv hw) ((List.pairwise_cons.1 hpair).1 w (by simp))
  cases hcovers : m.pool.covers a with
  | false => simpa using hone
  | true =>
    have hnone : m.mappings.countP (m.inMapping a) = 0 := by
      rw [List.countP_eq_zero]
      intro w hw haw
      exact h.not_covers hw haw hcovers
    simp [hnone]

theorem Placed.find?_perm (h : m.Placed) (hp : windows.Perm m.mappings) (a : Nat) :
    windows.find? (m.inMapping a) = m.mappings.find? (m.inMapping a) := by
  apply List.find?_eq_find?_of_perm hp
  rintro v ⟨hv, hav⟩ w ⟨hw, haw⟩
  exact h.eq_of_inMapping (hp.subset hv) (hp.subset hw) hav haw

/-- Windows mapped in another order keep the byte at every address in the same place. -/
theorem Placed.cell_perm (h : m.Placed) (hp : windows.Perm m.mappings) (a : Nat) :
    { m with mappings := windows }.cell a = m.cell a := by
  have hin : { m with mappings := windows }.inMapping = m.inMapping := rfl
  simp only [cell, hin, h.find?_perm hp]

theorem getByte_of_cell (hcell : { m with mappings := windows }.cell a = m.cell a) :
    { m with mappings := windows }.getByte a = m.getByte a := by
  simp only [getByte_eq, hcell, window]

theorem setByte_of_cell (hcell : { m with mappings := windows }.cell a = m.cell a) (b : UInt8) :
    { m with mappings := windows }.setByte a b = { m.setByte a b with mappings := windows } := by
  simp only [setByte_eq, hcell]
  cases m.cell a <;> rfl

def attempt (m : Memory) (w : Mapping) : Memory :=
  match install w.base w.slot m with
  | .ok _ n | .error _ n => n

theorem install_eq_error {base slot : Nat} {e : Fault} (h : install base slot m = .error e n) :
    e.kind = .windowOverlap ∧ n = m := by
  simp only [install] at h
  split at h
  · cases h
    exact ⟨rfl, rfl⟩
  · split at h
    · cases h
      exact ⟨rfl, rfl⟩
    · cases h

theorem attempt_cases (m : Memory) (w : Mapping) :
    install w.base w.slot m = .ok () (m.attempt w) ∨ m.attempt w = m := by
  unfold attempt
  cases h : install w.base w.slot m with
  | ok _ n => exact .inl rfl
  | error e n => exact .inr (install_eq_error h).2

theorem installAll_concat (hm : installAll windows m = .ok () n) (w : Mapping) :
    installAll (windows ++ [w]) m = install w.base w.slot n := by
  induction windows generalizing m with
  | nil =>
    obtain rfl := installAll_nil_eq_ok hm
    change (install w.base w.slot >>= fun _ => pure ()) n = install w.base w.slot n
    rw [bind_pure_unit]
  | cons first windows ih =>
    obtain ⟨k, hfirst, hrest⟩ := installAll_cons_eq_ok hm
    rw [List.cons_append, installAll_cons hfirst, ih hrest]

/-- After some attempts memory is as if the windows that were refused had not been tried. -/
theorem installAll_accepted (start : Memory) (tried : List Mapping) :
    ∃ accepted, accepted.Sublist tried ∧
    installAll accepted start = .ok () (tried.foldl attempt start) := by
  induction tried using List.reverseRecOn with
  | nil => exact ⟨[], by simp, rfl⟩
  | append_singleton tried w ih =>
    obtain ⟨accepted, hsub, hall⟩ := ih
    rw [List.foldl_concat]
    obtain hok | hsame := attempt_cases (tried.foldl attempt start) w
    · exact ⟨accepted ++ [w], hsub.append (List.Sublist.refl _),
        (installAll_concat hall w).trans hok⟩
    · rw [hsame]
      exact ⟨accepted, hsub.trans (List.sublist_append_left _ _), hall⟩

/-- Reached by trying to map windows, while bytes, pool and region may change. -/
inductive Reached (start : Memory) : Memory → Prop where
  | start : Reached start start
  | attempt {m : Memory} (w : Mapping) : Reached start m → Reached start (m.attempt w)
  | change {m n : Memory} : Reached start m → n.shape = m.shape → Reached start n

theorem Reached.placed {start : Memory} (hstart : start.Placed) (h : Reached start m) :
    m.Placed := by
  induction h with
  | start => exact hstart
  | @attempt m w _ ih =>
    obtain hok | hsame := attempt_cases m w
    · exact ih.install hok
    · rwa [hsame]
  | change _ hshape ih => exact ih.congr hshape.symm

theorem mappingLimit_eq (h : w.base + (m.window w.slot).size < UInt64.size) :
    m.mappingLimit w = w.base + (m.window w.slot).size := Nat.mod_eq_of_lt h

/-- Where no range runs past the machine words, windows are well placed if the sums of bases and
sizes say so. -/
theorem placed_iff (hpool : m.pool.base + m.pool.capacity < UInt64.size)
    (hwindows : ∀ w ∈ m.mappings, w.base + (m.window w.slot).size < UInt64.size) :
    let limit := fun w : Mapping => w.base + (m.window w.slot).size
    m.Placed ↔ (∀ w ∈ m.mappings, limit w ≤ addressSpace) ∧
      (m.mappings.Pairwise fun v w => ¬ rangesOverlap v.base (limit v) w.base (limit w)) ∧
      ∀ w ∈ m.mappings,
      ¬ rangesOverlap w.base (limit w) m.pool.base (m.pool.base + m.pool.capacity) := by
  intro limit
  have hlimit : ∀ w ∈ m.mappings, m.mappingLimit w = limit w :=
    fun w hw => mappingLimit_eq (hwindows w hw)
  have hend : m.pool.limit = m.pool.base + m.pool.capacity := Nat.mod_eq_of_lt hpool
  have hpairs :
      (m.mappings.Pairwise fun v w =>
        ¬ rangesOverlap v.base (m.mappingLimit v) w.base (m.mappingLimit w)) ↔
      m.mappings.Pairwise fun v w => ¬ rangesOverlap v.base (limit v) w.base (limit w) :=
    List.Pairwise.iff_of_mem fun hv hw => by rw [hlimit _ hv, hlimit _ hw]
  constructor
  · rintro ⟨hwithin, hdisjoint, hapart⟩
    exact ⟨fun w hw => hlimit w hw ▸ hwithin w hw, hpairs.1 hdisjoint,
      fun w hw => hend ▸ hlimit w hw ▸ hapart w hw⟩
  · rintro ⟨hwithin, hdisjoint, hapart⟩
    refine ⟨fun w hw => ?_, hpairs.2 hdisjoint, fun w hw => ?_⟩
    · rw [hlimit w hw]
      exact hwithin w hw
    · rw [hlimit w hw, hend]
      exact hapart w hw

/-- Where no range ends past the machine words, windows can be mapped exactly if they lie inside the
address space and apart. Windows that can be mapped in one order can be in every order, and then
every address leads to the same place. A window that is refused leaves memory as it was, and no
address ever has two owners. -/
theorem windows_placed_any_order (pool : Pool) (bank : Array Window) (windows : List Mapping) :
    let start := blank pool bank
    let limit := fun w : Mapping => w.base + (bank.getD w.slot #[]).size
    (pool.base + pool.capacity < UInt64.size → (∀ w ∈ windows, limit w < UInt64.size) →
      ((∃ m, installAll windows start = .ok () m) ↔ (∀ w ∈ windows, limit w ≤ addressSpace) ∧
        (windows.Pairwise fun v w => ¬ rangesOverlap v.base (limit v) w.base (limit w)) ∧
        ∀ w ∈ windows, ¬ rangesOverlap w.base (limit w) pool.base (pool.base + pool.capacity))) ∧
    (∀ built other, installAll windows start = .ok () built → other.Perm windows →
      installAll other start = .ok () { built with mappings := other } ∧
      ∀ m : Memory, m.shape = built.shape → ∀ a,
        { m with mappings := other }.cell a = m.cell a ∧
        { m with mappings := other }.getByte a = m.getByte a ∧
        ∀ b, { m with mappings := other }.setByte a b = { m.setByte a b with mappings := other }) ∧
    (∀ m n : Memory, ∀ base slot e, install base slot m = .error e n →
      e.kind = .windowOverlap ∧ n = m) ∧
    (∃ accepted, accepted.Sublist windows ∧
      installAll accepted start = .ok () (windows.foldl attempt start)) ∧
    ∀ m, Reached start m →
    ∀ a, m.mappings.countP (m.inMapping a) + (m.pool.covers a).toNat ≤ 1 := by
  intro start limit
  have hstart : start.Placed := placed_blank pool bank
  refine ⟨fun hpool hwindows => ?_, fun built other hbuilt hp => ?_,
    fun _ _ _ _ _ herror => install_eq_error herror, installAll_accepted start windows,
    fun m hm => (hm.placed hstart).owners_le_one⟩
  · have hplaced := placed_iff (m := { start with mappings := windows }) hpool hwindows
    exact (installAll_iff hstart).trans hplaced
  have hplaced := hstart.installAll hbuilt
  have heq : built = { start with mappings := windows } := mappings_installAll hbuilt
  refine ⟨?_, fun m hshape a => ?_⟩
  · have hother : { start with mappings := other }.Placed :=
      ((installAll_iff hstart).1 ⟨built, hbuilt⟩).perm hp
    rw [heq]
    exact installAll_of_placed hother
  · have hmap : m.mappings = windows :=
      (congrArg Shape.mappings hshape).trans (congrArg mappings heq)
    have hcell := (hplaced.congr hshape.symm).cell_perm (hmap ▸ hp) a
    exact ⟨hcell, getByte_of_cell hcell, setByte_of_cell hcell⟩

/-- Three windows touch the pool, each other and the end of the address space, one of them empty.
Another would overlap the pool by a byte. -/
theorem windows_placed_any_order_touching :
    let start := blank (Pool.empty 4 4) #[#[0, 0], #[0, 0, 0], #[]]
    let windows : List Mapping := [⟨8, 0⟩, ⟨65533, 1⟩, ⟨8, 2⟩]
    let other : List Mapping := [⟨8, 2⟩, ⟨65533, 1⟩, ⟨8, 0⟩]
    let built := { start with mappings := windows }
    installAll windows start = .ok () built ∧
    installAll other start = .ok () { start with mappings := other } ∧
    { start with mappings := other }.cell 65545 = .window 0 1 ∧
    ∃ e, install 3 0 built = .error e built := by
  intro start windows other built
  obtain ⟨hplaced, horder, hrefused, _⟩ :=
    windows_placed_any_order (Pool.empty 4 4) #[#[0, 0], #[0, 0, 0], #[]] windows
  obtain ⟨m, hm⟩ := (hplaced (by decide) (by decide)).2 ⟨by decide, by decide, by decide⟩
  have hbuilt : installAll windows start = .ok () built := by rw [hm, mappings_installAll hm]; rfl
  obtain ⟨hother, hroute⟩ := horder built other hbuilt (by decide)
  obtain ⟨hcell, _⟩ := hroute built rfl 65545
  obtain ⟨e, n, herror⟩ : ∃ e n, install 3 0 built = .error e n := ⟨_, _, rfl⟩
  obtain ⟨-, rfl⟩ := hrefused built n 3 0 e herror
  exact ⟨hbuilt, hother, hcell.trans (by decide), e, herror⟩

end LavMachine.Memory
