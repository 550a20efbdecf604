import Mathlib
import LavMachine.Proofs.Agreement
import LavMachine.Stack
set_option autoImplicit false

namespace LavMachine.Stack

theorem toList_eq_take (s : Stack) : s.toList = s.slots.toList.take s.depth := by simp [toList]

@[simp] theorem length_toList (s : Stack) : s.toList.length = s.depth := by
  have h := s.depth_le
  simp [toList_eq_take]
  omega

theorem toList_clear (s : Stack) : s.clear.toList = [] := by
  rw [toList_eq_take]
  rfl

theorem toList_succ (slots : Array Word) (depth : Nat) (h : depth + 1 ≤ slots.size) :
    toList ⟨slots, depth + 1, h⟩ = toList ⟨slots, depth, Nat.le_of_succ_le h⟩ ++
      [slots[depth]] := by
  simp only [toList_eq_take]
  rw [List.take_succ_eq_append_getElem (by simpa using h)]
  simp

theorem push_of_lt {s : Stack} (h : s.toList.length < s.capacity) (w : Word) :
    ∃ t, push w s = .ok () t ∧ t.toList = s.toList ++ [w] ∧ t.capacity = s.capacity := by
  obtain ⟨slots, depth, hle⟩ := s
  rw [length_toList] at h
  change depth < slots.size at h
  refine ⟨_, dif_pos h, ?_, Array.size_set h⟩
  have hbelow : (slots.set depth w h).toList.take depth = slots.toList.take depth := by
    rw [Array.toList_set, List.take_set_of_le (Nat.le_refl depth)]
  rw [toList_succ, toList_eq_take, toList_eq_take, hbelow, Array.getElem_set_self]

theorem push_of_le {s : Stack} (h : s.capacity ≤ s.toList.length) (w : Word) :
    push w s = .error s.overflow s := by
  rw [length_toList] at h
  exact dif_neg (Nat.not_lt.2 h)

theorem pop_nil {s : Stack} (h : s.toList = []) : pop s = .error underflow s := by
  have hd : s.depth = 0 := by simpa using congrArg List.length h
  obtain ⟨slots, depth, hle⟩ := s
  subst hd
  rfl

theorem exists_concat {s : Stack} (h : s.toList ≠ []) : ∃ ws w, s.toList = ws ++ [w] := by
  obtain hnil | ⟨ws, w, hs⟩ := List.eq_nil_or_concat s.toList
  · exact absurd hnil h
  · exact ⟨ws, w, by simpa using hs⟩

theorem exists_append {s : Stack} {count : Nat} (h : count ≤ s.toList.length) :
    ∃ ws vs, s.toList = ws ++ vs ∧ vs.length = count :=
  ⟨s.toList.take (s.toList.length - count), s.toList.drop (s.toList.length - count),
    (List.take_append_drop _ _).symm, by rw [List.length_drop]; omega⟩

theorem pop_concat {s : Stack} {ws : List Word} {w : Word} (h : s.toList = ws ++ [w]) :
    ∃ t, pop s = .ok w t ∧ t.toList = ws ∧ t.capacity = s.capacity := by
  obtain ⟨slots, depth, hle⟩ := s
  cases depth with
  | zero => simp [toList_eq_take] at h
  | succ depth =>
    rw [toList_succ] at h
    obtain ⟨hws, hw⟩ := List.append_inj' h rfl
    simp only [List.cons.injEq, and_true] at hw
    exact ⟨⟨slots, depth, Nat.le_of_succ_le hle⟩, by rw [← hw]; rfl, hws, rfl⟩

theorem toList_of_pop {s t : Stack} {w : Word} (h : pop s = .ok w t) :
    s.toList = t.toList ++ [w] := by
  by_cases hnil : s.toList = []
  · rw [pop_nil hnil] at h
    cases h
  · obtain ⟨ws, top, htop⟩ := exists_concat hnil
    obtain ⟨_, hpop, rfl, _⟩ := pop_concat htop
    cases h.symm.trans hpop
    exact htop

theorem getLastD_of_pop {s t : Stack} {w : Word} (h : pop s = .ok w t) :
    s.toList.getLastD 0 = w := by
  simp [toList_of_pop h]

theorem popTwo_concat {s : Stack} {ws : List Word} {a b : Word} (h : s.toList = ws ++ [a] ++ [b]) :
    ∃ t, popTwo s = .ok (a, b) t ∧ t.toList = ws ∧ t.capacity = s.capacity := by
  obtain ⟨t, hpop, ht, hcapacity⟩ := pop_concat h
  obtain ⟨u, hpop', hu, hcapacity'⟩ := pop_concat ht
  refine ⟨u, ?_, hu, hcapacity'.trans hcapacity⟩
  simp only [popTwo, bind, EStateM.bind, hpop, hpop', pure, EStateM.pure]

theorem peekTop_nil {s : Stack} (h : s.toList = []) : peekTop s = .error underflow s := by
  have hd : s.depth = 0 := by simpa using congrArg List.length h
  obtain ⟨slots, depth, hle⟩ := s
  subst hd
  rfl

theorem peekTop_concat {s : Stack} {ws : List Word} {w : Word} (h : s.toList = ws ++ [w]) :
    peekTop s = .ok w s := by
  obtain ⟨slots, depth, hle⟩ := s
  cases depth with
  | zero => simp [toList_eq_take] at h
  | succ depth =>
    rw [toList_succ] at h
    obtain ⟨_, hw⟩ := List.append_inj' h rfl
    simp only [List.cons.injEq, and_true] at hw
    rw [← hw]
    rfl

theorem toInt_move {count : Nat} (hcount : count < moveLimit) :
    (-Int64.ofNat count).toInt = -count := by
  unfold moveLimit at hcount
  rw [Int64.toInt_neg, Int64.toInt_ofNat_of_lt (by omega)]
  exact Int.bmod_eq_of_le (by omega) (by omega)

theorem dropBlock_eq {count : Nat} (hcount : count < moveLimit) (s : Stack) :
    dropBlock count s =
      if count ≤ s.depth then
        .ok ⟨Vector.ofFn fun i => s.slots.getD (s.depth - count + i) 0,
          s.depth - count + count ≤ s.slots.size⟩
          ⟨s.slots, s.depth - count, Nat.le_trans (Nat.sub_le s.depth count) s.depth_le⟩
      else .error underflow s := by
  have hle := s.depth_le
  simp only [dropBlock, toInt_move hcount, movePointer, above, bind, EStateM.bind, get, getThe,
    MonadStateOf.get, EStateM.get, pure, EStateM.pure]
  by_cases h : count ≤ s.depth
  · have hpos : ¬ (s.depth : Int) + -(count : Int) < 0 := by omega
    have hsub : ((s.depth : Int) + -(count : Int)).toNat = s.depth - count := by omega
    have hfit : s.depth - count ≤ s.slots.size := by omega
    simp [hpos, hsub, hfit, h]
  · have hneg : (s.depth : Int) + -(count : Int) < 0 := by omega
    simp [hneg, h]

theorem popBlock_eq {count : Nat} (hcount : count < moveLimit) (s : Stack) :
    popBlock count s =
      if count ≤ s.depth then
        .ok (Vector.ofFn fun i => s.slots.getD (s.depth - count + i) 0)
          ⟨s.slots, s.depth - count, Nat.le_trans (Nat.sub_le s.depth count) s.depth_le⟩
      else .error underflow s := by
  simp only [popBlock, bind, EStateM.bind, dropBlock_eq hcount]
  by_cases h : count ≤ s.depth
  · simp only [h, if_true, pure, EStateM.pure]
  · simp only [h, if_false]

/-- The words that a block pop reads back are in place. -/
theorem inRange_of_dropBlock {s t : Stack} {count : Nat} {v : Checked (Vector Word count)}
    (hcount : count < moveLimit) (h : dropBlock count s = .ok v t) : v.inRange := by
  have hle := s.depth_le
  rw [dropBlock_eq hcount] at h
  split at h
  · cases h
    simp only
    omega
  · cases h

theorem popBlock_append {s : Stack} {ws vs : List Word} (hvs : vs.length < moveLimit)
    (h : s.toList = ws ++ vs) :
    ∃ v t, popBlock vs.length s = .ok v t ∧ v.toList = vs ∧ t.toList = ws ∧
    t.capacity = s.capacity := by
  have hlen : s.depth = ws.length + vs.length := by simpa using congrArg List.length h
  have hle := s.depth_le
  rw [popBlock_eq hvs, if_pos (by omega)]
  refine ⟨_, _, rfl, ?_, ?_, rfl⟩
  · apply List.ext_getElem
    · simp
    · intro i hi hi'
      have hslot : s.slots[ws.length + i]? = some vs[i] := by
        have hget : s.toList[ws.length + i]? = some vs[i] := by simp [h, hi']
        rw [toList_eq_take, List.getElem?_take_of_lt (by omega)] at hget
        simpa using hget
      have hbase : s.depth - vs.length = ws.length := by omega
      simp [hbase, hslot]
  · have hbase : s.depth - vs.length = ws.length := by omega
    have htake : s.toList.take ws.length = ws := by simp [h]
    rw [← htake, toList_eq_take, toList_eq_take, List.take_take]
    congr 1
    simp only
    omega

theorem popBlock_of_lt {s : Stack} {count : Nat} (hcount : count < moveLimit)
    (h : s.toList.length < count) :
    popBlock count s = .error underflow s := by
  rw [length_toList] at h
  rw [popBlock_eq hcount, if_neg (by omega)]

theorem toList_of_popBlock {s t : Stack} {count : Nat} {v : Vector Word count}
    (hcount : count < moveLimit) (h : popBlock count s = .ok v t) :
    s.toList = t.toList ++ v.toList := by
  by_cases hlen : count ≤ s.toList.length
  · obtain ⟨ws, vs, hsplit, rfl⟩ := exists_append hlen
    obtain ⟨v', t', hpop, hv, ht, _⟩ := popBlock_append hcount hsplit
    cases h.symm.trans hpop
    rw [hsplit, hv, ht]
  · rw [popBlock_of_lt hcount (by omega)] at h
    cases h

theorem toList_of_popEach {s t : Stack} {count : Nat} {v : Vector Word count}
    (h : popEach count s = .ok v t) :
    s.toList = t.toList ++ v.toList := by
  induction count generalizing s t with
  | zero =>
    cases h
    simp
  | succ count ih =>
    obtain ⟨last, s₁, hpop, h⟩ := bind_eq_ok h
    obtain ⟨earlier, s₂, hearlier, h⟩ := bind_eq_ok h
    cases h
    rw [toList_of_pop hpop, ih hearlier, Vector.toList_push, List.append_assoc]

/-- The operation takes `count` words off the top, or fails for lack of them. -/
structure Takes {α : Type} (count : Nat) (x : Op α) : Prop where
  of_le {s : Stack} : count ≤ s.depth →
    ∃ a t, x s = .ok a t ∧ t.toList = s.toList.take (s.depth - count) ∧ t.capacity = s.capacity
  of_lt {s : Stack} : s.depth < count → ∃ t, x s = .error underflow t

theorem Takes.capacity_eq {α : Type} {count : Nat} {x : Op α} (hx : Takes count x)
    {s t : Stack} {a : α} (h : x s = .ok a t) : t.capacity = s.capacity := by
  by_cases hle : count ≤ s.depth
  · obtain ⟨_, _, hok, _, hcapacity⟩ := hx.of_le hle
    cases h.symm.trans hok
    exact hcapacity
  · obtain ⟨_, herror⟩ := hx.of_lt (Nat.not_le.1 hle)
    cases h.symm.trans herror

theorem takes_pure {α : Type} (a : α) : Takes 0 (pure a) where
  of_le {s} _ := ⟨a, s, rfl, by simp [← length_toList], rfl⟩
  of_lt h := by omega

theorem Takes.bind {α β : Type} {m n : Nat} {x : Op α} {k : α → Op β} (hx : Takes m x)
    (hk : ∀ a, Takes n (k a)) : Takes (n + m) (x >>= k) where
  of_le {s} h := by
    obtain ⟨a, t, hxs, ht, hcapacity⟩ := hx.of_le (s := s) (by omega)
    have hdepth : t.depth = s.depth - m := by
      rw [← length_toList, ht, List.length_take, length_toList]; omega
    obtain ⟨b, u, hkt, hu, hcapacity'⟩ := (hk a).of_le (s := t) (by omega)
    refine ⟨b, u, ?_, ?_, hcapacity'.trans hcapacity⟩
    · simp only [Bind.bind, EStateM.bind, hxs, hkt]
    · rw [hu, ht, List.take_take, hdepth]
      congr 1
      omega
  of_lt {s} h := by
    by_cases hm : m ≤ s.depth
    · obtain ⟨a, t, hxs, ht, _⟩ := hx.of_le hm
      have hdepth : t.depth = s.depth - m := by
        rw [← length_toList, ht, List.length_take, length_toList]; omega
      obtain ⟨u, hkt⟩ := (hk a).of_lt (s := t) (by omega)
      exact ⟨u, by simp only [Bind.bind, EStateM.bind, hxs, hkt]⟩
    · obtain ⟨t, hxs⟩ := hx.of_lt (s := s) (by omega)
      exact ⟨t, by simp only [Bind.bind, EStateM.bind, hxs]⟩

theorem takes_pop : Takes 1 pop where
  of_le {s} h := by
    have hnil : s.toList ≠ [] := by
      rw [← List.length_pos_iff, length_toList]
      exact h
    obtain ⟨ws, w, hw⟩ := exists_concat hnil
    obtain ⟨t, hpop, ht, hcapacity⟩ := pop_concat hw
    have hdepth : s.depth = ws.length + 1 := by simpa using congrArg List.length hw
    exact ⟨w, t, hpop, by simp [ht, hw, hdepth], hcapacity⟩
  of_lt {s} h := ⟨s, pop_nil (List.eq_nil_of_length_eq_zero (by rw [length_toList]; omega))⟩

theorem takes_popTwo : Takes 2 popTwo :=
  takes_pop.bind fun _ => takes_pop.bind fun _ => takes_pure _

theorem takes_popEach (count : Nat) : Takes count (popEach count) := by
  induction count with
  | zero => exact takes_pure _
  | succ count ih =>
    refine takes_pop.bind fun last => ?_
    have h := ih.bind fun earlier => takes_pure (earlier.push last)
    rwa [Nat.zero_add] at h

theorem toNat_lt_moveLimit (b : UInt8) : b.toNat < moveLimit := Nat.lt_trans b.toNat_lt (by decide)

theorem takes_popBlock {count : Nat} (hcount : count < moveLimit) :
    Takes count (popBlock count) where
  of_le {s} h := by
    rw [popBlock_eq hcount, if_pos h]
    refine ⟨_, _, rfl, ?_, rfl⟩
    rw [toList_eq_take, toList_eq_take, List.take_take]
    congr 1
    simp only
    omega
  of_lt {s} h := ⟨s, popBlock_of_lt hcount (by rwa [length_toList])⟩

def Same (capacity : Nat) (s t : Stack) : Prop :=
  s.capacity = capacity ∧ t.capacity = capacity ∧ s.toList = t.toList

variable {capacity : Nat}

theorem respects_push (w : Word) : Respects (Same capacity) (push w) := by
  rintro s t ⟨hs, ht, hst⟩
  by_cases h : s.toList.length < s.capacity
  · obtain ⟨s', hps, hls, hcs⟩ := push_of_lt h w
    obtain ⟨t', hpt, hlt, hct⟩ := push_of_lt (s := t) (by rwa [← hst, ht, ← hs]) w
    rw [hps, hpt]
    exact .ok ⟨hcs.trans hs, hct.trans ht, by rw [hls, hlt, hst]⟩
  · have hover : s.overflow = t.overflow := by simp only [overflow, hs, ht]
    rw [push_of_le (by omega), push_of_le (by rw [← hst, ht, ← hs]; omega), hover]
    exact .error ⟨hs, ht, hst⟩

theorem respects_pop : Respects (Same capacity) pop := by
  rintro s t ⟨hs, ht, hst⟩
  by_cases h : s.toList = []
  · rw [pop_nil h, pop_nil (hst ▸ h)]
    exact .error ⟨hs, ht, hst⟩
  · obtain ⟨ws, w, hw⟩ := exists_concat h
    obtain ⟨s', hps, hls, hcs⟩ := pop_concat hw
    obtain ⟨t', hpt, hlt, hct⟩ := pop_concat (hst ▸ hw)
    rw [hps, hpt]
    exact .ok ⟨hcs.trans hs, hct.trans ht, by rw [hls, hlt]⟩

theorem respects_peekTop : Respects (Same capacity) peekTop := by
  rintro s t ⟨hs, ht, hst⟩
  by_cases h : s.toList = []
  · rw [peekTop_nil h, peekTop_nil (hst ▸ h)]
    exact .error ⟨hs, ht, hst⟩
  · obtain ⟨ws, w, hw⟩ := exists_concat h
    rw [peekTop_concat hw, peekTop_concat (hst ▸ hw)]
    exact .ok ⟨hs, ht, hst⟩

theorem respects_popTwo : Respects (Same capacity) popTwo :=
  respects_pop.bind fun _ => respects_pop.bind fun _ => Respects.pure _

theorem respects_popEach (count : Nat) : Respects (Same capacity) (popEach count) := by
  induction count with
  | zero => exact Respects.pure _
  | succ count ih => exact respects_pop.bind fun _ => ih.bind fun _ => Respects.pure _

theorem respects_popBlock {count : Nat} (hcount : count < moveLimit) :
    Respects (Same capacity) (popBlock count) := by
  rintro s t ⟨hs, ht, hst⟩
  by_cases h : count ≤ s.toList.length
  · obtain ⟨ws, vs, hsplit, rfl⟩ := exists_append h
    obtain ⟨v, s', hps, hv, hls, hcs⟩ := popBlock_append hcount hsplit
    obtain ⟨v', t', hpt, hv', hlt, hct⟩ := popBlock_append hcount (hst ▸ hsplit)
    have hvv : v = v' := Vector.toList_inj.1 (hv.trans hv'.symm)
    rw [hps, hpt, hvv]
    exact .ok ⟨hcs.trans hs, hct.trans ht, hls.trans hlt.symm⟩
  · rw [popBlock_of_lt hcount (by omega), popBlock_of_lt hcount (by rw [← hst]; omega)]
    exact .error ⟨hs, ht, hst⟩

end LavMachine.Stack
