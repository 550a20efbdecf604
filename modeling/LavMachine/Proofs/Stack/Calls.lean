import Mathlib
import LavMachine.Proofs.Stack
set_option autoImplicit false

namespace LavMachine

inductive StackCall where
  | push (w : Word)
  | pop
  | popTwo
  | popBlock (count : Nat) (moves : count < Stack.moveLimit)
  | peekTop
  | clear

structure WordList (capacity : Nat) where
  words : List Word
  length_le : words.length ≤ capacity

namespace WordList

variable {capacity : Nat}

def empty : WordList capacity := ⟨[], Nat.zero_le _⟩

def add (l : WordList capacity) (w : Word) (h : l.words.length < capacity) : WordList capacity :=
  ⟨l.words ++ [w], by simpa using h⟩

def cut (l : WordList capacity) (count : Nat) : WordList capacity :=
  ⟨l.words.rdrop count, (List.length_take_le' _ _).trans l.length_le⟩

/-- Hands out the last `count` words in order; where there are fewer, `short` is left. -/
def handOut (l : WordList capacity) (count : Nat) (short : WordList capacity) :
    Except Fault (List Word) × WordList capacity :=
  if count ≤ l.words.length then (.ok (l.words.rtake count), l.cut count)
  else (.error { kind := .stackUnderflow }, short)

def answer (l : WordList capacity) : StackCall → Except Fault (List Word) × WordList capacity
  | .push w =>
    if h : l.words.length < capacity then (.ok [], l.add w h)
    else (.error { kind := .stackOverflow, detail := s!"CAPACITY {capacity}" }, l)
  | .pop => l.handOut 1 l
  -- the one failure that does not leave the list alone
  | .popTwo => l.handOut 2 empty
  | .popBlock count _ => l.handOut count l
  | .peekTop => ((l.handOut 1 l).1, l)
  | .clear => (.ok [], empty)

def answerAll (l : WordList capacity) (calls : List StackCall) : WordList capacity :=
  calls.foldl (fun l c => (l.answer c).2) l

end WordList

namespace Stack

def obey : StackCall → Op (List Word)
  | .push w => do
    push w
    return []
  | .pop => return [← pop]
  | .popTwo => do
    let (first, second) ← popTwo
    return [first, second]
  | .popBlock count _ => return (← popBlock count).toList
  | .peekTop => return [← peekTop]
  | .clear => do
    modify clear
    return []

def outcome : EStateM.Result Fault Stack (List Word) → Except Fault (List Word) × Stack
  | .ok words s => (.ok words, s)
  | .error e s => (.error e, s)

def answer (s : Stack) (c : StackCall) : Except Fault (List Word) × Stack := outcome (obey c s)

def answerAll (s : Stack) (calls : List StackCall) : Stack :=
  calls.foldl (fun s c => (s.answer c).2) s

/-- The live words are those of the list, and there is room for as many. -/
structure Lists {capacity : Nat} (s : Stack) (l : WordList capacity) : Prop where
  capacity_eq : s.capacity = capacity
  words_eq : s.toList = l.words

structure Follows {capacity : Nat} (r : EStateM.Result Fault Stack (List Word))
    (a : Except Fault (List Word) × WordList capacity) : Prop where
  answer_eq : (outcome r).1 = a.1
  lists : (outcome r).2.Lists a.2

variable {capacity : Nat} {s t : Stack} {l short : WordList capacity}

theorem lists_empty (capacity : Nat) :
    (empty capacity).Lists (WordList.empty : WordList capacity) :=
  ⟨Array.size_replicate, by rw [toList_eq_take]; rfl⟩

theorem popTwo_of_lt (h : s.toList.length < 2) :
    ∃ t, popTwo s = .error underflow t ∧ t.toList = [] ∧ t.capacity = s.capacity := by
  by_cases hnil : s.toList = []
  · exact ⟨s, by simp only [popTwo, bind, EStateM.bind, pop_nil hnil], hnil, rfl⟩
  · obtain ⟨ws, w, hw⟩ := exists_concat hnil
    obtain rfl : ws = [] := List.eq_nil_of_length_eq_zero (by simpa [hw] using h)
    obtain ⟨t, hpop, ht, hcapacity⟩ := pop_concat hw
    exact ⟨t, by simp only [popTwo, bind, EStateM.bind, hpop, pop_nil ht], ht, hcapacity⟩

theorem Lists.handOut (h : s.Lists l) {x : Op (List Word)} {count : Nat}
    (henough : ∀ ws vs, s.toList = ws ++ vs → vs.length = count →
      ∃ t, x s = .ok vs t ∧ t.toList = ws ∧ t.capacity = s.capacity)
    (hshort : s.toList.length < count → ∃ t, x s = .error underflow t ∧ t.Lists short) :
    Follows (x s) (l.handOut count short) := by
  rw [WordList.handOut, ← h.words_eq]
  by_cases hle : count ≤ s.toList.length
  · obtain ⟨ws, vs, hsplit, rfl⟩ := exists_append hle
    obtain ⟨t, hx, ht, hcapacity⟩ := henough ws vs hsplit rfl
    rw [if_pos hle, hx]
    refine ⟨?_, hcapacity.trans h.capacity_eq, ?_⟩
    · simp [outcome, hsplit, List.rtake]
    · simp [outcome, ht, WordList.cut, ← h.words_eq, hsplit, List.rdrop]
  · obtain ⟨t, hx, ht⟩ := hshort (Nat.not_le.1 hle)
    rw [if_neg hle, hx]
    exact ⟨rfl, ht⟩

theorem Lists.push (h : s.Lists l) (w : Word) :
    Follows (obey (.push w) s) (l.answer (.push w)) := by
  rw [WordList.answer]
  by_cases hroom : l.words.length < capacity
  · obtain ⟨t, hpush, ht, hcapacity⟩ := push_of_lt (s := s) (by rwa [h.words_eq, h.capacity_eq]) w
    rw [dif_pos hroom, obey]
    simp only [bind, EStateM.bind, hpush, pure, EStateM.pure]
    exact ⟨rfl, hcapacity.trans h.capacity_eq, by rw [outcome, ht, h.words_eq, WordList.add]⟩
  · have hfull := push_of_le (s := s) (by rw [h.words_eq, h.capacity_eq]; omega) w
    rw [dif_neg hroom, obey]
    simp only [bind, EStateM.bind, hfull]
    exact ⟨by rw [outcome, overflow, h.capacity_eq], h⟩

theorem Lists.pop (h : s.Lists l) : Follows (obey .pop s) (l.handOut 1 l) := by
  refine h.handOut (fun ws vs hsplit hone => ?_) fun hshort => ?_
  · obtain ⟨w, rfl⟩ := List.length_eq_one_iff.1 hone
    obtain ⟨t, hpop, ht⟩ := pop_concat hsplit
    exact ⟨t, by simp only [obey, bind, EStateM.bind, hpop, pure, EStateM.pure], ht⟩
  · have hnil : s.toList = [] := List.eq_nil_of_length_eq_zero (by omega)
    exact ⟨s, by simp only [obey, bind, EStateM.bind, pop_nil hnil], h⟩

theorem Lists.popTwo (h : s.Lists l) : Follows (obey .popTwo s) (l.handOut 2 WordList.empty) := by
  refine h.handOut (fun ws vs hsplit htwo => ?_) fun hshort => ?_
  · obtain ⟨first, second, rfl⟩ := List.length_eq_two.1 htwo
    obtain ⟨t, hpop, ht⟩ := popTwo_concat (hsplit.trans (List.append_cons _ _ _))
    exact ⟨t, by simp only [obey, bind, EStateM.bind, hpop, pure, EStateM.pure], ht⟩
  · obtain ⟨t, hpop, ht, hcapacity⟩ := popTwo_of_lt hshort
    exact ⟨t, by simp only [obey, bind, EStateM.bind, hpop], hcapacity.trans h.capacity_eq, ht⟩

theorem Lists.popBlock (h : s.Lists l) {count : Nat} (hmoves : count < moveLimit) :
    Follows (obey (.popBlock count hmoves) s) (l.handOut count l) := by
  refine h.handOut (fun ws vs hsplit hcount => ?_) fun hshort => ?_
  · subst hcount
    obtain ⟨v, t, hpop, hv, ht⟩ := popBlock_append hmoves hsplit
    exact ⟨t, by simp only [obey, bind, EStateM.bind, hpop, pure, EStateM.pure, hv], ht⟩
  · exact ⟨s, by simp only [obey, bind, EStateM.bind, popBlock_of_lt hmoves hshort], h⟩

theorem Lists.peekTop (h : s.Lists l) : Follows (obey .peekTop s) ((l.handOut 1 l).1, l) := by
  rw [WordList.handOut, ← h.words_eq]
  by_cases hnil : s.toList = []
  · rw [obey]
    simp only [bind, EStateM.bind, peekTop_nil hnil]
    exact ⟨by simp [outcome, hnil, underflow], h⟩
  · obtain ⟨ws, w, hw⟩ := exists_concat hnil
    rw [obey]
    simp only [bind, EStateM.bind, peekTop_concat hw, pure, EStateM.pure]
    exact ⟨by simp [outcome, hw, List.rtake], h⟩

theorem Lists.obey (h : s.Lists l) (c : StackCall) : Follows (Stack.obey c s) (l.answer c) := by
  cases c with
  | push w => exact h.push w
  | pop => exact h.pop
  | popTwo => exact h.popTwo
  | popBlock count hmoves => exact h.popBlock hmoves
  | peekTop => exact h.peekTop
  | clear => exact ⟨rfl, h.capacity_eq, s.toList_clear⟩

theorem Lists.answerAll (h : s.Lists l) (calls : List StackCall) :
    (s.answerAll calls).Lists (l.answerAll calls) := by
  induction calls generalizing s l with
  | nil => exact h
  | cons c calls ih => exact ih (h.obey c).lists

/-- `t` is `s` with the pointer where it was or lower, and no word overwritten. -/
def Lower (s t : Stack) : Prop := t.slots = s.slots ∧ t.depth ≤ s.depth

theorem respects_lower_pop : Respects (Diagonal s.Lower) pop := by
  rintro t _ ⟨rfl, hslots, hdepth⟩
  obtain ⟨slots, depth, hle⟩ := t
  cases depth with
  | zero => exact .error ⟨rfl, hslots, hdepth⟩
  | succ depth => exact .ok ⟨rfl, hslots, Nat.le_of_succ_le hdepth⟩

theorem respects_lower_peekTop : Respects (Diagonal s.Lower) peekTop := by
  rintro t _ ⟨rfl, hslots, hdepth⟩
  obtain ⟨slots, depth, hle⟩ := t
  cases depth with
  | zero => exact .error ⟨rfl, hslots, hdepth⟩
  | succ depth => exact .ok ⟨rfl, hslots, hdepth⟩

theorem respects_lower_popBlock {count : Nat} (hmoves : count < moveLimit) :
    Respects (Diagonal s.Lower) (popBlock count) := by
  rintro t _ ⟨rfl, hslots, hdepth⟩
  rw [popBlock_eq hmoves]
  split
  · exact .ok ⟨rfl, hslots, (Nat.sub_le _ _).trans hdepth⟩
  · exact .error ⟨rfl, hslots, hdepth⟩

theorem respects_lower_obey {c : StackCall} (hc : ∀ w, c ≠ .push w) :
    Respects (Diagonal s.Lower) (obey c) := by
  cases c with
  | push w => exact absurd rfl (hc w)
  | pop => exact respects_lower_pop.bind fun _ => Respects.pure _
  | popTwo =>
    refine Respects.bind ?_ fun _ => Respects.pure _
    exact respects_lower_pop.bind fun _ => respects_lower_pop.bind fun _ => Respects.pure _
  | popBlock count hmoves => exact (respects_lower_popBlock hmoves).bind fun _ => Respects.pure _
  | peekTop => exact respects_lower_peekTop.bind fun _ => Respects.pure _
  | clear =>
    rintro t _ ⟨rfl, hslots, _⟩
    exact .ok ⟨rfl, hslots, Nat.zero_le _⟩

theorem Lower.answer (h : s.Lower t) {c : StackCall} (hc : ∀ w, c ≠ .push w) :
    s.Lower (t.answer c).2 := by
  have hagree := respects_lower_obey hc t t ⟨rfl, h⟩
  rw [Stack.answer]
  cases hr : Stack.obey c t with
  | ok words u =>
    rw [hr] at hagree
    cases hagree with
    | ok h' => exact h'.2
  | error e u =>
    rw [hr] at hagree
    cases hagree with
    | error h' => exact h'.2

theorem Lower.answerAll (h : s.Lower t) {calls : List StackCall}
    (hcalls : ∀ c ∈ calls, ∀ w, c ≠ .push w) :
    s.Lower (t.answerAll calls) := by
  induction calls generalizing t with
  | nil => exact h
  | cons c calls ih =>
    exact ih (h.answer (hcalls c List.mem_cons_self)) fun c' hc' =>
      hcalls c' (List.mem_cons_of_mem c hc')

/-- A word above a lower pointer is farther from it. -/
theorem Lower.peek (h : s.Lower t) (i : Nat) {w : Word} (hw : s.peek i = .ok w) :
    t.peek (s.toList.length - t.toList.length + i) = .ok w := by
  obtain ⟨hslots, hdepth⟩ := h
  have hindex : t.depth + (s.toList.length - t.toList.length + i) = s.depth + i := by
    simp only [length_toList]
    omega
  unfold Stack.peek at hw ⊢
  rw [hindex, hslots]
  cases hslot : s.slots[s.depth + i]? with
  | none => rw [hslot] at hw; cases hw
  | some v => rwa [hslot] at hw

theorem movePointer_of_popBlock {count : Nat} (hmoves : count < moveLimit) {v : Vector Word count}
    (h : popBlock count s = .ok v t) :
    movePointer (-count) s = .ok () t ∧ ∀ i : Fin count, t.peek i = .ok (v.get i) := by
  obtain ⟨block, u, hdrop, h⟩ := bind_eq_ok h
  cases h
  have hroom := inRange_of_dropBlock hmoves hdrop
  obtain ⟨_, u, hmove, h⟩ := bind_eq_ok hdrop
  cases h
  rw [toInt_move hmoves] at hmove
  simp only [above] at hroom ⊢
  refine ⟨hmove, fun i => ?_⟩
  have hin : t.depth + i < t.slots.size := by omega
  have hword : (Vector.ofFn fun i : Fin count => t.slots.getD (t.depth + i) 0).get i =
      t.slots[t.depth + i] := by
    rw [Vector.get_eq_getElem, Vector.getElem_ofFn, Array.getElem_eq_getD 0]
  rw [peek, Array.getElem?_eq_getElem hin, hword]

/-- The pushed word goes where the first of the words above the pointer was, and the others stay. -/
theorem peek_of_push_pop {w : Word} (h : push w s = .ok () t) :
    ∃ back, pop t = .ok w back ∧ back.peek 0 = .ok w ∧ ∀ i, 0 < i → back.peek i = s.peek i := by
  unfold push at h
  split at h
  · rename_i hlt
    cases h
    have hle : s.depth ≤ (s.slots.set s.depth w hlt).size := by
      rw [Array.size_set]
      exact s.depth_le
    refine ⟨⟨s.slots.set s.depth w hlt, s.depth, hle⟩, ?_, ?_, fun i hi => ?_⟩
    · simp [pop]
    · simp [peek, hlt]
    · have hne : s.depth ≠ s.depth + i := by omega
      simp only [peek, Array.getElem?_set_ne hlt hne, overflow, capacity, Array.size_set]
  · cases h

/-- Nothing but the list shows in the answers, whatever was called before. A block that the pointer
was moved below is read back word by word, also when more is taken off the stack, and a push takes
the place of its first word alone. -/
theorem calls_follow_list (capacity : Nat) (history : List StackCall) :
    let s := (empty capacity).answerAll history
    let l := (WordList.empty : WordList capacity).answerAll history
    s.toList = l.words ∧ (∀ c, (s.answer c).1 = (l.answer c).1) ∧
    ∀ k ≤ l.words.length, k < moveLimit → ∃ (v : Vector Word k) (t : Stack),
      popBlock k s = .ok v t ∧ v.toList = l.words.rtake k ∧ t.toList = l.words.rdrop k ∧
      movePointer (-k) s = .ok () t ∧ (∀ i : Fin k, t.peek i = .ok (v.get i)) ∧
      (∀ later : List StackCall, (∀ c ∈ later, ∀ w, c ≠ .push w) →
        let u := t.answerAll later
        ∀ i : Fin k, u.peek (t.toList.length - u.toList.length + i) = .ok (v.get i)) ∧
      ∀ w u, push w t = .ok () u → ∃ back, pop u = .ok w back ∧ back.peek 0 = .ok w ∧
        ∀ i : Fin k, 0 < i.val → back.peek i = .ok (v.get i) := by
  intro s l
  have hlists : s.Lists l := (lists_empty capacity).answerAll history
  refine ⟨hlists.words_eq, fun c => (hlists.obey c).answer_eq, fun k hk hmoves => ?_⟩
  rw [← hlists.words_eq] at hk ⊢
  obtain ⟨ws, vs, hsplit, rfl⟩ := exists_append hk
  obtain ⟨v, t, hpop, hv, ht, _⟩ := popBlock_append hmoves hsplit
  obtain ⟨hmove, hpeek⟩ := movePointer_of_popBlock hmoves hpop
  refine ⟨v, t, hpop, by simp [hv, hsplit, List.rtake], by simp [ht, hsplit, List.rdrop],
    hmove, hpeek, fun later hlater i => ?_, fun w u hpush => ?_⟩
  · have hlower : t.Lower (t.answerAll later) := Lower.answerAll ⟨rfl, le_rfl⟩ hlater
    exact hlower.peek i (hpeek i)
  · obtain ⟨back, hback, hfirst, hothers⟩ := peek_of_push_pop hpush
    exact ⟨back, hback, hfirst, fun i hi => (hothers i hi).trans (hpeek i)⟩

/-- A lone word is lost to a pair, a word too many is refused, and of the two words that the pointer
is moved below the last is still there after the word under them is popped. -/
theorem calls_follow_list_full :
    let s := (empty 3).answerAll [.push 7, .popTwo, .push 1, .push 2, .push 3, .push 4,
      .popBlock 4 (by decide)]
    s.toList = [1, 2, 3] ∧ ∃ t, movePointer (-2) s = .ok () t ∧ t.peek 0 = .ok 2 ∧
      t.peek 1 = .ok 3 ∧
      (t.answerAll [.pop, .pop]).peek 2 = .ok 3 := by
  intro s
  obtain ⟨hwords, -, hblock⟩ :=
    calls_follow_list 3 [.push 7, .popTwo, .push 1, .push 2, .push 3, .push 4,
      .popBlock 4 (by decide)]
  obtain ⟨v, t, -, hv, ht, hmove, hpeek, hlater, -⟩ := hblock 2 (by decide) (by decide)
  obtain rfl : v = #v[2, 3] := Vector.toList_inj.1 hv
  have hlast := hlater [.pop, .pop] (by simp) 1
  have hgone : (t.answerAll [.pop, .pop]).toList = [] := by
    have hlowered : movePointer (-2) s = .ok () ⟨#[1, 2, 3], 1, by decide⟩ := rfl
    cases hmove.symm.trans hlowered
    rfl
  rw [ht, hgone] at hlast
  exact ⟨hwords, t, hmove, hpeek 0, hpeek 1, hlast⟩

end Stack
end LavMachine
