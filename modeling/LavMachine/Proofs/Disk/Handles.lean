import Mathlib
import LavMachine.Proofs.Disk.Calls
set_option autoImplicit false

namespace LavMachine

def OpenMode.texts : List Bytes :=
  ["r", "r+", "w", "w+", "a", "a+"].map fun text => text.toList.map fun c => c.toUInt8

theorem OpenMode.ofBytes?_eq_none_iff (mode : Bytes) :
    ofBytes? mode = none ↔ mode.filter (· != 0x62) ∉ texts := by
  have htexts : texts = [[0x72], [0x72, 0x2b], [0x77], [0x77, 0x2b], [0x61], [0x61, 0x2b]] := by
    decide +kernel
  rw [htexts]
  unfold ofBytes?
  generalize mode.filter (· != 0x62) = mode
  simp only [beq_iff_eq, List.mem_cons, List.not_mem_nil, or_false, not_or]
  split_ifs <;> simp_all

abbrev DiskEvent := (c : DiskCall) × c.Answer

namespace DiskEvent

inductive Opens (n : Word) : DiskEvent → Prop where
  | mk {name mode : Bytes} : n ≠ 0 → Opens n ⟨.openFile name mode, n⟩

inductive Closes (n : Word) : DiskEvent → Prop where
  | close : Closes n ⟨.close n, ()⟩
  | dispose : Closes n ⟨.dispose, ()⟩

theorem opens_openFile_iff {name mode : Bytes} {a n : Word} :
    Opens n ⟨.openFile name mode, a⟩ ↔ n = a ∧ n ≠ 0 := by
  constructor
  · rintro ⟨hn⟩
    exact ⟨rfl, hn⟩
  · rintro ⟨rfl, hn⟩
    exact .mk hn

theorem not_opens {c : DiskCall} (h : ∀ name mode, c ≠ .openFile name mode) (a : c.Answer)
    (n : Word) :
    ¬ Opens n ⟨c, a⟩ := by
  rintro ⟨_⟩
  exact h _ _ rfl

theorem closes_close_iff {m n : Word} : Closes n ⟨.close m, ()⟩ ↔ n = m := by
  constructor
  · rintro ⟨⟩
    rfl
  · rintro rfl
    exact .close

theorem not_closes {c : DiskCall} (hclose : ∀ n, c ≠ .close n) (hdispose : c ≠ .dispose)
    (a : c.Answer) (n : Word) :
    ¬ Closes n ⟨c, a⟩ := by
  rintro (_ | _)
  · exact hclose _ rfl
  · exact hdispose rfl

theorem opens_or_iff {c : DiskCall} (hopen : ∀ name mode, c ≠ .openFile name mode)
    (hclose : ∀ n, c ≠ .close n) (hdispose : c ≠ .dispose) (a : c.Answer) (n : Word)
    (before : Prop) :
    Opens n ⟨c, a⟩ ∨ before ∧ ¬ Closes n ⟨c, a⟩ ↔ before := by
  simp [not_opens hopen a n, not_closes hclose hdispose a n]

theorem opens_or_iff_of_handle? {c : DiskCall} {m : Word} (hc : c.handle? = some m)
    (hclose : ∀ n, c ≠ .close n) (a : c.Answer) (n : Word) (before : Prop) :
    Opens n ⟨c, a⟩ ∨ before ∧ ¬ Closes n ⟨c, a⟩ ↔ before :=
  opens_or_iff (by rintro _ _ rfl; cases hc) hclose (by rintro rfl; cases hc) a n before

/-- Some event has opened the number and none has closed it since. -/
def Outstanding (events : List DiskEvent) (n : Word) : Prop :=
  ∃ before e after, events = before ++ e :: after ∧ Opens n e ∧ ∀ e' ∈ after, ¬ Closes n e'

theorem not_outstanding_nil (n : Word) : ¬ Outstanding [] n := by
  rintro ⟨before, e, after, h, _⟩
  simp at h

theorem outstanding_concat {events : List DiskEvent} {e : DiskEvent} {n : Word} :
    Outstanding (events ++ [e]) n ↔ Opens n e ∨ Outstanding events n ∧ ¬ Closes n e := by
  constructor
  · rintro ⟨before, first, after, h, hopens, hkept⟩
    rcases List.eq_nil_or_concat after with rfl | ⟨after, last, rfl⟩
    · obtain ⟨_, hlast⟩ := List.append_inj' h rfl
      cases hlast
      exact .inl hopens
    · rw [List.concat_eq_append, ← List.cons_append, ← List.append_assoc] at h
      obtain ⟨rfl, hlast⟩ := List.append_inj' h rfl
      cases hlast
      exact .inr ⟨⟨before, first, after, rfl, hopens, fun e he => hkept e (by simp [he])⟩,
        hkept _ (by simp)⟩
  · rintro (hopens | ⟨⟨before, first, after, rfl, hopens, hkept⟩, hlast⟩)
    · exact ⟨events, e, [], rfl, hopens, by simp⟩
    · refine ⟨before, first, after ++ [e], by simp, hopens, fun e' he' => ?_⟩
      rcases List.mem_append.1 he' with he' | he'
      · exact hkept e' he'
      · rwa [List.mem_singleton.1 he']

end DiskEvent

namespace HostedDisk

def record (d : HostedDisk) : List DiskCall → List DiskEvent
  | [] => []
  | c :: calls => ⟨c, (answer c d).1⟩ :: (answer c d).2.record calls

theorem record_concat (d : HostedDisk) (calls : List DiskCall) (c : DiskCall) :
    d.record (calls ++ [c]) = d.record calls ++ [⟨c, (answer c (d.answerAll calls)).1⟩] := by
  induction calls generalizing d with
  | nil => rfl
  | cons first calls ih => simp [record, ih, answerAll]

def IsOpen (d : HostedDisk) (n : Word) : Prop := (d.opened? n).isSome

instance (d : HostedDisk) (n : Word) : Decidable (d.IsOpen n) :=
  inferInstanceAs (Decidable (_ = true))

/-- The number is free and all below it are in use. -/
structure LeastFree (d : HostedDisk) (n : Word) : Prop where
  one_le : 1 ≤ n
  le_eight : n ≤ 8
  free : ¬ d.IsOpen n
  below {m : Word} : 1 ≤ m → m < n → d.IsOpen m

theorem opened?_number (d : HostedDisk) (slot : Fin handleCount) :
    d.opened? (number slot) = d.handles.get slot := by
  rw [opened?, slot?_number]
  rfl

theorem IsOpen.exists_number {d : HostedDisk} {n : Word} (hn : d.IsOpen n) :
    ∃ slot, n = number slot := by
  obtain ⟨h, hopened⟩ := Option.isSome_iff_exists.1 hn
  obtain ⟨slot, hslot, _⟩ := Option.bind_eq_some_iff.1 hopened
  exact ⟨slot, slot?_eq_some_iff.1 hslot⟩

theorem exists_number_iff {n : Word} : (∃ slot, n = number slot) ↔ 1 ≤ n ∧ n ≤ 8 := by
  have hcount : handleCount = 8 := rfl
  simp only [← Int32.toInt_inj, toInt_number, Int32.le_iff_toInt_le]
  change (∃ slot : Fin handleCount, n.toInt = slot + 1) ↔ (1 : Int) ≤ n.toInt ∧ n.toInt ≤ 8
  constructor
  · rintro ⟨slot, hslot⟩
    omega
  · rintro ⟨hone, height⟩
    exact ⟨⟨(n.toInt - 1).toNat, by omega⟩, by simp only; omega⟩

theorem opened?_setHandle (d : HostedDisk) (slot : Fin handleCount) (h : Option Handle) (n : Word) :
    (d.setHandle slot h).opened? n = if n = number slot then h else d.opened? n := by
  by_cases hn : ∃ slot', n = number slot'
  · obtain ⟨slot', rfl⟩ := hn
    rw [opened?_number, opened?_number]
    simp only [number_inj, setHandle, Vector.get_eq_getElem, Vector.getElem_set, Fin.ext_iff]
    simp only [eq_comm]
  · have hslot : slot? n = none := by
      rw [Option.eq_none_iff_forall_not_mem]
      exact fun slot' h => hn ⟨slot', slot?_eq_some_iff.1 h⟩
    rw [if_neg (fun h => hn ⟨slot, h⟩), opened?, opened?, hslot]
    rfl

theorem opened?_close (d : HostedDisk) (m n : Word) :
    (d.close m).opened? n = if n = m then none else d.opened? n := by
  unfold close
  cases hm : slot? m with
  | some slot => rw [opened?_setHandle, ← slot?_eq_some_iff.1 hm]
  | none =>
    by_cases hn : n = m
    · simp [hn, opened?, hm]
    · simp [hn]

theorem close_of_opened?_eq_none {d : HostedDisk} {n : Word} (h : d.opened? n = none) :
    d.close n = d := by
  unfold close
  cases hn : slot? n with
  | none => rfl
  | some slot =>
    rw [slot?_eq_some_iff.1 hn, opened?_number] at h
    exact setHandle_self h

theorem opened?_dispose (d : HostedDisk) (n : Word) : d.dispose.opened? n = none := by
  unfold opened? dispose
  cases slot? n <;> simp [Vector.get_eq_getElem]

theorem number_ne_zero (slot : Fin handleCount) : number slot ≠ 0 := by
  rw [Ne, ← Int32.toInt_inj, toInt_number]
  change ¬ (slot : Int) + 1 = 0
  omega

theorem Served.isOpen_iff {d d' : HostedDisk} {c : DiskCall} {a : c.Answer} (h : d.Served c a d')
    (n : Word) :
    d'.IsOpen n ↔ DiskEvent.Opens n ⟨c, a⟩ ∨ d.IsOpen n ∧ ¬ DiskEvent.Closes n ⟨c, a⟩ := by
  cases h with
  | @refused name mode =>
    have hkept : ¬ DiskEvent.Closes n ⟨.openFile name mode, (0 : Word)⟩ :=
      DiskEvent.not_closes (by simp) (by simp) _ n
    simp [DiskEvent.opens_openFile_iff, hkept]
  | @opened name mode p m slot file tree =>
    have hkept : ¬ DiskEvent.Closes n ⟨.openFile name mode, number slot⟩ :=
      DiskEvent.not_closes (by simp) (by simp) _ n
    rw [DiskEvent.opens_openFile_iff, IsOpen, opened?_setHandle]
    by_cases hn : n = number slot
    · simp [hn, number_ne_zero]
    · simp only [hn, hkept, if_false, false_and, false_or, not_false_eq_true, and_true]
      rfl
  | closed m =>
    have hopened : ¬ DiskEvent.Opens n ⟨.close m, ()⟩ := DiskEvent.not_opens (by simp) _ n
    rw [DiskEvent.closes_close_iff, IsOpen, opened?_close]
    by_cases hn : n = m
    · simp [hn, hn ▸ hopened]
    · simp [hn, hopened, IsOpen]
  | absent hc hclose => rw [DiskEvent.opens_or_iff_of_handle? hc hclose]
  | @used _ _ slot h h' tree hc hclose hget =>
    rw [DiskEvent.opens_or_iff_of_handle? hc hclose, IsOpen, opened?_setHandle]
    by_cases hn : n = number slot
    · simp [hn, IsOpen, opened?_number, hget]
    · simp only [hn, if_false]
      rfl
  | entered =>
    rw [DiskEvent.opens_or_iff (by simp) (by simp) (by simp)]
    rfl
  | other hc hopen hdispose =>
    rw [DiskEvent.opens_or_iff hopen (by rintro _ rfl; cases hc) hdispose]
    rfl
  | disposed =>
    have hopened : ¬ DiskEvent.Opens n ⟨.dispose, ()⟩ := DiskEvent.not_opens (by simp) _ n
    simp [IsOpen, opened?_dispose, hopened, DiskEvent.Closes.dispose]

/-- What is open after a history is what it has opened and not closed since. -/
theorem isOpen_answerAll_iff {d : HostedDisk} (hnone : ∀ n, ¬ d.IsOpen n) (calls : List DiskCall)
    (n : Word) :
    (d.answerAll calls).IsOpen n ↔ DiskEvent.Outstanding (d.record calls) n := by
  induction calls using List.reverseRecOn with
  | nil => simpa [answerAll, record, DiskEvent.not_outstanding_nil] using hnone n
  | append_singleton calls c ih =>
    rw [answerAll_concat, record_concat, DiskEvent.outstanding_concat,
      (served_answer c _).isOpen_iff, ih]

theorem not_isOpen_mount {tree : Tree} {root : String} {d : HostedDisk}
    (h : mount tree root = .ok d) (n : Word) :
    ¬ d.IsOpen n := by
  obtain ⟨p, rfl⟩ := mount_eq_ok h
  unfold IsOpen opened?
  cases slot? n <;> simp [Vector.get_eq_getElem]

theorem Served.opened?_of_ne {d d' : HostedDisk} {c : DiskCall} {a : c.Answer} {m n : Word}
    (h : d.Served c a d') (hc : c.handle? = some m) (hne : n ≠ m) : d'.opened? n = d.opened? n := by
  cases h with
  | absent => rfl
  | closed =>
    cases hc
    rw [opened?_close, if_neg hne]
  | used hslot =>
    cases hc.symm.trans hslot
    rw [opened?_setHandle, if_neg hne]
    rfl
  | other hnone => cases hc.symm.trans hnone
  | refused | opened | entered | disposed => cases hc

theorem answer_of_not_isOpen {d : HostedDisk} {c : DiskCall} {n : Word} (hc : c.handle? = some n)
    (h : ¬ d.IsOpen n) : answer c d = (c.absentAnswer, d) := by
  have hnone : d.opened? n = none := by simpa [IsOpen] using h
  by_cases hclose : ∃ m, c = .close m
  · obtain ⟨m, rfl⟩ := hclose
    cases hc
    simp only [answer, close_of_opened?_eq_none hnone]
  · exact answer_of_handle?_eq_none hc (fun m hm => hclose ⟨m, hm⟩) (handle?_eq_none_iff.2 hnone)

/-- Every call on the number changes nothing and says that nothing is there. -/
structure Shut (d : HostedDisk) (n : Word) : Prop where
  close : answer (.close n) d = ((), d)
  read (size : Nat) : answer (.read n size) d = (((0 : Word), List.replicate size 0), d)
  write (data : Bytes) : answer (.write n data) d = ((0 : Word), d)
  seek (offset base : Word) : answer (.seek n offset base) d = ((-1 : Word), d)
  tell : answer (.tell n) d = ((-1 : Word), d)
  atEnd : answer (.atEnd n) d = (true, d)
  rewind : answer (.rewind n) d = ((), d)
  getByte : answer (.getByte n) d = ((-1 : Word), d)
  putByte (byte : Word) : answer (.putByte byte n) d = ((-1 : Word), d)

theorem shut_of_not_isOpen {d : HostedDisk} {n : Word} (h : ¬ d.IsOpen n) : d.Shut n where
  close := answer_of_not_isOpen rfl h
  read _ := answer_of_not_isOpen rfl h
  write _ := answer_of_not_isOpen rfl h
  seek _ _ := answer_of_not_isOpen rfl h
  tell := answer_of_not_isOpen rfl h
  atEnd := answer_of_not_isOpen rfl h
  rewind := answer_of_not_isOpen rfl h
  getByte := answer_of_not_isOpen rfl h
  putByte _ := answer_of_not_isOpen rfl h

theorem firstFree_spec {d : HostedDisk} {slot : Fin handleCount}
    (h : d.handles.findFinIdx? Option.isNone = some slot) :
    d.handles.get slot = none ∧ ∀ slot' < slot, (d.handles.get slot').isSome := by
  have harray : d.handles.toArray.findFinIdx? Option.isNone =
      some (slot.cast d.handles.size_toArray.symm) := by
    rw [Vector.findFinIdx?_toArray, h]
    rfl
  obtain ⟨hfree, hbelow⟩ := Array.findFinIdx?_eq_some_iff.1 harray
  refine ⟨Option.isNone_iff_eq_none.1 hfree, fun slot' hlt => ?_⟩
  have hused := hbelow (slot'.cast d.handles.size_toArray.symm) hlt
  exact Option.isSome_iff_ne_none.2 fun hnone => hused (Option.isNone_iff_eq_none.2 hnone)

theorem leastFree_of_firstFree {d : HostedDisk} {slot : Fin handleCount}
    (h : d.handles.findFinIdx? Option.isNone = some slot) : d.LeastFree (number slot) := by
  obtain ⟨hfree, hbelow⟩ := firstFree_spec h
  obtain ⟨hone, height⟩ := exists_number_iff.1 ⟨slot, rfl⟩
  refine ⟨hone, height, by simp [IsOpen, opened?_number, hfree], fun {m} hm hlt => ?_⟩
  obtain ⟨slot', rfl⟩ := exists_number_iff.2 ⟨hm, Int32.le_trans (Int32.le_of_lt hlt) height⟩
  rw [IsOpen, opened?_number]
  rw [Int32.lt_iff_toInt_lt, toInt_number, toInt_number] at hlt
  exact hbelow slot' (by omega)

theorem firstFree_eq_none {d : HostedDisk} (h : ∀ n, 1 ≤ n → n ≤ 8 → d.IsOpen n) :
    d.handles.findFinIdx? Option.isNone = none := by
  rw [Option.eq_none_iff_forall_not_mem]
  intro slot hslot
  have hleast := leastFree_of_firstFree hslot
  exact hleast.free (h _ hleast.one_le hleast.le_eight)

theorem openFile_refused {d : HostedDisk} {name mode : Bytes}
    (h : (∀ n, 1 ≤ n → n ≤ 8 → d.IsOpen n) ∨ mode.filter (· != 0x62) ∉ OpenMode.texts ∨
      d.resolve? name = none) :
    answer (.openFile name mode) d = ((0 : Word), d) := by
  have hopen : openFile name mode d = .error () d :=
    openFile_eq_error (h.imp firstFree_eq_none (Or.imp_left (OpenMode.ofBytes?_eq_none_iff mode).2))
  simp only [answer, hopen]

theorem encard_isOpen_le (d : HostedDisk) : {n | d.IsOpen n}.encard ≤ 8 := by
  have hsub : {n | d.IsOpen n} ⊆ Set.range number := by
    intro n hn
    obtain ⟨slot, rfl⟩ := IsOpen.exists_number hn
    exact ⟨slot, rfl⟩
  calc {n | d.IsOpen n}.encard ≤ (Set.range number).encard := Set.encard_le_encard hsub
    _ ≤ (Set.univ : Set (Fin handleCount)).encard := by
      rw [← Set.image_univ]
      exact Set.encard_image_le _ _
    _ = 8 := by simp [handleCount]

theorem opened?_openFile {d d' : HostedDisk} {name mode : Bytes} {n : Word}
    (h : answer (.openFile name mode) d = (n, d')) :
    (n = 0 → d' = d) ∧ (n ≠ 0 → d.LeastFree n ∧
      (∃ fresh, d'.opened? n = some fresh ∧ fresh.position = 0 ∧ fresh.atEnd = false) ∧
      ∀ m, m ≠ n → d'.opened? m = d.opened? m) := by
  have hserved : d.Served (.openFile name mode) n d' := by
    simpa only [h] using d.served_openFile name mode
  cases hserved with
  | refused => simp
  | opened hslot =>
    refine ⟨fun hzero => absurd hzero (number_ne_zero _),
      fun _ => ⟨leastFree_of_firstFree hslot, ?_, ?_⟩⟩
    · exact ⟨_, by rw [opened?_setHandle, if_pos rfl], rfl, rfl⟩
    · intro m hm
      rw [opened?_setHandle, if_neg hm]
      rfl
  | absent hc | used hc => cases hc
  | other _ hopen => exact absurd rfl (hopen name mode)

/-- After any history on a mounted disk: the open numbers are those opened and not closed since, at
most eight, from 1 to 8. Opening takes the least free number for a fresh handle, or answers 0 and
leaves no trace; it does so when all numbers are in use, the mode is unknown or the name climbs over
the root. A call on one handle leaves the others alone, and one on a number that is not open finds
nothing and changes nothing. -/
theorem handles_kept {tree : Tree} {root : String} {start : HostedDisk}
    (hmount : mount tree root = .ok start) (calls : List DiskCall) :
    let d := start.answerAll calls
    (∀ n, d.IsOpen n ↔ DiskEvent.Outstanding (start.record calls) n) ∧
    (∀ n, d.IsOpen n → 1 ≤ n ∧ n ≤ 8) ∧ {n | d.IsOpen n}.encard ≤ 8 ∧
    (∀ name mode (n : Word) d', answer (.openFile name mode) d = (n, d') →
      (n = 0 → d' = d) ∧ (n ≠ 0 → d.LeastFree n ∧
        (∃ fresh, d'.opened? n = some fresh ∧ fresh.position = 0 ∧ fresh.atEnd = false) ∧
        ∀ m : Word, m ≠ n → d'.opened? m = d.opened? m)) ∧
    (∀ name mode, (∀ n, 1 ≤ n → n ≤ 8 → d.IsOpen n) ∨ mode.filter (· != 0x62) ∉ OpenMode.texts ∨
      d.resolve? name = none → answer (.openFile name mode) d = ((0 : Word), d)) ∧
    (∀ c m n, c.handle? = some m → n ≠ m → (answer c d).2.opened? n = d.opened? n) ∧
    (∀ n, ¬ d.IsOpen n → d.Shut n) := by
  intro d
  exact ⟨isOpen_answerAll_iff (not_isOpen_mount hmount) calls,
    fun n hn => exists_number_iff.1 hn.exists_number, d.encard_isOpen_le,
    fun _ _ _ _ => opened?_openFile, fun _ _ => openFile_refused,
    fun c _ _ hc hne => (served_answer c d).opened?_of_ne hc hne, fun _ => shut_of_not_isOpen⟩

/-- Three files are opened and the second is closed: its number is the next to be given out, a bad
mode empties no file, writing to the first leaves the third where it is, and the second is not
there. -/
theorem handles_kept_reuse :
    ∃ start, mount .empty "" = .ok start ∧
      let calls : List DiskCall := [.openFile (Gbk.encode "a") (Gbk.encode "wb"),
        .openFile (Gbk.encode "b") (Gbk.encode "w+"), .openFile (Gbk.encode "a") (Gbk.encode "rb"),
        .close 2]
      let d := start.answerAll calls
      DiskEvent.Outstanding (start.record calls) 3 ∧
      ¬ DiskEvent.Outstanding (start.record calls) 2 ∧
      d.LeastFree 2 ∧ answer (.openFile (Gbk.encode "b") (Gbk.encode "w-")) d = ((0 : Word), d) ∧
      (answer (.putByte 65 1) d).2.opened? 3 = d.opened? 3 ∧
      answer (.seek 2 0 0) d = ((-1 : Word), d) := by
  refine ⟨_, rfl, ?_⟩
  intro calls d
  obtain ⟨houtstanding, _, _, hopen, hrefused, hothers, hshut⟩ :=
    handles_kept (show mount .empty "" = .ok _ from rfl) calls
  have htwo : ¬ d.IsOpen 2 := by decide +kernel
  have hthree : d.IsOpen 3 := by decide +kernel
  have hnext : (answer (.openFile (Gbk.encode "b") (Gbk.encode "r")) d).1 = (2 : Word) := by
    decide +kernel
  have hleast :=
    ((hopen (Gbk.encode "b") (Gbk.encode "r") 2 _ (Prod.ext hnext rfl)).2 (by decide)).1
  exact ⟨(houtstanding 3).1 hthree, fun h => htwo ((houtstanding 2).2 h), hleast,
    hrefused _ _ (.inr (.inl (by decide +kernel))), hothers (.putByte 65 1) 1 3 rfl (by decide),
    (hshut 2 htwo).seek 0 0⟩

end HostedDisk
end LavMachine
