import Mathlib
import LavMachine.Disk.Hosted
set_option autoImplicit false

/-!
What calls do to a hosted disk. One inversion says everything that a call can be, with its answer;
what every history of calls keeps is read off from it.
-/
namespace LavMachine

def DiskCall.handle? : DiskCall → Option Word
  | .close handle | .read handle _ | .write handle _ | .seek handle _ _ | .tell handle
  | .atEnd handle | .rewind handle | .getByte handle | .putByte _ handle => some handle
  | .openFile .. | .changeDirectory _ | .makeDirectory _ | .delete _ | .count | .list ..
  | .dispose => none

namespace HostedDisk

def number (slot : Fin handleCount) : Word := Int32.ofNat (slot + 1)

def opened? (d : HostedDisk) (n : Word) : Option Handle := (slot? n).bind d.handles.get

def answerAll (d : HostedDisk) (calls : List DiskCall) : HostedDisk :=
  calls.foldl (fun d c => (answer c d).2) d

theorem answerAll_concat (d : HostedDisk) (calls : List DiskCall) (c : DiskCall) :
    d.answerAll (calls ++ [c]) = (answer c (d.answerAll calls)).2 := by simp [answerAll]

theorem mount_eq_ok {tree : Tree} {root : String} {d : HostedDisk} (h : mount tree root = .ok d) :
    ∃ p, d = { tree, root := p } := by
  unfold mount at h
  split at h
  · cases h
  · cases h
    exact ⟨_, rfl⟩

theorem toInt_number (slot : Fin handleCount) : (number slot).toInt = slot + 1 := by
  have hslot := slot.isLt
  have hcount : handleCount = 8 := rfl
  rw [number, Int32.toInt_ofNat_of_lt (by omega)]
  simp

theorem slot?_eq_some_iff {n : Word} {slot : Fin handleCount} :
    slot? n = some slot ↔ n = number slot := by
  rw [← Int32.toInt_inj, toInt_number]
  by_cases hn : 0 ≤ n.toInt - 1 ∧ n.toInt - 1 < handleCount
  · simp only [slot?, dif_pos hn, Option.some.injEq, Fin.ext_iff]
    omega
  · simp only [slot?, dif_neg hn, reduceCtorEq, false_iff]
    omega

theorem slot?_number (slot : Fin handleCount) : slot? (number slot) = some slot :=
  slot?_eq_some_iff.2 rfl

theorem number_inj {slot slot' : Fin handleCount} : number slot = number slot' ↔ slot = slot' := by
  rw [← slot?_eq_some_iff, slot?_number, Option.some.injEq]

theorem handle?_eq (d : HostedDisk) (n : Word) :
    d.handle? n = (slot? n).bind fun slot => (d.handles.get slot).map fun h => (slot, h) := by
  unfold handle?
  cases slot? n <;> rfl

theorem handle?_eq_none_iff {d : HostedDisk} {n : Word} :
    d.handle? n = none ↔ d.opened? n = none := by
  rw [handle?_eq, opened?]
  cases slot? n <;> simp

theorem handle?_eq_some_iff {d : HostedDisk} {n : Word} {slot : Fin handleCount} {h : Handle} :
    d.handle? n = some (slot, h) ↔ n = number slot ∧ d.handles.get slot = some h := by
  rw [handle?_eq, ← slot?_eq_some_iff]
  cases slot? n with
  | none => simp
  | some slot' =>
    simp only [Option.bind_some, Option.map_eq_some_iff, Prod.mk.injEq, Option.some.injEq]
    constructor
    · rintro ⟨h', hget, rfl, rfl⟩
      exact ⟨rfl, hget⟩
    · rintro ⟨rfl, hget⟩
      exact ⟨h, hget, rfl, rfl⟩

theorem setHandle_self {d : HostedDisk} {slot : Fin handleCount} {h : Option Handle}
    (hget : d.handles.get slot = h) : d.setHandle slot h = d := by
  subst hget
  simp [setHandle, Vector.get]

/-- Everything that a call can be: what it answers and the disk it leaves. -/
inductive Served (d : HostedDisk) : (c : DiskCall) → c.Answer → HostedDisk → Prop where
  | refused {name mode : Bytes} : Served d (.openFile name mode) (0 : Word) d
  | opened {name mode : Bytes} {p : Path} {m : OpenMode} {slot : Fin handleCount}
    {file : Option Nat}
    {tree : Tree} : d.handles.findFinIdx? Option.isNone = some slot → d.resolve? name = some p →
    OpenMode.ofBytes? mode = some m →
    Served d (.openFile name mode) (number slot)
      ({ d with tree }.setHandle slot (some { file, mode := m }))
  | closed (n : Word) : Served d (.close n) () (d.close n)
  | absent {c : DiskCall} {n : Word} :
    c.handle? = some n → (∀ n, c ≠ .close n) → d.opened? n = none →
    Served d c c.absentAnswer d
  | used {c : DiskCall} {a : c.Answer} {slot : Fin handleCount} {h h' : Handle} {tree : Tree} :
    c.handle? = some (number slot) → (∀ n, c ≠ .close n) → d.handles.get slot = some h →
    Served d c a ({ d with tree }.setHandle slot (some h'))
  | entered {name : Bytes} {p : Path} : d.resolve? name = some p →
    Served d (.changeDirectory name) true { d with cwd := p }
  | other {c : DiskCall} {a : c.Answer} {tree : Tree} : c.handle? = none →
    (∀ name mode, c ≠ .openFile name mode) → c ≠ .dispose → Served d c a { d with tree }
  | disposed : Served d .dispose () d.dispose

theorem openNode_fresh {t t' : Tree} {p : Path} {m : OpenMode} {h : Handle}
    (hnode : openNode p m t = .ok h t') : ∃ file, h = { file, mode := m } := by
  unfold openNode at hnode
  split at hnode
  · cases hnode
    exact ⟨_, rfl⟩
  · split at hnode
    · cases hnode
    · cases hnode
      exact ⟨_, rfl⟩
  · split at hnode
    · cases hnode
      exact ⟨_, rfl⟩
    · cases hnode

theorem openNode_refused {t t' : Tree} {p : Path} {m : OpenMode}
    (hnode : openNode p m t = .error () t') :
    t' = t := by
  unfold openNode at hnode
  split at hnode
  · cases hnode
  · split at hnode <;> cases hnode
    rfl
  · split at hnode <;> cases hnode
    rfl

theorem get_bind {α : Type} (k : HostedDisk → Request α) (d : HostedDisk) :
    (get >>= k) d = k d d := rfl

theorem need_bind {α β : Type} {P : EStateM.Result Unit HostedDisk β → Prop} {a : Option α}
    {k : α → Request β} {d : HostedDisk} (hnone : P (.error () d))
    (hsome : ∀ v, a = some v → P (k v d)) : P ((need a >>= k) d) := by
  cases a with
  | none => exact hnone
  | some v => exact hsome v rfl

theorem onTree_eq {α : Type} {x : EStateM Unit Tree α} (hx : ∀ t t', x t = .error () t' → t' = t)
    (d : HostedDisk) :
    onTree x d = .error () d ∨ ∃ a tree, x d.tree = .ok a tree ∧
    onTree x d = .ok a { d with tree } := by
  unfold onTree
  cases hd : x d.tree with
  | ok a tree => exact .inr ⟨a, tree, rfl, rfl⟩
  | error e tree =>
    obtain rfl := hx _ _ hd
    exact .inl rfl

inductive Opening (d : HostedDisk) (name mode : Bytes) :
    EStateM.Result Unit HostedDisk (Path × Nat) → Prop where
  | refused : Opening d name mode (.error () d)
  | opened {p target : Path} {m : OpenMode} {slot : Fin handleCount} {h : Handle} {tree : Tree} :
    d.handles.findFinIdx? Option.isNone = some slot → d.resolve? name = some p →
    OpenMode.ofBytes? mode = some m →
    d.place? p = some target → openNode target m d.tree = .ok h tree →
    Opening d name mode (.ok (p, slot + 1) ({ d with tree }.setHandle slot (some h)))

/-- The tree is touched last, and by a request that is refused there it is left alone as well. -/
theorem opening_openFile (d : HostedDisk) (name mode : Bytes) :
    d.Opening name mode (openFile name mode d) := by
  rw [openFile, get_bind]
  refine need_bind .refused fun slot hslot => ?_
  rw [get_bind]
  refine need_bind .refused fun p hp => need_bind .refused fun m hm => ?_
  rw [get_bind]
  refine need_bind .refused fun target htarget => ?_
  obtain hrefused | ⟨h, tree, hnode, hopened⟩ :=
    onTree_eq (x := openNode target m) (fun _ _ => openNode_refused) d
  · simp only [bind, EStateM.bind, hrefused]
    exact .refused
  · simp only [bind, EStateM.bind, hopened]
    exact .opened hslot hp hm htarget hnode

theorem served_openFile (d : HostedDisk) (name mode : Bytes) :
    d.Served (.openFile name mode) (answer (.openFile name mode) d).1
      (answer (.openFile name mode) d).2 := by
  have hopening := d.opening_openFile name mode
  simp only [answer]
  generalize openFile name mode d = result at hopening
  cases hopening with
  | refused => exact .refused
  | opened hslot hp hm htarget hnode =>
    obtain ⟨file, rfl⟩ := openNode_fresh hnode
    exact .opened hslot hp hm

theorem openFile_eq_error {d : HostedDisk} {name mode : Bytes}
    (h : d.handles.findFinIdx? Option.isNone = none ∨
      OpenMode.ofBytes? mode = none ∨ d.resolve? name = none) :
    openFile name mode d = .error () d := by
  have hopening := d.opening_openFile name mode
  generalize openFile name mode d = result at hopening
  cases hopening with
  | refused => rfl
  | opened hslot hp hm => simp [hslot, hp, hm] at h

/-- A handle in use may have moved, and the tree changed. -/
def Uses (d : HostedDisk) (slot : Fin handleCount) (d' : HostedDisk) : Prop :=
  ∃ tree h, d' = { d with tree }.setHandle slot (some h)

theorem uses_self {d : HostedDisk} {slot : Fin handleCount} {h : Handle}
    (hget : d.handles.get slot = some h) :
    d.Uses slot d := ⟨d.tree, h, (setHandle_self hget).symm⟩

theorem uses_read {d : HostedDisk} {n : Word} {slot : Fin handleCount} {h : Handle}
    (hn : d.handle? n = some (slot, h)) (size : Nat) : d.Uses slot (d.read n size).2 := by
  have hself := uses_self (handle?_eq_some_iff.1 hn).2
  simp only [read, hn]
  split
  · split
    · exact ⟨d.tree, _, rfl⟩
    · exact hself
  · exact hself

theorem uses_write {d : HostedDisk} {n : Word} {slot : Fin handleCount} {h : Handle}
    (hn : d.handle? n = some (slot, h)) (data : Bytes) : d.Uses slot (d.write n data).2 := by
  have hself := uses_self (handle?_eq_some_iff.1 hn).2
  simp only [write, hn]
  split
  · split
    · exact ⟨_, _, rfl⟩
    · exact hself
  · exact hself

theorem uses_seek {d : HostedDisk} {n : Word} {slot : Fin handleCount} {h : Handle}
    (hn : d.handle? n = some (slot, h)) (offset base : Word) :
    d.Uses slot (d.seek n offset base).2 := by
  have hself := uses_self (handle?_eq_some_iff.1 hn).2
  simp only [seek, hn]
  split
  · exact ⟨d.tree, _, rfl⟩
  · exact hself

theorem state_getByte (d : HostedDisk) (n : Word) : (d.getByte n).2 = (d.read n 1).2 := by
  unfold getByte
  split <;> simp_all

theorem uses_answer {d : HostedDisk} {c : DiskCall} {n : Word} {slot : Fin handleCount} {h : Handle}
    (hc : c.handle? = some n) (hclose : ∀ n, c ≠ .close n) (hn : d.handle? n = some (slot, h)) :
    d.Uses slot (answer c d).2 := by
  have hself := uses_self (handle?_eq_some_iff.1 hn).2
  cases c with
  | close n => exact absurd rfl (hclose n)
  | read n size => cases hc; exact uses_read hn size
  | write n data => cases hc; exact uses_write hn data
  | seek n offset base => cases hc; exact uses_seek hn offset base
  | tell n => cases hc; exact hself
  | atEnd n => cases hc; exact hself
  | rewind n => cases hc; exact uses_seek hn 0 0
  | getByte n =>
    cases hc
    rw [answer, state_getByte]
    exact uses_read hn 1
  | putByte byte n => cases hc; exact uses_write hn [byte.lowByte]
  | openFile | changeDirectory | makeDirectory | delete | count | list | dispose => cases hc

/-- A call on a handle that is not open is answered as by an absent disk. -/
theorem answer_of_handle?_eq_none {d : HostedDisk} {c : DiskCall} {n : Word}
    (hc : c.handle? = some n) (hclose : ∀ n, c ≠ .close n) (hn : d.handle? n = none) :
    answer c d = (c.absentAnswer, d) := by
  cases c with
  | read | write | seek | tell | atEnd | rewind | getByte | putByte =>
    cases hc
    simp [answer, read, write, seek, tell, atEnd, getByte, putByte, hn, DiskCall.absentAnswer]
  | close n => exact absurd rfl (hclose n)
  | openFile | changeDirectory | makeDirectory | delete | count | list | dispose => cases hc

theorem served_of_handle? {d : HostedDisk} {c : DiskCall} {n : Word} (hc : c.handle? = some n)
    (hclose : ∀ n, c ≠ .close n) : d.Served c (answer c d).1 (answer c d).2 := by
  cases hn : d.handle? n with
  | none =>
    rw [answer_of_handle?_eq_none hc hclose hn]
    exact .absent hc hclose (handle?_eq_none_iff.1 hn)
  | some found =>
    obtain ⟨slot, h⟩ := found
    obtain ⟨hnumber, hget⟩ := handle?_eq_some_iff.1 hn
    obtain ⟨tree, h', hafter⟩ := uses_answer hc hclose hn
    rw [hafter]
    exact .used (hnumber ▸ hc) hclose hget

theorem served_changeDirectory (d : HostedDisk) (name : Bytes) :
    d.Served (.changeDirectory name) (answer (.changeDirectory name) d).1
      (answer (.changeDirectory name) d).2 := by
  simp only [answer]
  cases hchange : d.changeDirectory? name with
  | none => exact .other rfl (by simp) (by simp)
  | some d' =>
    simp only [changeDirectory?, Option.bind_eq_bind, Option.bind_eq_some_iff] at hchange
    obtain ⟨p, hp, target, _, hd⟩ := hchange
    split at hd
    · cases hd
      exact .entered hp
    · cases hd

theorem tree_of_makeDirectory? {d d' : HostedDisk} {name : Bytes}
    (h : d.makeDirectory? name = some d') :
    ∃ tree, d' = { d with tree } := by
  simp only [makeDirectory?, Option.bind_eq_bind, Option.bind_eq_some_iff] at h
  obtain ⟨p, _, target, _, hd⟩ := h
  split at hd
  · cases hd
    exact ⟨_, rfl⟩
  · cases hd

theorem tree_of_delete? {d d' : HostedDisk} {name : Bytes} (h : d.delete? name = some d') :
    ∃ tree, d' = { d with tree } := by
  simp only [delete?, Option.bind_eq_bind, Option.bind_eq_some_iff] at h
  obtain ⟨p, _, target, _, hd⟩ := h
  split at hd
  · cases hd
    exact ⟨_, rfl⟩
  · cases hd

theorem served_attempt {d : HostedDisk} {c : DiskCall} {changed : Option HostedDisk}
    (hc : c.handle? = none) (hopen : ∀ name mode, c ≠ .openFile name mode) (hdispose : c ≠ .dispose)
    (a : c.Answer) (hchanged : ∀ d', changed = some d' → ∃ tree, d' = { d with tree }) :
    d.Served c a (d.attempt changed).2 := by
  cases changed with
  | none => exact .other hc hopen hdispose
  | some d' =>
    obtain ⟨tree, rfl⟩ := hchanged d' rfl
    exact .other hc hopen hdispose

theorem served_answer (c : DiskCall) (d : HostedDisk) :
    d.Served c (answer c d).1 (answer c d).2 := by
  cases c with
  | openFile name mode => exact d.served_openFile name mode
  | close n => exact .closed n
  | read n | write n | seek n | tell n | atEnd n | rewind n | getByte n | putByte _ n =>
    exact served_of_handle? rfl (by simp)
  | changeDirectory name => exact d.served_changeDirectory name
  | makeDirectory name =>
    exact served_attempt rfl (by simp) (by simp) _ fun _ => tree_of_makeDirectory?
  | delete name => exact served_attempt rfl (by simp) (by simp) _ fun _ => tree_of_delete?
  | count | list => exact .other rfl (by simp) (by simp)
  | dispose => exact .disposed

end HostedDisk
end LavMachine
