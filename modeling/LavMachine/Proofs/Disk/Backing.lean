import Mathlib
import LavMachine.Proofs.Disk.Calls
set_option autoImplicit false

namespace LavMachine

namespace Tree

def Filed (t : Tree) : Prop := ∀ p file, (p, Node.file file) ∈ t.nodes → file < t.contents.size

variable {t : Tree}

theorem size_setContent (t : Tree) (file : Nat) (data : Array UInt8) :
    (t.setContent file data).contents.size = t.contents.size := by simp [setContent]

theorem content_setContent {file : Nat} (hfile : file < t.contents.size) (data : Array UInt8) :
    (t.setContent file data).content file = data := by
  simp [content, setContent, hfile]

theorem setContent_setContent (t : Tree) (file : Nat) (first second : Array UInt8) :
    (t.setContent file first).setContent file second = t.setContent file second := by
  simp [setContent]

theorem Filed.setContent (ht : t.Filed) (file : Nat) (data : Array UInt8) :
    (t.setContent file data).Filed := by
  intro p other hmem
  rw [size_setContent]
  exact ht p other hmem

theorem Filed.addFile (ht : t.Filed) (p : Path) (data : Array UInt8) :
    (t.addFile p data).1.Filed := by
  intro q other hmem
  simp only [Tree.addFile, List.mem_append, List.mem_singleton, Prod.mk.injEq, Node.file.injEq,
    Array.size_push]
    at hmem ⊢
  obtain hmem | ⟨-, rfl⟩ := hmem
  · exact Nat.lt_succ_of_lt (ht q other hmem)
  · exact Nat.lt_succ_self _

theorem Filed.addDirectory (ht : t.Filed) (p : Path) : (t.addDirectory p).Filed := by
  intro q other hmem
  simp only [Tree.addDirectory, List.mem_append, List.mem_singleton, Prod.mk.injEq, reduceCtorEq,
    and_false, or_false]
    at hmem
  exact ht q other hmem

theorem Filed.remove (ht : t.Filed) (p : Path) : (t.remove p).Filed :=
  fun q other hmem => ht q other (List.mem_of_mem_filter hmem)

theorem Filed.lt_of_node? (ht : t.Filed) {p : Path} {file : Nat}
    (h : t.node? p = some (.file file)) :
    file < t.contents.size := by
  unfold node? at h
  split at h
  · cases h
  · obtain ⟨before, after, hnodes, -⟩ := List.lookup_eq_some_iff.1 h
    exact ht p file (by simp [hnodes])

end Tree

namespace HostedDisk

/-- Every file that can be reached has its content, be it by name or by a handle. -/
structure Backed (d : HostedDisk) : Prop where
  tree : d.tree.Filed
  handles {slot : Fin handleCount} {h : Handle} {file : Nat} :
    d.handles.get slot = some h → h.file = some file → file < d.tree.contents.size

variable {d : HostedDisk} {n : Word} {slot : Fin handleCount} {h : Handle} {file : Nat}

theorem get_setHandle (d : HostedDisk) (slot other : Fin handleCount) (new : Option Handle) :
    (d.setHandle slot new).handles.get other = if other = slot then new
      else d.handles.get other := by
  simp only [setHandle, Vector.get_eq_getElem, Vector.getElem_set, Fin.ext_iff]
  simp only [eq_comm]

theorem Backed.setHandle (hd : d.Backed) (slot : Fin handleCount) {new : Option Handle}
    (hnew : ∀ h file, new = some h → h.file = some file → file < d.tree.contents.size) :
    (d.setHandle slot new).Backed where
  tree := hd.tree
  handles {other h file} hget hfile := by
    rw [get_setHandle] at hget
    split at hget
    · exact hnew h file hget hfile
    · exact hd.handles hget hfile

theorem Backed.moved (hd : d.Backed) (hn : d.handle? n = some (slot, h)) (position : Nat)
    (atEnd : Bool) :
    (d.setHandle slot (some { h with position, atEnd })).Backed := by
  refine hd.setHandle slot fun h' file hnew hfile => ?_
  cases hnew
  exact hd.handles (handle?_eq_some_iff.1 hn).2 hfile

theorem Backed.withTree (hd : d.Backed) {tree : Tree} (htree : tree.Filed)
    (hsize : d.tree.contents.size ≤ tree.contents.size) : { d with tree }.Backed where
  tree := htree
  handles hget hfile := Nat.lt_of_lt_of_le (hd.handles hget hfile) hsize

theorem filed_openNode {t tree : Tree} {p : Path} {mode : OpenMode} {h : Handle} (ht : t.Filed)
    (hnode : openNode p mode t = .ok h tree) :
    tree.Filed ∧ t.contents.size ≤ tree.contents.size ∧ ∀ file, h.file = some file →
    file < tree.contents.size := by
  unfold openNode at hnode
  split at hnode
  · rename_i file hfile
    have hlt := ht.lt_of_node? hfile
    cases hnode
    split
    · refine ⟨ht.setContent _ _, by rw [Tree.size_setContent], fun other hother => ?_⟩
      cases hother
      rwa [Tree.size_setContent]
    · refine ⟨ht, Nat.le_refl _, fun other hother => ?_⟩
      cases hother
      exact hlt
  · split at hnode
    · cases hnode
    · cases hnode
      exact ⟨ht, Nat.le_refl _, fun _ hother => by cases hother⟩
  · split at hnode
    · cases hnode
      refine ⟨ht.addFile _ _, by simp, fun other hother => ?_⟩
      cases hother
      simp
    · cases hnode

theorem Backed.openFile (hd : d.Backed) (name mode : Bytes) :
    (answer (.openFile name mode) d).2.Backed := by
  have hopening := d.opening_openFile name mode
  simp only [answer]
  generalize HostedDisk.openFile name mode d = result at hopening
  cases hopening with
  | refused => exact hd
  | opened _ _ _ _ hnode =>
    obtain ⟨htree, hsize, hfile⟩ := filed_openNode hd.tree hnode
    refine (hd.withTree htree hsize).setHandle _ fun h' file hnew hfile' => ?_
    cases hnew
    exact hfile file hfile'

theorem Backed.read (hd : d.Backed) (n : Word) (size : Nat) : (d.read n size).2.Backed := by
  unfold HostedDisk.read
  split
  · rename_i hn
    split
    · split
      · exact hd.moved hn _ _
      · exact hd
    · exact hd
  · exact hd

theorem Backed.write (hd : d.Backed) (n : Word) (data : Bytes) : (d.write n data).2.Backed := by
  unfold HostedDisk.write
  split
  · rename_i slot h hn
    split
    · rename_i file _
      split
      · have hset :=
          fun content => hd.withTree (hd.tree.setContent file content) (Tree.size_setContent ..).ge
        exact (hset _).moved hn _ _
      · exact hd
    · exact hd
  · exact hd

theorem Backed.seek (hd : d.Backed) (n offset base : Word) : (d.seek n offset base).2.Backed := by
  unfold HostedDisk.seek
  split
  · rename_i hn
    split
    · exact hd.moved hn _ _
    · exact hd
  · exact hd

theorem Backed.close (hd : d.Backed) (n : Word) : (d.close n).Backed := by
  unfold HostedDisk.close
  split
  · exact hd.setHandle _ fun h file hnew => by cases hnew
  · exact hd

theorem Backed.attempt (hd : d.Backed) {changed : Option HostedDisk}
    (hchanged : ∀ d', changed = some d' → d'.Backed) :
    (d.attempt changed).2.Backed := by
  cases changed with
  | none => exact hd
  | some d' => exact hchanged d' rfl

theorem Backed.makeDirectory (hd : d.Backed) (name : Bytes) :
    (answer (.makeDirectory name) d).2.Backed := by
  refine hd.attempt fun d' hchanged => ?_
  simp only [makeDirectory?, Option.bind_eq_bind, Option.bind_eq_some_iff] at hchanged
  obtain ⟨p, -, target, -, hfree⟩ := hchanged
  split at hfree
  · cases hfree
    exact hd.withTree (hd.tree.addDirectory target) (Nat.le_refl _)
  · cases hfree

theorem Backed.delete (hd : d.Backed) (name : Bytes) : (answer (.delete name) d).2.Backed := by
  refine hd.attempt fun d' hchanged => ?_
  simp only [delete?, Option.bind_eq_bind, Option.bind_eq_some_iff] at hchanged
  obtain ⟨p, -, target, -, hnode⟩ := hchanged
  split at hnode
  · cases hnode
    exact hd.withTree (hd.tree.remove target) (Nat.le_refl _)
  · cases hnode

theorem Backed.changeDirectory (hd : d.Backed) (name : Bytes) :
    (answer (.changeDirectory name) d).2.Backed := by
  refine hd.attempt fun d' hchanged => ?_
  simp only [changeDirectory?, Option.bind_eq_bind, Option.bind_eq_some_iff] at hchanged
  obtain ⟨p, -, target, -, hdirectory⟩ := hchanged
  split at hdirectory
  · cases hdirectory
    exact ⟨hd.tree, hd.handles⟩
  · cases hdirectory

theorem Backed.dispose (hd : d.Backed) : d.dispose.Backed where
  tree := hd.tree
  handles hget _ := by simp [HostedDisk.dispose, Vector.get] at hget

theorem Backed.answer (hd : d.Backed) (c : DiskCall) : (answer c d).2.Backed := by
  cases c with
  | openFile name mode => exact hd.openFile name mode
  | close n => exact hd.close n
  | read n size => exact hd.read n size
  | write n data => exact hd.write n data
  | seek n offset base => exact hd.seek n offset base
  | rewind n => exact hd.seek n 0 0
  | getByte n =>
    rw [HostedDisk.answer, state_getByte]
    exact hd.read n 1
  | putByte byte n => exact hd.write n [byte.lowByte]
  | changeDirectory name => exact hd.changeDirectory name
  | makeDirectory name => exact hd.makeDirectory name
  | delete name => exact hd.delete name
  | dispose => exact hd.dispose
  | tell | atEnd | count | list => exact hd

end HostedDisk
end LavMachine
