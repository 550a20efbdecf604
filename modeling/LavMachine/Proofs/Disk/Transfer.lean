import Mathlib
import LavMachine.Proofs.Disk.Backing
import LavMachine.Proofs.Disk.Handles
import LavMachine.Proofs.Memory.Cells
set_option autoImplicit false

/-!
Reading and writing in blocks and byte by byte. A block may be split anywhere: reading a part and
then the other, or writing them one behind the other, is as good as the whole. So single bytes come
to the same as one block, and so does a loop that asks a host again as long as it gives or takes
less than it was asked to. A host that fails on the way leaves a shorter block, and only then single
bytes may come to something else.
-/
namespace LavMachine

namespace HostedDisk

variable {d : HostedDisk} {n : Word} {slot : Fin handleCount} {h : Handle} {file : Nat}

section Reading

structure ReadsFrom (d : HostedDisk) (n : Word) (slot : Fin handleCount) (h : Handle) (file : Nat) :
    Prop where
  handle : d.handle? n = some (slot, h)
  file : h.file = some file
  readable : h.mode.readable = true

def Readable (d : HostedDisk) (n : Word) : Prop := ∃ slot h file, d.ReadsFrom n slot h file

/-- What is left of a file. -/
def ahead (d : HostedDisk) (h : Handle) (file : Nat) : Bytes :=
  (d.tree.content file).toList.drop h.position

theorem setHandle_setHandle (d : HostedDisk) (slot : Fin handleCount)
    (first second : Option Handle) :
    (d.setHandle slot first).setHandle slot second = d.setHandle slot second := by simp [setHandle]

theorem handle?_setHandle (hn : d.handle? n = some (slot, h)) (h' : Handle) :
    (d.setHandle slot (some h')).handle? n = some (slot, h') :=
  handle?_eq_some_iff.2 ⟨(handle?_eq_some_iff.1 hn).1, by simp [get_setHandle]⟩

theorem ReadsFrom.moved (hr : d.ReadsFrom n slot h file) (position : Nat) (atEnd : Bool) :
    (d.setHandle slot (some { h with position, atEnd })).ReadsFrom n slot
      { h with position, atEnd } file :=
  ⟨handle?_setHandle hr.handle _, hr.file, hr.readable⟩

theorem ReadsFrom.read_eq (hr : d.ReadsFrom n slot h file) (size : Nat) :
    d.read n size = ((d.ahead h file).take size, d.setHandle slot (some { h with
      position := h.position + min size (d.ahead h file).length
      atEnd := h.atEnd || (d.ahead h file).length < size })) := by
  have hdata : ((d.tree.content file).extract h.position (h.position + size)).toList =
      (d.ahead h file).take size := by
    simp [ahead, List.extract_eq_take_drop]
  have hlength : ((d.tree.content file).extract h.position (h.position + size)).size
      = min size (d.ahead h file).length := by
    rw [← Array.length_toList, hdata, List.length_take]
  have hshort : min size (d.ahead h file).length < size ↔ (d.ahead h file).length < size := by omega
  simp only [read, hr.handle, hr.file, hr.readable, if_true, hdata, hlength, hshort]

theorem read_of_not_readable (hn : ¬ d.Readable n) (size : Nat) : d.read n size = ([], d) := by
  unfold read
  split
  · split
    · split
      · exact absurd ⟨_, _, _, ‹_›, ‹_›, ‹_›⟩ hn
      · rfl
    · rfl
  · rfl

theorem ahead_moved (d : HostedDisk) (h : Handle) (file count : Nat) (atEnd : Bool)
    (new : Option Handle) :
    (d.setHandle slot new).ahead
      { h with position := h.position + min count (d.ahead h file).length, atEnd } file
      = (d.ahead h file).drop count := by
  rw [List.drop_eq_drop_min, ahead, ahead, List.drop_drop]
  rfl

theorem read_zero (d : HostedDisk) (n : Word) : d.read n 0 = ([], d) := by
  by_cases hr : d.Readable n
  · obtain ⟨slot, h, file, hr⟩ := hr
    have hget := (handle?_eq_some_iff.1 hr.handle).2
    rw [hr.read_eq]
    simp [setHandle_self hget]
  · exact read_of_not_readable hr 0

theorem read_add (d : HostedDisk) (n : Word) (first second : Nat) :
    d.read n (first + second) =
      ((d.read n first).1 ++ ((d.read n first).2.read n second).1,
        ((d.read n first).2.read n second).2) := by
  by_cases hr : d.Readable n
  · obtain ⟨slot, h, file, hr⟩ := hr
    rw [hr.read_eq (first + second), hr.read_eq first, (hr.moved _ _).read_eq second, ahead_moved,
      setHandle_setHandle, List.take_add, List.length_drop]
    have hposition : h.position + min (first + second) (d.ahead h file).length
        = h.position + min first (d.ahead h file).length +
          min second ((d.ahead h file).length - first) := by omega
    have hshort : (d.ahead h file).length < first + second ↔
        (d.ahead h file).length < first ∨ (d.ahead h file).length - first < second := by omega
    simp only [hposition, hshort, Bool.decide_or, Bool.or_assoc]
  · simp only [read_of_not_readable hr, List.append_nil]

theorem read_after_short {first : Nat} (hshort : (d.read n first).1.length < first) (second : Nat) :
    ((d.read n first).2.read n second).1 = [] := by
  by_cases hr : d.Readable n
  · obtain ⟨slot, h, file, hr⟩ := hr
    rw [hr.read_eq first, List.length_take] at hshort
    rw [hr.read_eq first, (hr.moved _ _).read_eq second, ahead_moved]
    simp only [List.take_eq_nil_iff, List.drop_eq_nil_iff]
    omega
  · simp only [read_of_not_readable hr]

/-- What calls for single bytes answer: the bytes that there are, and -1 from then on. -/
def byteAnswers (data : Bytes) (count : Nat) : List Word :=
  data.map (fun b => Int32.ofNat b.toNat) ++ List.replicate (count - data.length) (-1)

/-- What a host may do when it is asked for up to `size` bytes: it fails, or it gives some of those
that are left, and none only if none are left. A host that `fails` may do so at any time, a steady
one only where nothing can be read. -/
inductive HostReads (fails : Bool) (d : HostedDisk) (n : Word) (size : Nat) :
    Option Bytes → HostedDisk → Prop where
  | failed : fails = true ∨ ¬ d.Readable n → HostReads fails d n size none d
  | given {slot : Fin handleCount} {h : Handle} {file count : Nat} :
    d.ReadsFrom n slot h file → count ≤ size →
    count ≤ (d.ahead h file).length → (count = 0 → d.ahead h file = []) →
    HostReads fails d n size (some ((d.ahead h file).take count))
      (d.setHandle slot (some { h with position := h.position + count }))

def markEnd (d : HostedDisk) (n : Word) : HostedDisk :=
  match d.handle? n with
  | some (slot, h) => d.setHandle slot (some { h with atEnd := true })
  | none => d

/-- Asks the host again until nothing is missing, it fails or it is at the end. -/
inductive Gathers (fails : Bool) (n : Word) : HostedDisk → Nat → Bytes → HostedDisk → Prop where
  | full {d : HostedDisk} : Gathers fails n d 0 [] d
  | failed {d d' : HostedDisk} {size : Nat} : 0 < size → d.HostReads fails n size none d' →
    Gathers fails n d size [] d'
  | ended {d d' : HostedDisk} {size : Nat} : 0 < size → d.HostReads fails n size (some []) d' →
    Gathers fails n d size [] (d'.markEnd n)
  | more {d d' d'' : HostedDisk} {size : Nat} {data rest : Bytes} : 0 < size →
    d.HostReads fails n size (some data) d' → data ≠ [] →
    Gathers fails n d' (size - data.length) rest d'' →
    Gathers fails n d size (data ++ rest) d''

variable {fails : Bool} {size : Nat} {data : Bytes} {d' : HostedDisk}

theorem HostReads.length_le (hhost : d.HostReads fails n size (some data) d') :
    data.length ≤ size := by
  cases hhost with
  | given hr hsize hahead hnone => exact (List.length_take_le ..).trans hsize

theorem HostReads.read_eq (hhost : d.HostReads fails n size (some data) d') :
    d.read n data.length = (data, d') := by
  cases hhost with
  | given hr hsize hahead hnone =>
    rw [List.length_take, Nat.min_eq_left hahead, hr.read_eq, Nat.min_eq_left hahead]
    simp [Nat.not_lt.2 hahead]

theorem HostReads.read_more (hhost : d.HostReads fails n size (some data) d') :
    d.read n size =
      (data ++ (d'.read n (size - data.length)).1, (d'.read n (size - data.length)).2) := by
  have hsplit := d.read_add n data.length (size - data.length)
  rwa [Nat.add_sub_of_le hhost.length_le, hhost.read_eq] at hsplit

theorem HostReads.mono (hhost : d.HostReads false n size (some data) d') {size' : Nat}
    (hsize : size ≤ size') :
    d.HostReads fails n size' (some data) d' := by
  cases hhost with
  | given hr hcount hahead hnone => exact .given hr (hcount.trans hsize) hahead hnone

theorem read_of_hostReads_nil (hpos : 0 < size) (hhost : d.HostReads fails n size (some []) d') :
    d.read n size = ([], d'.markEnd n) := by
  generalize hdata : some ([] : Bytes) = data at hhost
  cases hhost with
  | failed => cases hdata
  | @given slot h file count hr hsize hahead hnone =>
    have hempty : d.ahead h file = [] := by
      simp only [Option.some.injEq, List.nil_eq, List.take_eq_nil_iff] at hdata
      exact hdata.elim hnone id
    have hcount : count = 0 := by simpa [hempty] using hahead
    subst hcount
    rw [hr.read_eq, hempty, markEnd, handle?_setHandle hr.handle]
    simp [setHandle_setHandle, hpos]

/-- The block is read, or the part of it that was there before the host failed. -/
theorem Gathers.read_eq (hgathers : Gathers fails n d size data d') :
    d.read n size = (data, d') ∨ fails = true ∧ data.length < size ∧
    d.read n data.length = (data, d') := by
  induction hgathers with
  | full => exact .inl (read_zero _ _)
  | failed hpos hhost =>
    cases hhost with
    | failed hcause =>
      obtain hfails | hn := hcause
      · exact .inr ⟨hfails, hpos, read_zero _ _⟩
      · exact .inl (read_of_not_readable hn _)
  | ended hpos hhost => exact .inl (read_of_hostReads_nil hpos hhost)
  | @more d _ _ size data rest hpos hhost hsome hrest ih =>
    obtain hall | ⟨hfails, hless, hpart⟩ := ih
    · exact .inl (by rw [hhost.read_more, hall])
    · have hsize := hhost.length_le
      refine .inr ⟨hfails, by rw [List.length_append]; omega, ?_⟩
      rw [List.length_append, read_add, hhost.read_eq]
      simp only [hpart]

theorem hostReads_min (hr : d.ReadsFrom n slot h file) (hpos : 0 < size) :
    d.HostReads fails n size (some ((d.ahead h file).take (min size (d.ahead h file).length)))
      (d.setHandle slot
        (some { h with position := h.position + min size (d.ahead h file).length })) := by
  refine .given hr (Nat.min_le_left ..) (Nat.min_le_right ..) fun hmin => ?_
  rw [← List.length_eq_zero_iff]
  omega

theorem gathers_read (fails : Bool) (d : HostedDisk) (n : Word) (size : Nat) :
    Gathers fails n d size (d.read n size).1 (d.read n size).2 := by
  induction size using Nat.strongRecOn generalizing d with
  | ind size ih =>
    -- with bytes left the host gives at least one of them, so less than `size` are missing then
    obtain rfl | hpos := Nat.eq_zero_or_pos size
    · rw [read_zero]
      exact .full
    by_cases hr : d.Readable n
    · obtain ⟨slot, h, file, hr⟩ := hr
      have hhost : d.HostReads fails n size _ _ := hostReads_min hr hpos
      generalize (d.ahead h file).take (min size (d.ahead h file).length) = data at hhost
      generalize d.setHandle slot _ = d' at hhost
      by_cases hdata : data = []
      · subst hdata
        rw [read_of_hostReads_nil hpos hhost]
        exact .ended hpos hhost
      · have hlength := List.length_pos_iff.2 hdata
        rw [hhost.read_more]
        exact .more hpos hhost hdata (ih (size - data.length) (by omega) d')
    · rw [read_of_not_readable hr]
      exact .failed hpos (.failed (.inr hr))

theorem Gathers.cut (hgathers : Gathers false n d size data d') (hfull : data.length = size)
    {size' : Nat} (hsize : size < size') : Gathers true n d size' data d' := by
  induction hgathers generalizing size' with
  | full => exact .failed hsize (.failed (.inl rfl))
  | failed hpos | ended hpos => exact absurd hfull hpos.ne
  | more hpos hhost hsome hrest ih =>
    rw [List.length_append] at hfull
    have hlength := List.length_pos_iff.2 hsome
    exact .more (by omega) (hhost.mono hsize.le) hsome (ih (by omega) (by omega))

theorem gathers_iff : Gathers false n d size data d' ↔ d.read n size = (data, d') := by
  constructor
  · intro hgathers
    simpa using hgathers.read_eq
  · intro hread
    have hgathers := gathers_read false d n size
    rwa [hread] at hgathers

/-- On a host that may fail the loop reads the block or any part of it. -/
theorem gathers_true_iff : Gathers true n d size data d' ↔
    d.read n size = (data, d') ∨ data.length < size ∧ d.read n data.length = (data, d') := by
  constructor
  · intro hgathers
    simpa using hgathers.read_eq
  · rintro (hread | ⟨hless, hread⟩)
    · have hgathers := gathers_read true d n size
      rwa [hread] at hgathers
    · exact (gathers_iff.2 hread).cut rfl hless

def byteAnswer : Bytes → Word
  | b :: _ => Int32.ofNat b.toNat
  | [] => -1

inductive GetsEach (fails : Bool) (n : Word) :
    HostedDisk → Nat → List Word → HostedDisk → Prop where
  | nil {d : HostedDisk} : GetsEach fails n d 0 [] d
  | cons {d d' d'' : HostedDisk} {count : Nat} {data : Bytes} {answers : List Word} :
    Gathers fails n d 1 data d' →
    GetsEach fails n d' count answers d'' →
    GetsEach fails n d (count + 1) (byteAnswer data :: answers) d''

theorem getByte_eq (d : HostedDisk) (n : Word) :
    d.getByte n = (byteAnswer (d.read n 1).1, (d.read n 1).2) := by
  unfold getByte
  generalize d.read n 1 = answer
  obtain ⟨_ | _, _⟩ := answer <;> rfl

end Reading

section Writing

/-- What stands before `position`, be it content or the zeros of a gap. -/
def lead (content : Array UInt8) (position : Nat) : Bytes :=
  content.toList.take position ++ List.replicate (position - content.size) 0

theorem length_lead (content : Array UInt8) (position : Nat) :
    (lead content position).length = position := by
  simp only [lead, List.length_append, List.length_take, Array.length_toList, List.length_replicate]
  omega

theorem toList_overwrite (content : Array UInt8) (position : Nat) (data : Bytes) :
    (overwrite content position data.toArray).toList =
      lead content position ++ data ++ content.toList.drop (position + data.length) := by
  have htail :
      (content.toList.drop (position + data.length)).take (content.size - (position + data.length))
      = content.toList.drop (position + data.length) := List.take_of_length_le (by simp)
  simp [overwrite, lead, List.extract_eq_take_drop, htail]

theorem size_overwrite_end (content : Array UInt8) (data : Bytes) :
    (overwrite content content.size data.toArray).size = content.size + data.length := by
  rw [← Array.length_toList, toList_overwrite]
  simp [length_lead]

theorem overwrite_append (content : Array UInt8) (position : Nat) (first second : Bytes) :
    overwrite (overwrite content position first.toArray) (position + first.length) second.toArray
      = overwrite content position (first ++ second).toArray := by
  have hlength : (lead content position ++ first).length = position + first.length := by
    simp [length_lead]
  have hlead : lead (overwrite content position first.toArray) (position + first.length)
      = lead content position ++ first := by
    have hsize : position + first.length - (overwrite content position first.toArray).size = 0 := by
      rw [← Array.length_toList, toList_overwrite, List.length_append, hlength]
      omega
    rw [lead, hsize, toList_overwrite, List.take_left' hlength]
    simp
  have htail : (overwrite content position first.toArray).toList.drop
      (position + first.length + second.length)
      = content.toList.drop (position + (first ++ second).length) := by
    rw [toList_overwrite, ← hlength, List.drop_length_add_append, List.drop_drop, hlength,
      List.length_append, Nat.add_assoc]
  apply Array.toList_inj.1
  rw [toList_overwrite, hlead, htail, toList_overwrite, List.append_assoc (lead content position)]

structure WritesTo (d : HostedDisk) (n : Word) (slot : Fin handleCount) (h : Handle) (file : Nat) :
    Prop where
  handle : d.handle? n = some (slot, h)
  file : h.file = some file
  writable : h.mode.writable = true

def Writable (d : HostedDisk) (n : Word) : Prop := ∃ slot h file, d.WritesTo n slot h file

def writePosition (d : HostedDisk) (h : Handle) (file : Nat) : Nat :=
  if h.mode.append then (d.tree.content file).size else h.position

def contentWritten (d : HostedDisk) (h : Handle) (file : Nat) (data : Bytes) : Array UInt8 :=
  overwrite (d.tree.content file) (d.writePosition h file) data.toArray

def written (d : HostedDisk) (slot : Fin handleCount) (h : Handle) (file : Nat) (data : Bytes) :
    HostedDisk :=
  { d with tree := d.tree.setContent file (d.contentWritten h file data) }.setHandle slot
    (some { h with position := d.writePosition h file + data.length })

theorem WritesTo.write_eq (hw : d.WritesTo n slot h file) {data : Bytes} (hdata : data ≠ []) :
    d.write n data = (data.length, d.written slot h file data) := by
  have hsome : data.isEmpty = false := by simpa using hdata
  simp only [write, written, contentWritten, writePosition, hw.handle, hw.file, hw.writable, hsome,
    Bool.not_false, Bool.and_true, if_true]

theorem WritesTo.written (hw : d.WritesTo n slot h file) (data : Bytes) :
    (d.written slot h file data).WritesTo n slot
      { h with position := d.writePosition h file + data.length } file := by
  have hn : { d with tree := d.tree.setContent file (d.contentWritten h file data) }.handle? n =
      some (slot, h) :=
    hw.handle
  exact ⟨handle?_setHandle hn _, hw.file, hw.writable⟩

theorem write_nil (d : HostedDisk) (n : Word) : d.write n [] = (0, d) := by
  unfold write
  split
  · split
    · simp
    · rfl
  · rfl

theorem write_of_not_writable (hn : ¬ d.Writable n) (data : Bytes) : d.write n data = (0, d) := by
  unfold write
  split
  · split
    · split
      · rename_i hwritable
        exact absurd ⟨_, _, _, ‹_›, ‹_›, (Bool.and_eq_true_iff.1 hwritable).1⟩ hn
      · rfl
    · rfl
  · rfl

theorem WritesTo.lt_size (hw : d.WritesTo n slot h file) (hd : d.Backed) :
    file < d.tree.contents.size :=
  hd.handles (handle?_eq_some_iff.1 hw.handle).2 hw.file

theorem content_written (hfile : file < d.tree.contents.size) (data : Bytes) :
    (d.written slot h file data).tree.content file = d.contentWritten h file data :=
  Tree.content_setContent hfile _

/-- What is written next goes behind what has been written, also where writes go to the end. -/
theorem writePosition_written (hfile : file < d.tree.contents.size) (data : Bytes) :
    (d.written slot h file data).writePosition
      { h with position := d.writePosition h file + data.length } file
      = d.writePosition h file + data.length := by
  unfold writePosition
  cases happend : h.mode.append with
  | false => rfl
  | true =>
    -- the end has moved on by what was written there
    simp only [if_true, content_written hfile, contentWritten, writePosition, happend,
      size_overwrite_end]

theorem written_written (hfile : file < d.tree.contents.size) (first second : Bytes) :
    (d.written slot h file first).written slot
      { h with position := d.writePosition h file + first.length } file second
      = d.written slot h file (first ++ second) := by
  rw [written, contentWritten, writePosition_written hfile, content_written hfile, contentWritten,
    overwrite_append]
  simp [written, contentWritten, setHandle, Tree.setContent_setContent, Nat.add_assoc]

theorem write_append (hd : d.Backed) (n : Word) (first second : Bytes) :
    d.write n (first ++ second) = ((d.write n first).1 + ((d.write n first).2.write n second).1,
      ((d.write n first).2.write n second).2) := by
  by_cases hw : d.Writable n
  · obtain ⟨slot, h, file, hw⟩ := hw
    by_cases hfirst : first = []
    · simp [hfirst, write_nil]
    by_cases hsecond : second = []
    · simp [hsecond, write_nil]
    have hboth : first ++ second ≠ [] := by simp [hfirst]
    rw [hw.write_eq hboth, hw.write_eq hfirst, (hw.written first).write_eq hsecond,
      written_written (hw.lt_size hd), List.length_append]
  · simp only [write_of_not_writable hw]

/-- What a host may do when it is given `data` to write: it fails, or it takes some of it. A host
that `fails` may do so at any time, a steady one only where nothing can be written. -/
inductive HostWrites (fails : Bool) (d : HostedDisk) (n : Word) (data : Bytes) :
    Option Nat → HostedDisk → Prop where
  | failed : fails = true ∨ ¬ d.Writable n → HostWrites fails d n data none d
  | taken {slot : Fin handleCount} {h : Handle} {file count : Nat} :
    d.WritesTo n slot h file → 0 < count →
    count ≤ data.length →
    HostWrites fails d n data (some count) (d.written slot h file (data.take count))

/-- Goes on with what the host has not taken until nothing is left or it fails; tells whether all
was taken. -/
inductive Spills (fails : Bool) (n : Word) : HostedDisk → Bytes → Bool → HostedDisk → Prop where
  | all {d : HostedDisk} : Spills fails n d [] true d
  | failed {d d' : HostedDisk} {data : Bytes} : data ≠ [] → d.HostWrites fails n data none d' →
    Spills fails n d data false d'
  | more {d d' d'' : HostedDisk} {data : Bytes} {count : Nat} {whole : Bool} : data ≠ [] →
    d.HostWrites fails n data (some count) d' → Spills fails n d' (data.drop count) whole d'' →
    Spills fails n d data whole d''

variable {fails : Bool} {data : Bytes} {d' : HostedDisk} {whole : Bool}

theorem HostWrites.write_eq {count : Nat} (hhost : d.HostWrites fails n data (some count) d') :
    0 < count ∧ count ≤ data.length ∧ d.write n (data.take count) = (count, d') := by
  cases hhost with
  | taken hw hpos hle =>
    have hlength : (data.take count).length = count := List.length_take_of_le hle
    have hsome : data.take count ≠ [] := List.length_pos_iff.1 (hlength.symm ▸ hpos)
    exact ⟨hpos, hle, by rw [hw.write_eq hsome, hlength]⟩

theorem Spills.write_eq (hd : d.Backed) (hspills : Spills fails n d data whole d') :
    whole = decide ((d.write n data).1 = data.length) ∧ d' = (d.write n data).2 ∨
      fails = true ∧ whole = false ∧ ∃ k < data.length, d' = (d.write n (data.take k)).2 := by
  induction hspills with
  | all => simp [write_nil]
  | @failed d _ data hsome hhost =>
    have hlength := List.length_pos_iff.2 hsome
    cases hhost with
    | failed hcause =>
      obtain hfails | hn := hcause
      · exact .inr ⟨hfails, rfl, 0, hlength, by rw [List.take_zero, write_nil]⟩
      · simp [write_of_not_writable hn, hlength.ne]
  | @more d d' _ data count whole hsome hhost hrest ih =>
    obtain ⟨hpos, hle, hwrite⟩ := hhost.write_eq
    have hd' : d'.Backed := by simpa [hwrite] using hd.write n (data.take count)
    have hsplit (rest : Bytes) : d.write n (data.take count ++ rest) =
        (count + (d'.write n rest).1, (d'.write n rest).2) := by rw [write_append hd, hwrite]
    obtain ⟨rfl, rfl⟩ | ⟨hfails, rfl, k, hk, rfl⟩ := ih hd'
    · have hall := hsplit (data.drop count)
      rw [List.take_append_drop] at hall
      have hcount : count + (d'.write n (data.drop count)).1 = data.length ↔
          (d'.write n (data.drop count)).1 = (data.drop count).length := by
        rw [List.length_drop]
        omega
      exact .inl ⟨by simp only [hall, hcount], by rw [hall]⟩
    · rw [List.length_drop] at hk
      refine .inr ⟨hfails, rfl, count + k, by omega, ?_⟩
      rw [List.take_add, hsplit]

theorem spills_write (fails : Bool) (d : HostedDisk) (n : Word) (data : Bytes) :
    Spills fails n d data (decide ((d.write n data).1 = data.length)) (d.write n data).2 := by
  by_cases hsome : data = []
  · rw [hsome, write_nil]
    exact .all
  by_cases hw : d.Writable n
  · obtain ⟨slot, h, file, hw⟩ := hw
    have hhost : d.HostWrites fails n data _ _ :=
      .taken hw (List.length_pos_iff.2 hsome) (Nat.le_refl _)
    rw [List.take_length] at hhost
    rw [hw.write_eq hsome, decide_eq_true rfl]
    refine .more hsome hhost ?_
    rw [List.drop_length]
    exact .all
  · have hcount : ¬ 0 = data.length := (List.length_pos_iff.2 hsome).ne
    rw [write_of_not_writable hw, decide_eq_false hcount]
    exact .failed hsome (.failed (.inr hw))

theorem spills_take {k : Nat} (hk : k < data.length) (d : HostedDisk) (n : Word) :
    Spills true n d data false (d.write n (data.take k)).2 := by
  have hsome : data ≠ [] := List.length_pos_iff.1 (Nat.zero_lt_of_lt hk)
  have hnone {d : HostedDisk} {data : Bytes} (hsome : data ≠ []) : Spills true n d data false d :=
    .failed hsome (.failed (.inl rfl))
  by_cases hw : d.Writable n
  · obtain rfl | hpos := Nat.eq_zero_or_pos k
    · rw [List.take_zero, write_nil]
      exact hnone hsome
    · obtain ⟨slot, h, file, hw⟩ := hw
      have htaken : data.take k ≠ [] := by simp [hsome, hpos.ne']
      rw [hw.write_eq htaken]
      exact .more hsome (.taken hw hpos hk.le) (hnone (by simpa using hk))
  · rw [write_of_not_writable hw]
    exact hnone hsome

inductive PutsEach (fails : Bool) (n : Word) :
    HostedDisk → List Word → List Word → HostedDisk → Prop where
  | nil {d : HostedDisk} : PutsEach fails n d [] [] d
  | cons {d d' d'' : HostedDisk} {c : Word} {words answers : List Word} {whole : Bool} :
    Spills fails n d [c.lowByte] whole d' → PutsEach fails n d' words answers d'' →
    PutsEach fails n d (c :: words)
      ((if whole then Int32.ofNat c.lowByte.toNat else -1) :: answers) d''

end Writing

/-- A host that fails once tells the two apart: the block ends there, while calls for single bytes
go on. -/
theorem failing_host_splits_read {b c : UInt8} {d' : HostedDisk}
    (hread : d.read n 2 = ([b, c], d')) :
    (∃ after, Gathers true n d 3 [b] after) ∧
    GetsEach true n d 3 (byteAnswers [b] 2 ++ byteAnswers [c] 1) d' := by
  have hfirst : (d.read n 1).1 = [b] ∧ ((d.read n 1).2.read n 1).1 = [c] ∧
      ((d.read n 1).2.read n 1).2 = d' := by
    have hone := d.length_read_le n 1
    have hsplit := hread.symm.trans (d.read_add n 1 1)
    obtain ⟨hdata, hafter⟩ := Prod.ext_iff.1 hsplit
    have hshort : (d.read n 1).1.length < 1 → ((d.read n 1).2.read n 1).1 = [] :=
      fun h => read_after_short h 1
    rcases hbytes : (d.read n 1).1 with _ | ⟨first, _ | _⟩
    · simp [hbytes, hshort] at hdata
    · rw [hbytes] at hdata
      obtain ⟨rfl, hrest⟩ := List.cons.inj hdata
      exact ⟨rfl, hrest.symm, hafter.symm⟩
    · simp [hbytes] at hone
  obtain ⟨hb, hc, rfl⟩ := hfirst
  have hbyte : Gathers true n d 1 [b] (d.read n 1).2 := hb ▸ gathers_read true d n 1
  have hfailed : Gathers true n (d.read n 1).2 1 [] (d.read n 1).2 :=
    .failed Nat.one_pos (.failed (.inl rfl))
  have hnext : Gathers true n (d.read n 1).2 1 [c] ((d.read n 1).2.read n 1).2 :=
    hc ▸ gathers_read true _ n 1
  refine ⟨⟨_, gathers_true_iff.2 (.inr ⟨by simp, Prod.ext hb rfl⟩)⟩, ?_⟩
  exact .cons hbyte (.cons hfailed (.cons hnext .nil))

/-- Likewise a block counts as not written at all, while its first byte has been given back. -/
theorem failing_host_splits_write (hw : d.WritesTo n slot h file) (first second : Word) :
    (∃ after, Spills true n d [first.lowByte, second.lowByte] false after) ∧
      PutsEach true n d [first, second] [Int32.ofNat first.lowByte.toNat, -1]
        (d.written slot h file [first.lowByte]) := by
  have hbyte : Spills true n d [first.lowByte] true (d.written slot h file [first.lowByte]) := by
    simpa [hw.write_eq] using spills_write true d n [first.lowByte]
  have hfailed {d : HostedDisk} : Spills true n d [second.lowByte] false d :=
    .failed (by simp) (.failed (.inl rfl))
  exact ⟨⟨_, spills_take Nat.one_lt_two d n⟩, .cons hbyte (.cons hfailed .nil)⟩

end HostedDisk
end LavMachine
