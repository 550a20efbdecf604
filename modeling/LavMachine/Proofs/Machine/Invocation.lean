import Mathlib
import LavMachine.Proofs.Image
import LavMachine.Proofs.Machine.Command
import LavMachine.Proofs.Memory.Footprint
set_option autoImplicit false

namespace LavMachine

variable {κ φ : Type}

namespace Image

def opcodeAt (i : Image) (offset : Nat) : Option Opcode :=
  (i.bytes[offset]?.bind Instruction.ofByte?).map Instruction.opcode

def announcement (i : Image) : String :=
  let mnemonic := ((i.bytes[i.cursor]?.bind Instruction.ofByte?).map Instruction.mnemonic).getD ""
  s!"offset={i.cursor} op={mnemonic}"

def field (i : Image) (offset width : Nat) : Option Nat :=
  if offset + width ≤ i.bytes.size then
    some (Bytes.toNat (i.bytes.extract offset (offset + width)).toList)
  else none

variable {i : Image} {n : Nat}

theorem take_of_field {width : Nat} (h : i.field i.cursor width = some n) :
    ∃ bytes, take width i = .ok bytes { i with cursor := i.cursor + width } ∧ bytes.length = width ∧
      bytes.toNat = n := by
  unfold field at h
  split at h
  · rename_i hfit
    refine ⟨_, if_pos hfit, ?_, Option.some.inj h⟩
    simp
    omega
  · cases h

theorem target_of_field (h : i.field i.cursor 3 = some n) :
    target i = .ok n { i with cursor := i.cursor + 3 } := by
  obtain ⟨bytes, htake, _, hn⟩ := take_of_field h
  simp only [target, bind, EStateM.bind, htake, pure, EStateM.pure, hn]

theorem address_of_field (h : i.field i.cursor 2 = some n) :
    address i = .ok n { i with cursor := i.cursor + 2 } := by
  obtain ⟨bytes, htake, _, hn⟩ := take_of_field h
  simp only [address, bind, EStateM.bind, htake, pure, EStateM.pure, hn]

theorem byte_of_field (h : i.field i.cursor 1 = some n) :
    ∃ b : UInt8, byte i = .ok b { i with cursor := i.cursor + 1 } ∧ b.toNat = n := by
  obtain ⟨bytes, htake, hlen, hn⟩ := take_of_field h
  obtain ⟨b, rfl⟩ := List.length_eq_one_iff.1 hlen
  refine ⟨b, ?_, by simpa [Bytes.toNat] using hn⟩
  simp only [byte, bind, EStateM.bind, htake, pure, EStateM.pure, List.headD_cons]

theorem byte_of_opcodeAt {op : Opcode} (h : i.opcodeAt i.cursor = some op) :
    ∃ b instruction, byte i = .ok b { i with cursor := i.cursor + 1 } ∧
      Instruction.ofByte? b = some instruction ∧ instruction.opcode = op ∧
      i.announcement = s!"offset={i.cursor} op={instruction.mnemonic}" := by
  unfold opcodeAt at h
  obtain ⟨instruction, hb, hop⟩ := Option.map_eq_some_iff.1 h
  obtain ⟨b, hget, hinstruction⟩ := Option.bind_eq_some_iff.1 hb
  obtain ⟨hlt, rfl⟩ := Array.getElem?_eq_some_iff.1 hget
  refine ⟨_, instruction, ?_, hinstruction, hop, by simp [announcement, hget, hinstruction]⟩
  have hfit : i.cursor + 1 ≤ i.bytes.size := hlt
  simp [byte, bind, EStateM.bind, take, hfit, pure, EStateM.pure, List.head?_take,
    List.head?_drop, hlt]

end Image

namespace Memory

def storeParameters (frame : Nat) (vs : List Word) (m : Memory) : Memory :=
  vs.zipIdx.foldr (fun (v, j) m => m.setLong (frame + 5 + 4 * j) v) m

/-- Saves where the current frame starts and opens one behind it. -/
def openFrame (size : Nat) (vs : List Word) (m : Memory) : Memory :=
  let caller := m.region
  ((m.setInt (caller.limit + 3) (Int32.ofNat caller.start)).setRegion
    ((caller.setStart caller.limit).setLimit (caller.limit + size))).storeParameters caller.limit vs

variable (frame : Nat) (vs : List Word) (m : Memory)

theorem storeParameters_concat (v : Word) : m.storeParameters frame (vs ++ [v]) =
    (m.setLong (frame + 5 + 4 * vs.length) v).storeParameters frame vs := by
  simp [storeParameters, List.zipIdx_append]

theorem writesIn_storeParameters :
    WritesIn (Within (frame + 5) (4 * vs.length)) m (m.storeParameters frame vs) := by
  induction vs using List.reverseRecOn generalizing m with
  | nil => exact .refl m
  | append_singleton vs v ih =>
    rw [storeParameters_concat, List.length_append, List.length_singleton]
    refine WritesIn.trans ((m.writesIn_setBytes _ 4 v).mono fun b hb => ?_)
      ((ih _).mono fun b hb => hb.mono (by omega))
    obtain ⟨i, hi, hb⟩ := hb
    exact ⟨4 * vs.length + i, by omega, by rw [hb, Nat.add_assoc]⟩

variable {frame vs m} in
/-- The slots do not overlap, so a parameter outlasts those that are stored after it. -/
theorem getLong_storeParameters (h : m.Unshared) (hfits : 4 * vs.length ≤ addressSpace) {j : Nat}
    (hj : j < vs.length) : (m.storeParameters frame vs).getLong (frame + 5 + 4 * j) = vs[j] := by
  induction vs using List.reverseRecOn generalizing m with
  | nil => simp at hj
  | append_singleton vs v ih =>
    rw [List.length_append, List.length_singleton] at hj hfits
    have hslot := h.writes (m.writes_setBytes (frame + 5 + 4 * vs.length) 4 v)
    rw [storeParameters_concat]
    obtain hlt | rfl := Nat.lt_succ_iff_lt_or_eq.1 hj
    · rw [List.getElem_append_left hlt]
      exact ih hslot (by omega) hlt
    · have hkept :
          ∀ i < 4, ((m.setLong (frame + 5 + 4 * vs.length) v).storeParameters frame vs).getByte
          (frame + 5 + 4 * vs.length + i) = (m.setLong (frame + 5 + 4 * vs.length) v).getByte
          (frame + 5 + 4 * vs.length + i) := by
        intro i hi
        refine (writesIn_storeParameters frame vs _).getByte_eq hslot fun k hk => ?_
        simp only [addressSpace] at hfits ⊢
        omega
      rw [List.getElem_concat_length rfl, getLong, getBytes, min_self, readBlock_congr hkept]
      exact getLong_setLong h _ v

end Memory

def World.announce (i : Image) (w : World κ φ) : World κ φ :=
  { w with bus := w.bus.log .trace fun _ => i.announcement }

namespace Processor

variable [Keyboard κ] [Disk φ] {i : Image} {s : Stack} {w : World κ φ}

theorem step_eq_of_opcodeAt {op : Opcode} (h : i.opcodeAt i.cursor = some op) :
    step ⟨i, s, w⟩ = (do execute op; return op == .stop : Exec κ φ Bool)
      ⟨{ i with cursor := i.cursor + 1 }, s, w.announce i⟩ := by
  obtain ⟨b, instruction, hbyte, hinstruction, rfl, htext⟩ := Image.byte_of_opcodeAt h
  simp only [step, bind, EStateM.bind, fetch, get, getThe, MonadStateOf.get, EStateM.get, pure,
    EStateM.pure, hbyte, hinstruction, effect, World.log, modify, modifyGet, MonadStateOf.modifyGet,
    EStateM.modifyGet, World.announce, htext]

theorem step_of_unassigned (hlt : i.cursor < i.bytes.size) (h : i.opcodeAt i.cursor = none) :
    ∃ detail, step ⟨i, s, w⟩ = .error { kind := .illegalOpcode, detail } ⟨i.skip 1, s, w⟩ := by
  have hb : Instruction.ofByte? i.bytes[i.cursor] = none := by simpa [Image.opcodeAt, hlt] using h
  have hrest : i.rest = i.bytes[i.cursor] :: i.rest.tail := by
    have hhead : i.rest.head? = some i.bytes[i.cursor] := by simp [Image.rest, List.head?_drop, hlt]
    exact (List.cons_head?_tail hhead).symm
  refine ⟨"0x" ++ hex 2 i.bytes[i.cursor].toNat, ?_⟩
  simp only [step, bind, EStateM.bind, fetch, get, getThe, MonadStateOf.get, EStateM.get, pure,
    EStateM.pure, (Image.rest_eq_cons hrest).1, hb]
  rfl

theorem step_of_size_le (hle : i.bytes.size ≤ i.cursor) :
    step ⟨i, s, w⟩ = .error (Image.pastEnd i.cursor) ⟨i, s, w⟩ := by
  have hlen : ¬ 1 ≤ i.rest.length := by
    rw [Image.length_rest]
    omega
  simp only [step, bind, EStateM.bind, fetch, get, getThe, MonadStateOf.get, EStateM.get, pure,
    EStateM.pure, Image.reads_byte i, if_neg hlen]

theorem step_of_opcodeAt_eq_none (h : i.opcodeAt i.cursor = none) :
    ∃ f p, (f.kind = .endOfImage ∨ f.kind = .illegalOpcode) ∧ step ⟨i, s, w⟩ = .error f p := by
  obtain hlt | hle := Nat.lt_or_ge i.cursor i.bytes.size
  · obtain ⟨detail, hstep⟩ := step_of_unassigned (s := s) (w := w) hlt h
    exact ⟨_, _, .inr rfl, hstep⟩
  · exact ⟨_, _, .inl rfl, step_of_size_le hle⟩

theorem execute_invoke {t : Nat} (h : i.field i.cursor 3 = some t) :
    execute .invoke ⟨i, s, w⟩ = .ok () ⟨{ i with cursor := t }, s,
      { w with memory := w.memory.setOffset w.memory.region.limit (i.cursor + 3) }⟩ := by
  have ht := Image.target_of_field h
  simp only [execute, bind, EStateM.bind, fetch, ht]
  rfl

theorem execute_leave :
    execute .leave ⟨i, s, w⟩ =
      .ok () ⟨{ i with cursor := w.memory.getOffset w.memory.region.start }, s,
      { w with memory := w.memory.setRegion ((Region.zero.setLimit w.memory.region.start).setStart
        (w.memory.getInt (w.memory.region.start + 3)).address) }⟩ := rfl

omit [Keyboard κ] [Disk φ] in
theorem popParameters_append {ws vs : List Word} (h : s.toList = ws ++ vs) :
    ∃ t, (∀ frame i (w : World κ φ), popParameters frame vs.length ⟨i, s, w⟩ =
        .ok () ⟨i, t, { w with memory := w.memory.storeParameters frame vs }⟩) ∧
      t.toList = ws ∧ t.capacity = s.capacity := by
  induction vs using List.reverseRecOn generalizing s with
  | nil => exact ⟨s, fun _ _ _ => rfl, by simpa using h, rfl⟩
  | append_singleton vs v ih =>
    obtain ⟨s', hpop, hs', hcapacity⟩ := Stack.pop_concat (h.trans (List.append_assoc ..).symm)
    obtain ⟨t, hrun, ht, hcapacity'⟩ := ih hs'
    refine ⟨t, fun frame i w => ?_, ht, hcapacity'.trans hcapacity⟩
    simp only [List.length_append, List.length_singleton, popParameters, bind, EStateM.bind, pop,
      onStack, hpop, Memory.storeParameters_concat]
    exact hrun frame i { w with memory := w.memory.setLong (frame + 5 + 4 * vs.length) v }

theorem execute_entry {size : Nat} {ws vs : List Word} (hsize : i.field i.cursor 2 = some size)
    (hcount : i.field (i.cursor + 2) 1 = some vs.length) (hstack : s.toList = ws ++ vs) :
    ∃ t, (∀ w : World κ φ, execute .entry ⟨i, s, w⟩ =
        .ok () ⟨{ i with cursor := i.cursor + 3 }, t,
          { w with memory := w.memory.openFrame size vs }⟩) ∧
      t.toList = ws ∧ t.capacity = s.capacity := by
  have ha := Image.address_of_field hsize
  obtain ⟨b, hb, hlength⟩ := Image.byte_of_field (i := { i with cursor := i.cursor + 2 }) hcount
  obtain ⟨t, hrun, ht⟩ := popParameters_append (κ := κ) (φ := φ) hstack
  refine ⟨t, fun w => ?_, ht⟩
  simp only [execute, enter, bind, EStateM.bind, fetch, ha, hb, hlength, region, effect,
    World.readMemory, get, getThe, MonadStateOf.get, EStateM.get, pure, EStateM.pure, changeMemory,
    setRegion, World.changeMemory, modify, modifyGet, MonadStateOf.modifyGet, EStateM.modifyGet]
  exact hrun _ _ { w with memory := _ }

end Processor

namespace Machine

def region (m : Machine κ φ) : Region := m.world.memory.region

def opcode? (m : Machine κ φ) : Option Opcode :=
  match m.phase with
  | .ready | .running => m.image.bind fun i => i.opcodeAt i.cursor
  | .unloaded | .ended => none

theorem live_of_opcode? {m : Machine κ φ} {op : Opcode} (h : m.opcode? = some op) :
    (m.phase = .ready ∨ m.phase = .running) ∧ ∃ i, m.image = some i ∧
    i.opcodeAt i.cursor = some op := by
  unfold opcode? at h
  cases hphase : m.phase with
  | ready => exact ⟨.inl rfl, Option.bind_eq_some_iff.1 (by rwa [hphase] at h)⟩
  | running => exact ⟨.inr rfl, Option.bind_eq_some_iff.1 (by rwa [hphase] at h)⟩
  | unloaded => simp [hphase] at h
  | ended => simp [hphase] at h

variable [Keyboard κ] [Disk φ] {m : Machine κ φ}

omit [Keyboard κ] [Disk φ] in
theorem opcode?_of_live {op : Opcode} {i : Image} (hlive : m.Live) (himage : m.image = some i)
    (hop : i.opcodeAt i.cursor = some op) : m.opcode? = some op := by
  obtain h | h := hlive <;> simp [opcode?, h, himage, hop]

theorem step_eq_of_opcode? {op : Opcode} {i : Image} (hop : m.opcode? = some op)
    (himage : m.image = some i) :
    m.step = settle i.cursor ((do Processor.execute op; return op == .stop : Exec κ φ Bool)
      ⟨{ i with cursor := i.cursor + 1 }, m.stack, m.world.announce i⟩) := by
  obtain ⟨hlive, i', hi', hop⟩ := live_of_opcode? hop
  obtain rfl : i' = i := Option.some.inj (hi'.symm.trans himage)
  rw [step_eq_settle hlive himage, Processor.step_eq_of_opcodeAt hop]

theorem step_of_opcode? {op : Opcode} {i : Image} (hop : m.opcode? = some op)
    (himage : m.image = some i) :
    ∃ bus, m.step = settle i.cursor ((do Processor.execute op; return op == .stop : Exec κ φ Bool)
      ⟨{ i with cursor := i.cursor + 1 }, m.stack, { m.world with bus }⟩) :=
  ⟨_, step_eq_of_opcode? hop himage⟩

theorem opcode?_of_step (h : m.step.1 = .ok ()) :
    ∃ op i, m.opcode? = some op ∧ m.image = some i := by
  cases m.step_cases with
  | unloaded _ hstep | ended _ hstep | detached _ _ hstep =>
    rw [hstep] at h
    cases h
  | live i hlive himage hstep =>
    cases hop : i.opcodeAt i.cursor with
    | some op => exact ⟨op, i, opcode?_of_live hlive himage hop, himage⟩
    | none =>
      obtain ⟨f, p, _, herror⟩ :=
        Processor.step_of_opcodeAt_eq_none (s := m.stack) (w := m.world) hop
      rw [hstep, herror] at h
      cases h

/-- The next step succeeds and the program goes on so. -/
structure GoesOn (m : Machine κ φ) (i : Image) (s : Stack) (n : Memory) : Prop where
  result : m.step.1 = .ok ()
  phase : m.step.2.phase = .running
  image : m.step.2.image = some i
  stack : m.step.2.stack = s
  memory : m.step.2.world.memory = n

theorem goesOn_of_execute {i j : Image} {s : Stack} {n : Memory} {op : Opcode}
    (hop : m.opcode? = some op) (himage : m.image = some i) (hstop : op ≠ .stop)
    (h : ∀ w : World κ φ, w.memory = m.world.memory →
      Processor.execute op ⟨{ i with cursor := i.cursor + 1 }, m.stack, w⟩ =
      .ok () ⟨j, s, { w with memory := n }⟩) :
    m.GoesOn j s n := by
  obtain ⟨bus, hstep⟩ := step_of_opcode? hop himage
  have hexecute := h { m.world with bus } rfl
  have hsettle :
      m.step = settle i.cursor (.ok false ⟨j, s, { m.world with bus, memory := n }⟩) := by
    rw [hstep]
    simp only [bind, EStateM.bind, hexecute, pure, EStateM.pure, beq_eq_false_iff_ne.2 hstop]
  constructor <;> rw [hsettle] <;> rfl

theorem goesOn_invoke {i : Image} {t : Nat} (hop : m.opcode? = some .invoke)
    (himage : m.image = some i) (htarget : i.field (i.cursor + 1) 3 = some t) :
    m.GoesOn { i with cursor := t } m.stack
      (m.world.memory.setOffset m.region.limit (i.cursor + 4)) :=
  goesOn_of_execute hop himage (by decide) fun w hw => by
    rw [Processor.execute_invoke (i := { i with cursor := i.cursor + 1 }) htarget, region, hw]

theorem goesOn_leave {i : Image} (hop : m.opcode? = some .leave) (himage : m.image = some i) :
    m.GoesOn { i with cursor := m.world.memory.getOffset m.region.start } m.stack
      (m.world.memory.setRegion ((Region.zero.setLimit m.region.start).setStart
        (m.world.memory.getInt (m.region.start + 3)).address)) :=
  goesOn_of_execute hop himage (by decide) fun w hw => by
    rw [Processor.execute_leave, region, hw]

theorem goesOn_openFrame {i : Image} {size : Nat} {ws vs : List Word}
    (hop : m.opcode? = some .entry) (himage : m.image = some i)
    (hsize : i.field (i.cursor + 1) 2 = some size)
    (hcount : i.field (i.cursor + 3) 1 = some vs.length) (hstack : m.stack.toList = ws ++ vs) :
    ∃ s, m.GoesOn { i with cursor := i.cursor + 4 } s (m.world.memory.openFrame size vs) ∧
      s.toList = ws ∧
      s.capacity = m.stack.capacity := by
  obtain ⟨s, hrun, hs⟩ :=
    Processor.execute_entry (κ := κ) (φ := φ) (i := { i with cursor := i.cursor + 1 })
      hsize hcount hstack
  exact ⟨s, goesOn_of_execute hop himage (by decide) fun w hw => by rw [hrun, hw], hs⟩

theorem goesOn_entry {i : Image} {size count : Nat} (hop : m.opcode? = some .entry)
    (himage : m.image = some i) (hsize : i.field (i.cursor + 1) 2 = some size)
    (hcount : i.field (i.cursor + 3) 1 = some count) (hwords : count ≤ m.stack.depth) :
    let saved := m.world.memory.setInt (m.region.limit + 3) (Int32.ofNat m.region.start)
    ∃ s n, m.GoesOn { i with cursor := i.cursor + 4 } s n ∧
      (saved.setRegion
        ((m.region.setStart m.region.limit).setLimit (m.region.limit + size))).Writes n ∧
      (m.world.memory.Unshared → ∀ b, Memory.Outside (m.region.limit + 5) (4 * count) b →
        n.getByte b = saved.getByte b) := by
  intro saved
  rw [← Stack.length_toList] at hwords
  obtain ⟨ws, vs, hstack, rfl⟩ := Stack.exists_append hwords
  obtain ⟨s, hgoes, -⟩ := goesOn_openFrame hop himage hsize hcount hstack
  have hwrites := Memory.writesIn_storeParameters m.region.limit vs
    (saved.setRegion ((m.region.setStart m.region.limit).setLimit (m.region.limit + size)))
  exact ⟨s, _, hgoes, hwrites.writes, fun hshare _ =>
    hwrites.getByte_eq ((hshare.writes (m.world.memory.writes_setBytes _ _ _)).setRegion _)⟩

end Machine
end LavMachine
