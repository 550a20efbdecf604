import Mathlib
import LavMachine.Proofs.Machine.Lifecycle
set_option autoImplicit false

/-!
Which fault a step ends in, and where in the image it is reported. An instruction fetches its
operands one after the other, and the first fetch that goes past the end of the image is the one
that is reported, at the offset where it was tried. Every other fault of a program is reported at
the opcode.
-/
namespace LavMachine

variable {κ φ α β : Type}

/-- The widths of the fetches that an instruction tries behind its opcode, in their order. An index
is popped before the operand is fetched. -/
def Opcode.fetches : Opcode → Bytes → List Word → List Nat
  | .push w, _, _ => [w.bytes]
  | .cell place _, _, words => if place.indexed ∧ words = [] then [] else [2]
  | .immediate _, _, _ | .mark, _, _ => [2]
  | .branch _, _, _ | .jump, _, _ | .invoke, _, _ => [3]
  | .entry, _, _ => [2, 1]
  | .intern, bytes, _ => List.replicate (Image.literalSize bytes) 1
  | .dataInit, bytes, _ => 2 :: 2 :: List.replicate (Bytes.toNat ((bytes.drop 2).take 2)) 1
  | _, _, _ => []

namespace Image

/-- Of fetches that follow one another, the first that goes past the end: its offset and its
width. -/
def missing? (size : Nat) : (offset : Nat) → List Nat → Option (Nat × Nat)
  | _, [] => none
  | offset, width :: widths =>
    if offset + width ≤ size then missing? size (offset + width) widths else some (offset, width)

theorem bounds_of_missing? {size offset q n : Nat} {widths : List Nat}
    (h : missing? size offset widths = some (q, n)) : offset ≤ q ∧ size < q + n := by
  induction widths generalizing offset with
  | nil => cases h
  | cons width widths ih =>
    simp only [missing?] at h
    split at h
    · have hq := ih h
      omega
    · cases h
      omega

theorem sum_le_of_missing?_eq_none {i : Image} {widths : List Nat}
    (h : missing? i.bytes.size i.cursor widths = none) : widths.sum ≤ i.rest.length := by
  -- When nothing is fetched the offset may lie past the end.
  have hbound (offset : Nat) (h : missing? i.bytes.size offset widths = none) :
      widths = [] ∨ offset + widths.sum ≤ i.bytes.size := by
    clear * - h
    induction widths generalizing offset with
    | nil => exact .inl rfl
    | cons width widths ih =>
      simp only [missing?] at h
      split at h
      · obtain rfl | hsum := ih _ h
        · simpa
        · rw [List.sum_cons]
          omega
      · cases h
  rw [length_rest]
  obtain rfl | hsum := hbound i.cursor h
  · simp
  · omega

theorem missing?_replicate (i : Image) (count : Nat) :
    missing? i.bytes.size i.cursor (List.replicate count 1) =
      if count ≤ i.rest.length then none else some (i.cursor + i.rest.length, 1) := by
  induction count generalizing i with
  | zero => simp [missing?]
  | succ count ih =>
    have hnext := ih (i.skip 1)
    simp only [skip, length_rest, List.replicate_succ, missing?] at hnext ⊢
    by_cases hfit : i.cursor + 1 ≤ i.bytes.size
    · rw [if_pos hfit, hnext]
      grind
    · grind

end Image

namespace Processor

variable {i : Image} {s : Stack} {w : World κ φ} {widths : List Nat}

/-- When one of the fetches goes past the end, the first that does is reported. -/
def Misses (widths : List Nat) (i : Image) (r : EStateM.Result Fault (Processor κ φ) α) : Prop :=
  ∀ q n, Image.missing? i.bytes.size i.cursor widths = some (q, n) →
    ∃ p, r = .error (Image.pastEnd q) p

namespace Misses

theorem nil (r : EStateM.Result Fault (Processor κ φ) α) : Misses [] i r := by
  rintro q n ⟨⟩

theorem fetch {f : Image.Fetch β} {value : Bytes → β} {n : Nat} (hf : Image.Reads n f value)
    (hn : 0 < n) {k : β → Exec κ φ α}
    (hk : Misses widths (i.skip n) (k (value (i.rest.take n)) ⟨i.skip n, s, w⟩)) :
    Misses (n :: widths) i ((Processor.fetch f >>= k) ⟨i, s, w⟩) := by
  intro q width h
  have hlen := i.length_rest
  simp only [bind, EStateM.bind, Processor.fetch, hf i]
  simp only [Image.missing?] at h
  split at h
  · rw [if_pos (by omega)]
    exact hk q width h
  · cases h
    rw [if_neg (by omega)]
    exact ⟨_, rfl⟩

theorem effect {x : Effect κ φ β} (hx : ∀ w, ∃ b v, x w = .ok b v) {k : β → Exec κ φ α}
    (hk : ∀ b v, Misses widths i (k b ⟨i, s, v⟩)) :
    Misses widths i ((Processor.effect x >>= k) ⟨i, s, w⟩) := by
  obtain ⟨b, v, h⟩ := hx w
  simp only [bind, EStateM.bind, Processor.effect, h]
  exact hk b v

theorem take {x : Stack.Op β} {b : β} {t : Stack} (hx : x s = .ok b t) {k : β → Exec κ φ α}
    (hk : Misses widths i (k b ⟨i, t, w⟩)) : Misses widths i ((onStack x >>= k) ⟨i, s, w⟩) := by
  simpa only [bind, EStateM.bind, onStack, hx] using hk

end Misses

theorem misses_literal {k : Bytes → Exec κ φ α} :
    Misses (List.replicate (Image.literalSize i.rest) 1) i
      ((fetch Image.literal >>= k) ⟨i, s, w⟩) := by
  intro q n h
  rw [Image.missing?_replicate] at h
  split at h
  · cases h
  · rename_i hshort
    cases h
    simp only [bind, EStateM.bind, fetch, Image.literal_eq i, if_neg hshort]
    exact ⟨_, rfl⟩

theorem misses_copyData (a count : Nat) :
    Misses (List.replicate count 1) i ((copyData a count : Exec κ φ Unit) ⟨i, s, w⟩) := by
  induction count generalizing i a w with
  | zero => exact .nil _
  | succ count ih =>
    exact .fetch Image.reads_byte (by decide) (.effect (fun _ => ⟨_, _, rfl⟩) fun _ _ => ih _)

theorem misses_effectiveAddress {place : Place} {use : CellUse} {k : Nat → Exec κ φ α} :
    Misses ((Opcode.cell place use).fetches i.rest s.toList) i
      ((effectiveAddress place >>= k) ⟨i, s, w⟩) := by
  simp only [Opcode.fetches, effectiveAddress]
  by_cases hindexed : place.indexed
  · simp only [hindexed, if_true, true_and]
    by_cases hnil : s.toList = []
    · rw [if_pos hnil]
      exact .nil _
    · obtain ⟨ws, index, hs⟩ := Stack.exists_concat hnil
      obtain ⟨t, hpop, _⟩ := Stack.pop_concat hs
      rw [if_neg hnil, bind_assoc]
      refine .take hpop ?_
      rw [bind_assoc]
      exact .fetch Image.reads_int16 (by decide) (.nil _)
  · simp only [hindexed, Bool.false_eq_true, if_false, false_and, pure_bind, bind_assoc]
    exact .fetch Image.reads_int16 (by decide) (.nil _)

theorem misses_execute [Keyboard κ] [Disk φ] (op : Opcode) :
    Misses (op.fetches i.rest s.toList) i (execute op ⟨i, s, w⟩) := by
  cases op with
  | push width =>
    cases width with
    | char =>
      simp only [execute, literal, bind_assoc]
      exact .fetch Image.reads_byte (by decide) (.nil _)
    | int =>
      simp only [execute, literal, bind_assoc]
      exact .fetch Image.reads_int16 (by decide) (.nil _)
    | long => exact .fetch Image.reads_int32 (by decide) (.nil _)
  | cell place use => exact misses_effectiveAddress
  | intern => exact misses_literal
  | immediate op => exact .fetch Image.reads_int16 (by decide) (.nil _)
  | branch onZero => exact .fetch Image.reads_target (by decide) (.nil _)
  | jump => exact .fetch Image.reads_target (by decide) (.nil _)
  | mark => exact .fetch Image.reads_address (by decide) (.nil _)
  | invoke => exact .fetch Image.reads_target (by decide) (.nil _)
  | entry =>
    -- The caller's frame is saved before anything is fetched, and that cannot fail.
    refine .effect (fun _ => ⟨_, _, rfl⟩) fun _ _ => .effect (fun _ => ⟨_, _, rfl⟩) fun _ _ => ?_
    exact .fetch Image.reads_address (by decide) (.fetch Image.reads_byte (by decide) (.nil _))
  | dataInit =>
    refine .fetch Image.reads_address (by decide) (.fetch Image.reads_address (by decide) ?_)
    rw [Image.rest_skip]
    exact misses_copyData _ _
  | nop | base | unary | binary | increment | store | dereference | makeReference | drop | leave
  | stop | invalid | printf | sprintf | call => exact .nil _

theorem cell_of_nil [Keyboard κ] [Disk φ] {place : Place} (hindexed : place.indexed)
    (hnil : s.toList = []) (use : CellUse) :
    execute (.cell place use) ⟨i, s, w⟩ = .error Stack.underflow ⟨i, s, w⟩ := by
  simp only [execute, effectiveAddress, hindexed, if_true, bind, EStateM.bind, pop, onStack,
    Stack.pop_nil hnil]

end Processor

theorem Opcode.sum_fetches (op : Opcode) (bytes : Bytes) (words : List Word) :
    (op.fetches bytes words).sum = op.operandSize bytes ∨ ∃ place use, op = .cell place use ∧
    place.indexed ∧ words = [] := by
  cases op with
  | cell place use =>
    by_cases h : place.indexed ∧ words = []
    · exact .inr ⟨place, use, rfl, h⟩
    · exact .inl (by simp [fetches, operandSize, h])
  | dataInit =>
    simp [fetches, operandSize]
    omega
  | _ => simp [fetches, operandSize]

namespace Processor

variable [Keyboard κ] [Disk φ] {i : Image} {s : Stack} {w : World κ φ}

theorem unlocated_of_execute {op : Opcode} {f : Fault} {p : Processor κ φ}
    (hfetches : Image.missing? i.bytes.size i.cursor (op.fetches i.rest s.toList) = none)
    (h : execute op ⟨i, s, w⟩ = .error f p) :
    f.offset = none ∧ f.kind ≠ .endOfImage ∧ (f.kind = .illegalOpcode ↔ op = .invalid) ∧
      (f.kind = .unimplemented ↔ op = .call .fillArea) := by
  by_cases hinvalid : op = .invalid
  · subst hinvalid
    cases h
    simp
  by_cases hfill : op = .call .fillArea
  · subst hfill
    cases h
    simp
  obtain hsum | ⟨place, use, rfl, hindexed, hnil⟩ := op.sum_fetches i.rest s.toList
  · have hmeets := meets_execute (i := i) (s := s) (w := w) op hinvalid hfill
    rw [h] at hmeets
    cases hmeets with
    | pastEnd hend =>
      have hfits := Image.sum_le_of_missing?_eq_none hfetches
      rw [hsum] at hfits
      exact absurd hend (Nat.not_lt.2 hfits)
    | underflow | overflow => simp [Stack.underflow, Stack.overflow, hinvalid, hfill]
    | @refused e => cases e <;> simp [DeviceFailure.fault, hinvalid, hfill]
  · rw [cell_of_nil hindexed hnil] at h
    cases h
    simp [Stack.underflow]

theorem step_of_execute {op : Opcode} (h : i.opcodeAt i.cursor = some op) :
    ∃ text, let r := execute op ⟨i.skip 1, s, { w with bus := w.bus.log .trace text }⟩
      (∀ p, r = .ok () p → step ⟨i, s, w⟩ = .ok (op == .stop) p) ∧
      (∀ f p, r = .error f p → step ⟨i, s, w⟩ = .error f p) := by
  have hstep : step ⟨i, s, w⟩ = (do execute op; return op == .stop : Exec κ φ Bool)
      ⟨i.skip 1, s, w.announce i⟩ :=
    step_eq_of_opcodeAt h
  refine ⟨fun _ => i.announcement, fun p hp => ?_, fun f p hp => ?_⟩ <;> rw [hstep] <;>
    simp only [World.announce, bind, EStateM.bind, hp]
  rfl

end Processor

theorem Instruction.ofByte?_eq_none_iff :
    ∀ b : UInt8, ofByte? b = none ↔ 0x51 < b ∧ b < 0x80 ∨ 0xca < b := by
  decide +kernel

theorem Instruction.opcode_eq_invalid_iff :
    ∀ b : UInt8, (ofByte? b).map opcode = some .invalid ↔ b = 0x43 := by
  decide +kernel

theorem Instruction.opcode_eq_fillArea_iff :
    ∀ b : UInt8, (ofByte? b).map opcode = some (.call .fillArea) ↔ b = 0xca := by
  decide +kernel

structure Bus.Logged (b c : Bus) : Prop where
  control : c.control = b.control
  level : c.journal.level = b.journal.level
  newest : ∃ logs, c.journal.newest = logs ++ b.journal.newest ∧
    ∀ e ∈ logs, ∃ level text, e = .log level text

theorem Bus.logged_log (b : Bus) (level : LogLevel) (text : Unit → String) :
    b.Logged (b.log level text) := by
  unfold Bus.log Journal.log
  split
  · exact ⟨rfl, rfl, [_], rfl, by simp⟩
  · exact ⟨rfl, rfl, [], rfl, by simp⟩

theorem Bus.Logged.refl (b : Bus) : b.Logged b := ⟨rfl, rfl, [], rfl, by simp⟩

theorem Bus.Logged.trans {b c d : Bus} (h : b.Logged c) (h' : c.Logged d) : b.Logged d := by
  obtain ⟨logs, hlogs, hall⟩ := h.newest
  obtain ⟨logs', hlogs', hall'⟩ := h'.newest
  refine ⟨h'.control.trans h.control, h'.level.trans h.level, logs' ++ logs, ?_, ?_⟩
  · rw [hlogs', hlogs, List.append_assoc]
  · simpa [or_imp, forall_and] using ⟨hall', hall⟩

namespace Image

/-- The byte at the cursor stands for no instruction, or for the one that is always refused. -/
def Illegal (i : Image) : Prop :=
  ∃ b, i.bytes[i.cursor]? = some b ∧ (0x51 < b ∧ b < 0x80 ∨ 0xca < b ∨ b = 0x43)

variable {i : Image}

theorem lt_of_opcodeAt {offset : Nat} {op : Opcode} (h : i.opcodeAt offset = some op) :
    offset < i.bytes.size := by
  unfold opcodeAt at h
  by_contra hle
  simp [Array.getElem?_eq_none (Nat.not_lt.1 hle)] at h

theorem illegal_iff : i.Illegal ↔
    i.cursor < i.bytes.size ∧
    (i.opcodeAt i.cursor = none ∨ i.opcodeAt i.cursor = some .invalid) := by
  unfold Illegal opcodeAt
  cases hbyte : i.bytes[i.cursor]? with
  | none => simp [Array.getElem?_eq_none_iff.1 hbyte]
  | some b =>
    have hlt : i.cursor < i.bytes.size := (Array.getElem?_eq_some_iff.1 hbyte).1
    simp only [Option.some.injEq, exists_eq_left', Option.bind_some, hlt, true_and,
      Option.map_eq_none_iff, Instruction.ofByte?_eq_none_iff, Instruction.opcode_eq_invalid_iff,
      or_assoc]

theorem opcodeAt_eq_fillArea_iff :
    i.opcodeAt i.cursor = some (.call .fillArea) ↔ i.bytes[i.cursor]? = some 0xca := by
  unfold opcodeAt
  cases i.bytes[i.cursor]? with
  | none => simp
  | some b => simpa using Instruction.opcode_eq_fillArea_iff b

end Image

theorem Processor.step_of_illegal [Keyboard κ] [Disk φ] {i : Image} {s : Stack} {w : World κ φ}
    (h : i.Illegal) :
    ∃ f bus, f.kind = .illegalOpcode ∧ w.bus.Logged bus ∧
      step ⟨i, s, w⟩ = .error f ⟨i.skip 1, s, { w with bus }⟩ := by
  -- The instruction that is always refused has been traced by then, an unassigned byte has not.
  obtain ⟨hlt, hnone | hinvalid⟩ := Image.illegal_iff.1 h
  · obtain ⟨detail, hstep⟩ := step_of_unassigned (s := s) (w := w) hlt hnone
    exact ⟨_, w.bus, rfl, .refl _, hstep⟩
  · exact ⟨_, _, rfl, w.bus.logged_log _ _, step_eq_of_opcodeAt hinvalid⟩

namespace Machine

variable {m : Machine κ φ} {i : Image}

def fetches (m : Machine κ φ) (i : Image) : List Nat :=
  match i.opcodeAt i.cursor with
  | some op => 1 :: op.fetches (i.skip 1).rest m.stack.toList
  | none => [1]

def missing? (m : Machine κ φ) (i : Image) : Option (Nat × Nat) :=
  Image.missing? i.bytes.size i.cursor (m.fetches i)

theorem missing?_of_opcodeAt {op : Opcode} (hop : i.opcodeAt i.cursor = some op) :
    m.missing? i = Image.missing? (i.skip 1).bytes.size (i.skip 1).cursor
      (op.fetches (i.skip 1).rest m.stack.toList) := by
  have hlt : i.cursor + 1 ≤ i.bytes.size := Image.lt_of_opcodeAt hop
  simp only [missing?, fetches, hop, Image.missing?, if_pos hlt]
  rfl

theorem settle_error (offset : Nat) (f : Fault) (p : Processor κ φ) :
    ∃ bus, p.world.bus.Logged bus ∧ settle offset (.error f p) =
      (.error (f.locate offset), ⟨.ended, some p.image, p.stack, { p.world with bus }⟩) :=
  ⟨_, p.world.bus.logged_log _ _, rfl⟩

variable [Keyboard κ] [Disk φ]

theorem step_of_illegal (hlive : m.Live) (himage : m.image = some i) (h : i.Illegal) :
    m.Faults .illegalOpcode ∧ ∃ bus, m.world.bus.Logged bus ∧
      m.step.2 = ⟨.ended, some (i.skip 1), m.stack, { m.world with bus }⟩ := by
  obtain ⟨f, bus, hkind, hbus, hstep⟩ := Processor.step_of_illegal (s := m.stack) (w := m.world) h
  obtain ⟨bus', hbus', hsettle⟩ := settle_error i.cursor f ⟨i.skip 1, m.stack, { m.world with bus }⟩
  rw [Faults, step_eq_settle hlive himage, hstep, hsettle]
  exact ⟨⟨_, rfl, (f.kind_locate _).trans hkind⟩, bus', hbus.trans hbus', rfl⟩

theorem step_of_missing (hlive : m.Live) (himage : m.image = some i) {q n : Nat}
    (h : m.missing? i = some (q, n)) :
    m.step.1 = .error (Image.pastEnd q) := by
  rw [step_eq_settle hlive himage]
  cases hop : i.opcodeAt i.cursor with
  | none =>
    simp only [missing?, fetches, hop, Image.missing?] at h
    split at h
    · cases h
    · rename_i hle
      cases h
      rw [Processor.step_of_size_le (Nat.not_lt.1 hle)]
      rfl
  | some op =>
    obtain ⟨text, _, herror⟩ := Processor.step_of_execute (s := m.stack) (w := m.world) hop
    rw [missing?_of_opcodeAt hop] at h
    obtain ⟨p, hexecute⟩ := Processor.misses_execute (w := { m.world with bus := _ }) op q n h
    rw [herror _ _ hexecute]
    rfl

theorem fault_of_not_missing (hlive : m.Live) (himage : m.image = some i)
    (hfetched : m.missing? i = none) {f : Fault} (h : m.step.1 = .error f) :
    f.offset = some i.cursor ∧ f.kind ≠ .endOfImage ∧ (f.kind = .illegalOpcode → i.Illegal) ∧
      (f.kind = .unimplemented → i.bytes[i.cursor]? = some 0xca) := by
  rw [step_eq_settle hlive himage] at h
  rw [Image.illegal_iff, ← Image.opcodeAt_eq_fillArea_iff]
  cases hop : i.opcodeAt i.cursor with
  | none =>
    simp only [missing?, fetches, hop, Image.missing?] at hfetched
    split at hfetched
    · rename_i hle
      have hlt : i.cursor < i.bytes.size := hle
      obtain ⟨detail, hstep⟩ := Processor.step_of_unassigned (s := m.stack) (w := m.world) hlt hop
      rw [hstep] at h
      cases h
      simp [Fault.locate, hlt]
    · cases hfetched
  | some op =>
    obtain ⟨text, hok, herror⟩ := Processor.step_of_execute (s := m.stack) (w := m.world) hop
    rw [missing?_of_opcodeAt hop] at hfetched
    cases hr : Processor.execute op
      ⟨i.skip 1, m.stack, { m.world with bus := m.world.bus.log .trace text }⟩ with
    | ok _ p =>
      obtain ⟨bus, hsettle⟩ := settle_ok i.cursor (op == .stop) p.image p.stack p.world
      rw [hok p hr, hsettle] at h
      cases h
    | error g p =>
      obtain ⟨hoffset, hend, hillegal, hfill⟩ := Processor.unlocated_of_execute hfetched hr
      rw [herror g p hr] at h
      cases h
      refine ⟨by simp [Fault.locate, hoffset], by simpa using hend,
        fun hkind => ?_, fun hkind => ?_⟩
      · exact ⟨Image.lt_of_opcodeAt hop, .inr (congrArg some (hillegal.1 (by simpa using hkind)))⟩
      · exact congrArg some (hfill.1 (by simpa using hkind))

theorem step_of_fillArea (hlive : m.Live) (himage : m.image = some i)
    (h : i.bytes[i.cursor]? = some 0xca) :
    m.Faults .unimplemented := by
  obtain ⟨text, _, herror⟩ := Processor.step_of_execute (s := m.stack) (w := m.world)
    (Image.opcodeAt_eq_fillArea_iff.2 h)
  rw [Faults, step_eq_settle hlive himage, herror _ _ rfl]
  exact ⟨_, rfl, Fault.kind_locate _ _⟩

/-- The faults of the next step, by the bytes at the cursor of the image `i`. -/
structure Located (m : Machine κ φ) (i : Image) : Prop where
  illegal : m.Faults .illegalOpcode ↔ i.Illegal
  untouched : m.Faults .illegalOpcode →
    m.step.2.stack = m.stack ∧ ∃ bus, m.world.bus.Logged bus ∧ m.step.2.world = { m.world with bus }
  unimplemented : m.Faults .unimplemented ↔ i.bytes[i.cursor]? = some 0xca
  endOfImage : m.Faults .endOfImage ↔ ∃ q n, m.missing? i = some (q, n)
  ofProgram {kind : FaultKind} : m.Faults kind →
    kind ∉ [.badImage, .unsupportedVersion, .windowOverlap, .notLoaded, .programEnded]
  atOpcode {f : Fault} : m.step.1 = .error f → f.kind ≠ .endOfImage → f.offset = some i.cursor
  atFetch {f : Fault} : m.step.1 = .error f → f.kind = .endOfImage →
    ∃ q n, m.missing? i = some (q, n) ∧ f.offset = some q ∧ i.cursor ≤ q ∧ i.bytes.size < q + n

/-- The fault of a step and its offset follow from the image and the words on the stack, unless a
peripheral fails. -/
theorem faults_located (hlive : m.Live) (himage : m.image = some i) : m.Located i := by
  have hmissing {f : Fault} (h : m.step.1 = .error f) (hkind : f.kind = .endOfImage) :
      ∃ q n, m.missing? i = some (q, n) ∧ f = Image.pastEnd q := by
    cases hfetch : m.missing? i with
    | none => exact absurd hkind (fault_of_not_missing hlive himage hfetch h).2.1
    | some short =>
      have hshort := step_of_missing hlive himage hfetch
      exact ⟨short.1, short.2, rfl, Except.error.inj (h.symm.trans hshort)⟩
  have hfetched {f : Fault} (h : m.step.1 = .error f) (hkind : f.kind ≠ .endOfImage) :
      m.missing? i = none := by
    cases hfetch : m.missing? i with
    | none => rfl
    | some short =>
      have hshort := step_of_missing hlive himage hfetch
      exact absurd (congrArg Fault.kind (Except.error.inj (h.symm.trans hshort))) hkind
  have hillegal : m.Faults .illegalOpcode ↔ i.Illegal := by
    refine ⟨?_, fun h => (step_of_illegal hlive himage h).1⟩
    rintro ⟨f, hf, hkind⟩
    exact (fault_of_not_missing hlive himage (hfetched hf (by simp [hkind])) hf).2.2.1 hkind
  exact {
    illegal := hillegal
    untouched := fun h => by
      obtain ⟨bus, hbus, hafter⟩ := (step_of_illegal hlive himage (hillegal.1 h)).2
      rw [hafter]
      exact ⟨rfl, bus, hbus, rfl⟩
    unimplemented := by
      refine ⟨?_, step_of_fillArea hlive himage⟩
      rintro ⟨f, hf, hkind⟩
      exact (fault_of_not_missing hlive himage (hfetched hf (by simp [hkind])) hf).2.2.2 hkind
    endOfImage := by
      refine ⟨?_, fun ⟨q, n, h⟩ => ⟨_, step_of_missing hlive himage h, rfl⟩⟩
      rintro ⟨f, hf, hkind⟩
      obtain ⟨q, n, hfetch, _⟩ := hmissing hf hkind
      exact ⟨q, n, hfetch⟩
    ofProgram := fun {kind} h => by
      have hprogram := ofProgram_of_faults hlive himage h
      cases kind <;> simp_all [FaultKind.ofProgram]
    atOpcode := fun {f} hf hkind => (fault_of_not_missing hlive himage (hfetched hf hkind) hf).1
    atFetch := fun {f} hf hkind => by
      obtain ⟨q, n, hfetch, rfl⟩ := hmissing hf hkind
      exact ⟨q, n, hfetch, rfl, Image.bounds_of_missing? hfetch⟩ }

/-- The second byte of an initialiser is missing: the fault is reported where it would have been,
six bytes behind the opcode. -/
theorem faults_located_truncated :
    let m := bare #[0, 65, 0, 32, 2, 0, 7] (Stack.empty 2)
    m.step.2.missing? ⟨"BARE", #[0, 65, 0, 32, 2, 0, 7], 1⟩ = some (7, 1) ∧
      ∃ f, m.step.2.step.1 = .error f ∧ f.kind = .endOfImage ∧ f.offset = some 7 := by
  intro m
  have himage : m.step.2.image = some ⟨"BARE", #[0, 65, 0, 32, 2, 0, 7], 1⟩ := by decide +kernel
  have hlive : m.step.2.Live := .inr (by decide +kernel)
  have hlocated := faults_located hlive himage
  have hmissing : m.step.2.missing? ⟨"BARE", #[0, 65, 0, 32, 2, 0, 7], 1⟩ = some (7, 1) := by
    decide +kernel
  obtain ⟨f, hf, hkind⟩ := hlocated.endOfImage.2 ⟨7, 1, hmissing⟩
  obtain ⟨q, n, hfetch, hoffset, _⟩ := hlocated.atFetch hf hkind
  cases hmissing.symm.trans hfetch
  exact ⟨hmissing, f, hf, hkind, hoffset⟩

end Machine
end LavMachine
