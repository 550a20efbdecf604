import Mathlib
import LavMachine.Proofs.Machine.Representation
import LavMachine.Proofs.Machine.Signature
set_option autoImplicit false

namespace LavMachine

variable {κ φ : Type}

def FaultKind.ofProgram : FaultKind → Bool
  | .illegalOpcode | .unimplemented | .endOfImage | .stackOverflow | .stackUnderflow | .interrupted
  | .hostIo => true
  | .badImage | .unsupportedVersion | .notLoaded | .programEnded | .windowOverlap => false

theorem Instruction.opcode_eq_stop_iff :
    ∀ b : UInt8, (ofByte? b).map opcode = some .stop ↔ b = 0x40 ∨ b = 0x8d := by
  decide +kernel

def Image.AtEnd (i : Image) : Prop :=
  i.bytes[i.cursor]? = some 0x40 ∨ i.bytes[i.cursor]? = some 0x8d

theorem Image.opcodeAt_eq_stop_iff (i : Image) : i.opcodeAt i.cursor = some .stop ↔ i.AtEnd := by
  unfold opcodeAt AtEnd
  cases i.bytes[i.cursor]? with
  | none => simp
  | some b => simpa using Instruction.opcode_eq_stop_iff b

def Command.Loads : Command → Prop
  | .load _ => True
  | .dispose | .turn _ | .control _ => False

namespace Machine

theorem settle_cases (offset : Nat) (r : EStateM.Result Fault (Processor κ φ) Bool) :
    (settle offset r).2.image.isSome ∧
      ((settle offset r).1 = .ok () ∧ (settle offset r).2.phase = .running ∨
        (settle offset r).2.phase = .ended) := by
  cases r with
  | ok finished p =>
    cases finished with
    | false => exact ⟨rfl, .inl ⟨rfl, rfl⟩⟩
    | true => exact ⟨rfl, .inr rfl⟩
  | error f p => exact ⟨rfl, .inr rfl⟩

variable {m n : Machine κ φ}

/-- A program is attached while it may run, and none is before the first one has been loaded. -/
structure Attached (m : Machine κ φ) : Prop where
  live : m.Live → m.image.isSome
  unloaded : m.phase = .unloaded → m.image = none

theorem Attached.of_ended (h : m.phase = .ended) : m.Attached := ⟨by simp [Live, h], by simp [h]⟩

theorem Attached.of_isSome (himage : m.image.isSome) (h : m.phase ≠ .unloaded) : m.Attached :=
  ⟨fun _ => himage, fun hphase => absurd hphase h⟩

variable [Keyboard κ] [Disk φ]

theorem ofProgram_of_faults {i : Image} {kind : FaultKind} (hlive : m.Live)
    (himage : m.image = some i) (h : m.Faults kind) : kind.ofProgram := by
  obtain ⟨f, hf, rfl⟩ := h
  cases hop : i.opcodeAt i.cursor with
  | none =>
    obtain ⟨g, p, hkind, herror⟩ :=
      Processor.step_of_opcodeAt_eq_none (s := m.stack) (w := m.world) hop
    rw [step_eq_settle hlive himage, herror] at hf
    cases hf
    obtain hkind | hkind := hkind <;> simp [hkind, FaultKind.ofProgram]
  | some op =>
    have hnext := opcode?_of_live hlive himage hop
    -- The two instructions that always fail have no signature.
    by_cases hmeant : op = .invalid ∨ op = .call .fillArea
    · obtain ⟨bus, hstep⟩ := step_of_opcode? hnext himage
      obtain rfl | rfl := hmeant <;> rw [hstep] at hf <;> cases hf <;> rfl
    · rw [not_or] at hmeant
      obtain ⟨r, hstep, hmeets⟩ := step_meets hnext himage hmeant.1 hmeant.2
      rw [hstep] at hf
      cases hmeets with
      | @done finished t w =>
        obtain ⟨bus, hsettle⟩ := settle_ok i.cursor finished
          { i with cursor := op.destination (i.skip 1) m.stack.toList m.world.memory } t w
        rw [hsettle] at hf
        cases hf
      | pastEnd | underflow | overflow =>
        cases hf
        rfl
      | @refused e =>
        cases hf
        cases e <;> rfl

theorem phase_of_step_error (hlive : m.Live) (himage : m.image.isSome) {f : Fault}
    (h : m.step.1 = .error f) :
    m.step.2.phase = .ended := by
  obtain ⟨i, himage⟩ := Option.isSome_iff_exists.1 himage
  rw [step_eq_settle hlive himage] at h ⊢
  obtain ⟨_, ⟨hok, _⟩ | hended⟩ := settle_cases i.cursor (Processor.step ⟨i, m.stack, m.world⟩)
  · rw [hok] at h
    cases h
  · exact hended

theorem step_of_ok (h : m.step.1 = .ok ()) :
    ∃ i, m.image = some i ∧ m.step.2.image.isSome ∧
      (m.step.2.phase = .running ∧ ¬ i.AtEnd ∨ m.step.2.phase = .ended ∧ i.AtEnd) := by
  obtain ⟨op, i, hop, himage⟩ := opcode?_of_step h
  obtain ⟨bus, hstep⟩ := step_of_opcode? hop himage
  obtain ⟨_, i', hi', hat⟩ := live_of_opcode? hop
  obtain rfl : i' = i := Option.some.inj (hi'.symm.trans himage)
  have hend : op = .stop ↔ i'.AtEnd := by rw [← i'.opcodeAt_eq_stop_iff, hat, Option.some.injEq]
  simp only [bind, EStateM.bind] at hstep
  refine ⟨i', himage, ?_⟩
  split at hstep
  · rename_i p _
    obtain ⟨bus', hsettle⟩ := settle_ok i'.cursor (op == .stop) p.image p.stack p.world
    have hnext := hstep.trans hsettle
    rw [hnext]
    by_cases hstop : op = .stop
    · exact ⟨rfl, .inr ⟨by simp [hstop], hend.1 hstop⟩⟩
    · exact ⟨rfl, .inl ⟨by simp [hstop], fun hat => hstop (hend.2 hat)⟩⟩
  · rw [hstep] at h
    cases h

theorem step_of_ended (h : m.phase = .ended) : m.step = (.error { kind := .programEnded }, m) := by
  obtain ⟨phase, image, stack, world⟩ := m
  cases h
  rfl

theorem execute_of_ended (h : m.phase = .ended) (cycles : Nat) :
    m.execute cycles = (.ended, m) := by
  have hended : m.isEnded = true := by simp [isEnded, h]
  simp only [execute, hended, if_true]

theorem execute_of_not_ended (h : m.phase ≠ .ended) (cycles : Nat) :
    m.execute cycles = m.executeFrom cycles := by
  have hended : m.isEnded = false := by simp [isEnded, h]
  simp [execute, hended]

omit [Keyboard κ] in
theorem dispose_cases (m : Machine κ φ) : m.image = none ∧ m.dispose = m ∨
    m.image.isSome ∧
    ∃ disk bus, m.dispose = ⟨.ended, none, m.stack, { m.world with disk, bus }⟩ := by
  cases himage : m.image with
  | none => exact .inl ⟨rfl, by simp [dispose, himage]⟩
  | some i =>
    simp only [dispose, himage, Option.isSome, if_true]
    exact .inr ⟨trivial, _, _, rfl⟩

theorem Attached.step (h : m.Attached) : m.step.2.Attached := by
  cases m.step_cases with
  | unloaded _ hstep | ended _ hstep | detached _ _ hstep =>
    rw [hstep]
    exact h
  | live i _ _ hstep =>
    rw [hstep]
    obtain ⟨himage, ⟨_, hphase⟩ | hphase⟩ :=
      settle_cases i.cursor (Processor.step ⟨i, m.stack, m.world⟩)
    · exact .of_isSome himage (by simp [hphase])
    · exact .of_ended hphase

/-- Everything that a batch of one more step can be. -/
inductive BatchCases (cycles : Nat) (m : Machine κ φ) : Outcome × Machine κ φ → Prop where
  | suspended : m.control.isPaused → BatchCases cycles m (.suspended, m)
  | cancelled {e : DeviceFailure} : m.control.checkpoint = .error e →
    BatchCases cycles m (.fault e.fault, { m with phase := .ended })
  | failed {f : Fault} : m.step.1 = .error f → BatchCases cycles m (.fault f, m.step.2)
  | finished : m.step.1 = .ok () → m.step.2.phase = .ended → BatchCases cycles m (.ended, m.step.2)
  | goesOn :
    m.step.1 = .ok () → m.step.2.phase ≠ .ended → BatchCases cycles m (m.step.2.executeFrom cycles)

theorem executeFrom_succ (cycles : Nat) (m : Machine κ φ) :
    m.BatchCases cycles (m.executeFrom (cycles + 1)) := by
  simp only [Machine.executeFrom]
  split
  case isTrue hpaused => exact .suspended hpaused
  case isFalse =>
    split
    case h_1 hcancelled => exact .cancelled hcancelled
    case h_2 =>
      cases hresult : m.step.1 with
      | error f =>
        rw [show m.step = (.error f, m.step.2) from Prod.ext hresult rfl]
        exact .failed hresult
      | ok =>
        rw [show m.step = (.ok (), m.step.2) from Prod.ext hresult rfl]
        by_cases hended : m.step.2.phase = .ended
        · simp only [isEnded, hended]
          exact .finished hresult hended
        · simp only [isEnded, beq_eq_false_iff_ne.2 hended]
          exact .goesOn hresult hended

theorem take_keeps {P : Machine κ φ → Prop} (hstep : ∀ m, P m → P m.step.2)
    (hcancel : ∀ m, P m → P { m with phase := .ended }) (h : P m) (t : Turn) : P (m.take t).2 := by
  have hbatch (cycles : Nat) : P (m.executeFrom cycles).2 := by
    induction cycles generalizing m with
    | zero => exact h
    | succ cycles ih =>
      have hcases := executeFrom_succ cycles m
      generalize m.executeFrom (cycles + 1) = r at hcases ⊢
      cases hcases with
      | suspended => exact h
      | cancelled => exact hcancel m h
      | failed | finished => exact hstep m h
      | goesOn => exact ih (hstep m h)
  cases t with
  | step => exact hstep m h
  | execute cycles =>
    change P (m.execute cycles).2
    by_cases hended : m.phase = .ended
    · rw [execute_of_ended hended]
      exact h
    · rw [execute_of_not_ended hended]
      exact hbatch cycles

theorem Attached.obey (h : m.Attached) (c : Command) : (m.obey c).Attached := by
  cases c with
  | load image => exact .of_isSome rfl (by simp [Machine.obey, load])
  | dispose =>
    change m.dispose.Attached
    obtain ⟨_, hsame⟩ | ⟨_, disk, bus, hdispose⟩ := m.dispose_cases
    · rw [hsame]
      exact h
    · rw [hdispose]
      exact .of_ended rfl
  | turn t => exact take_keeps (fun _ => Attached.step) (fun _ _ => .of_ended rfl) h t
  | control change => exact ⟨h.live, h.unloaded⟩

theorem Attached.obeyAll (h : m.Attached) (commands : List Command) :
    (m.obeyAll commands).Attached :=
  List.foldlRecOn commands Machine.obey h fun _ hm c _ => hm.obey c

/-- A batch that stops the program says so, and a fault stops every program there is. -/
structure Stops (m : Machine κ φ) (r : Outcome × Machine κ φ) : Prop where
  told : r.2.phase = .ended → r.1 = .ended ∨ ∃ f, r.1 = .fault f
  faulted : (∃ f, r.1 = .fault f) → m.phase = .unloaded ∨ r.2.phase = .ended

theorem Attached.stops_executeFrom (h : m.Attached) (hended : m.phase ≠ .ended) (cycles : Nat) :
    m.Stops (m.executeFrom cycles) := by
  induction cycles generalizing m with
  | zero => exact ⟨fun hphase => absurd hphase hended, by rintro ⟨f, ⟨⟩⟩⟩
  | succ cycles ih =>
    have hcases := executeFrom_succ cycles m
    generalize m.executeFrom (cycles + 1) = r at hcases ⊢
    cases hcases with
    | suspended => exact ⟨fun hphase => absurd hphase hended, by rintro ⟨f, ⟨⟩⟩⟩
    | cancelled => exact ⟨fun _ => .inr ⟨_, rfl⟩, fun _ => .inr rfl⟩
    | @failed f hresult =>
      refine ⟨fun _ => .inr ⟨f, rfl⟩, fun _ => ?_⟩
      cases hphase : m.phase with
      | unloaded => exact .inl rfl
      | ended => exact absurd hphase hended
      | ready => exact .inr (phase_of_step_error (.inl hphase) (h.live (.inl hphase)) hresult)
      | running => exact .inr (phase_of_step_error (.inr hphase) (h.live (.inr hphase)) hresult)
    | finished _ hphase => exact ⟨fun _ => .inl rfl, fun _ => .inr hphase⟩
    | goesOn hresult hphase =>
      have hrest := ih h.step hphase
      refine ⟨hrest.told,
        fun hfault => .inr ((hrest.faulted hfault).resolve_left fun hunloaded => ?_)⟩
      obtain ⟨_, _, himage, _⟩ := step_of_ok hresult
      simp [h.step.unloaded hunloaded] at himage

structure Rests (m n : Machine κ φ) : Prop where
  phase : n.phase = .ended
  stack : n.stack = m.stack
  memory : n.world.memory = m.world.memory
  seed : n.world.seed = m.world.seed

theorem Rests.obey (h : m.Rests n) {c : Command} (hc : ¬ c.Loads) : m.Rests (n.obey c) := by
  cases c with
  | load image => exact absurd trivial hc
  | dispose =>
    change m.Rests n.dispose
    obtain ⟨_, hsame⟩ | ⟨_, disk, bus, hdispose⟩ := n.dispose_cases
    · rw [hsame]
      exact h
    · rw [hdispose]
      exact ⟨rfl, h.stack, h.memory, h.seed⟩
  | turn t =>
    cases t with
    | step =>
      change m.Rests n.step.2
      rw [step_of_ended h.phase]
      exact h
    | execute cycles =>
      change m.Rests (n.execute cycles).2
      rw [execute_of_ended h.phase]
      exact h
  | control change => exact ⟨h.phase, h.stack, h.memory, h.seed⟩

theorem Rests.obeyAll (h : m.Rests n) {commands : List Command} (hc : ∀ c ∈ commands, ¬ c.Loads) :
    m.Rests (n.obeyAll commands) :=
  List.foldlRecOn commands Machine.obey h fun _ hn c hmem => hn.obey (hc c hmem)

/-- The ways in which a command can end a program. -/
def Ends (m : Machine κ φ) : Command → Prop
  | .load _ | .control _ => False
  | .dispose => m.image.isSome
  | .turn .step => (∃ f, m.step.1 = .error f) ∨ ∃ i, m.image = some i ∧ i.AtEnd
  | .turn (.execute cycles) => (m.execute cycles).1 = .ended ∨ ∃ f, (m.execute cycles).1 = .fault f

theorem Attached.ends (h : m.Attached) {c : Command} (hbefore : m.phase ≠ .ended)
    (hafter : (m.obey c).phase = .ended) : m.Ends c := by
  cases c with
  | load image => cases hafter
  | dispose =>
    change m.dispose.phase = .ended at hafter
    obtain ⟨_, hsame⟩ | ⟨himage, _⟩ := m.dispose_cases
    · rw [hsame] at hafter
      exact absurd hafter hbefore
    · exact himage
  | turn t =>
    cases t with
    | step =>
      cases hresult : m.step.1 with
      | error f => exact .inl ⟨f, hresult⟩
      | ok =>
        obtain ⟨i, himage, _, ⟨hphase, _⟩ | ⟨_, hat⟩⟩ := step_of_ok hresult
        · cases hafter.symm.trans hphase
        · exact .inr ⟨i, himage, hat⟩
    | execute cycles =>
      change (m.execute cycles).2.phase = .ended at hafter
      simp only [Ends]
      rw [execute_of_not_ended hbefore] at hafter ⊢
      exact (h.stops_executeFrom hbefore cycles).told hafter
  | control change => exact absurd hafter hbefore

structure Lifecycle (m : Machine κ φ) : Prop where
  attached : m.Live → m.image.isSome
  notLoaded : m.Faults .notLoaded ↔ m.phase = .unloaded
  programEnded : m.Faults .programEnded ↔ m.phase = .ended
  idle : ¬ m.Live → m.step.2 = m
  failed {f : Fault} : m.Live → m.step.1 = .error f → m.step.2.phase = .ended
  finished : m.step.1 = .ok () → (m.step.2.phase = .ended ↔ ∃ i, m.image = some i ∧ i.AtEnd)
  ends {c : Command} : m.phase ≠ .ended → (m.obey c).phase = .ended → m.Ends c
  rests {commands : List Command} : m.phase = .ended → (∀ c ∈ commands, ¬ c.Loads) →
    m.Rests (m.obeyAll commands)
  reloaded (image : Image) : (m.load image).phase = .ready
  executed (cycles : Nat) : m.phase = .ended → m.execute cycles = (.ended, m)
  faulted {cycles : Nat} {f : Fault} : m.image.isSome → (m.execute cycles).1 = .fault f →
    (m.execute cycles).2.phase = .ended

theorem Attached.faults_iff (h : m.Attached) :
    (m.Faults .notLoaded ↔ m.phase = .unloaded) ∧ (m.Faults .programEnded ↔ m.phase = .ended) := by
  cases m.step_cases with
  | unloaded hphase hstep =>
    have hfaults := faults_of_error (congrArg Prod.fst hstep)
    simp [hfaults, hphase]
  | ended hphase hstep =>
    have hfaults := faults_of_error (congrArg Prod.fst hstep)
    simp [hfaults, hphase]
  | detached hlive himage _ =>
    have hsome := h.live hlive
    simp [himage] at hsome
  | live i hlive himage _ =>
    have hprogram (kind : FaultKind) (hkind : kind.ofProgram = false) : ¬ m.Faults kind :=
      fun hfaults => by
      have hkind' := ofProgram_of_faults hlive himage hfaults
      rw [hkind] at hkind'
      cases hkind'
    obtain hphase | hphase :=
      hlive <;> simp [hphase, hprogram .notLoaded rfl, hprogram .programEnded rfl]

theorem Attached.lifecycle (h : m.Attached) : m.Lifecycle where
  attached := h.live
  notLoaded := h.faults_iff.1
  programEnded := h.faults_iff.2
  idle hidle := by
    cases m.step_cases with
    | unloaded _ hstep | ended _ hstep => rw [hstep]
    | detached hlive | live _ hlive => exact absurd hlive hidle
  failed hlive := phase_of_step_error hlive (h.live hlive)
  finished hok := by
    obtain ⟨i, himage, _, ⟨hphase, hat⟩ | ⟨hphase, hat⟩⟩ :=
      step_of_ok hok <;> simp [himage, hphase, hat]
  ends := h.ends
  rests hphase := Rests.obeyAll ⟨hphase, rfl, rfl, rfl⟩
  reloaded image := rfl
  executed cycles hphase := execute_of_ended hphase cycles
  faulted {cycles f} himage hfault := by
    by_cases hended : m.phase = .ended
    · rw [execute_of_ended hended]
      exact hended
    · rw [execute_of_not_ended hended] at hfault ⊢
      refine ((h.stops_executeFrom hended cycles).faulted ⟨f, hfault⟩).resolve_left fun hphase => ?_
      simp [h.unloaded hphase] at himage

variable {config : Config} {display : Display} {teletype : Teletype} {keyboard : κ} {disk : φ}
  {journal : Journal} {clock : Clock}

/-- Whatever is done with a new machine, its program lives by these rules. -/
theorem lifecycle_obeyAll
    (hcreate : create config display teletype keyboard disk journal clock = .ok m)
    (commands : List Command) : (m.obeyAll commands).Lifecycle := by
  have hnew : m.Attached := by
    rw [(create_eq_ok hcreate).1]
    exact ⟨by simp [Live, initial], fun _ => rfl⟩
  exact (hnew.obeyAll commands).lifecycle

/-- A program has run to its end and been disposed of. Its last word stays where it is. -/
theorem lifecycle_obeyAll_disposed :
    let clock : Clock := { reading := fun _ => ⟨2000, 0, 1, 0, 0, 0, 0, 7⟩ }
    let code : Image :=
      ⟨"STOP", #[76, 65, 86, 18, 0, 0, 0, 0, 0, 0, 0, 0, 0, 0, 0, 0, 1, 42, 64], Image.headerSize⟩
    let commands : List Command := [.load code, .turn (.execute 5), .dispose]
    let later : List Command := [.turn (.execute 3), .control .cancel, .turn .step]
    ∃ m : Machine Detached Detached, create {} .detached .detached {} {} .quiet clock = .ok m ∧
      ((m.obeyAll commands).obeyAll later).phase = .ended ∧
      ((m.obeyAll commands).obeyAll later).stack.toList = [42] := by
  intro clock code commands later
  let m : Machine Detached Detached := initial {} .detached .detached {} {} .quiet clock
  have hcreate : create {} .detached .detached {} {} .quiet clock = .ok m := rfl
  have hended : (m.obeyAll commands).phase = .ended := by decide +kernel
  have hwords : (m.obeyAll commands).stack.toList = [42] := by decide +kernel
  have hlater : ∀ c ∈ later, ¬ c.Loads := by simp [later, Command.Loads]
  have hrests := (lifecycle_obeyAll hcreate commands).rests hended hlater
  exact ⟨m, hcreate, hrests.phase, by rw [hrests.stack, hwords]⟩

end Machine
end LavMachine
