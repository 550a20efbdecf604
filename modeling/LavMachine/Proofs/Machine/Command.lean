import Mathlib
import LavMachine.Machine.Session
import LavMachine.Proofs.Machine.Instruction
import LavMachine.Proofs.Machine.Kept
set_option autoImplicit false

namespace LavMachine

variable {κ φ : Type}

namespace Machine

/-- Machines at the same point of the same program, with the same live words and related worlds. -/
structure Related (capacity : Nat) (R : World κ φ → World κ φ → Prop) (m n : Machine κ φ) :
    Prop where
  phase : m.phase = n.phase
  image : m.image = n.image
  stack : Stack.Same capacity m.stack n.stack
  world : R m.world n.world

variable {capacity : Nat} {R : World κ φ → World κ φ → Prop} {m n : Machine κ φ}

theorem Related.isEnded (h : Related capacity R m n) : m.isEnded = n.isEnded := by
  rw [Machine.isEnded, h.phase, Machine.isEnded]

theorem Related.perform {f : Effect κ φ Unit} (hf : Respects R f) (h : Related capacity R m n) :
    Related capacity R (m.perform f) (n.perform f) := by
  have hagree := hf m.world n.world h.world
  simp only [Machine.perform]
  generalize f m.world = r, f n.world = r' at hagree
  cases hagree with
  | ok hw => exact ⟨h.phase, h.image, h.stack, hw⟩
  | error hw => exact ⟨h.phase, h.image, h.stack, hw⟩

/-- What becomes of a machine whose opcode at `offset` came out one way or the other. -/
def settle (offset : Nat) :
    EStateM.Result Fault (Processor κ φ) Bool → Except Fault Unit × Machine κ φ
  | .ok false ⟨image, stack, world⟩ => (.ok (), ⟨.running, some image, stack, world⟩)
  | .ok true ⟨image, stack, world⟩ =>
    (.ok (), perform ⟨.ended, some image, stack, world⟩
      (World.log .debug fun _ => s!"program ended offset={offset}"))
  | .error fault ⟨image, stack, world⟩ =>
    (.error (fault.locate offset), perform ⟨.ended, some image, stack, world⟩
      (World.log .warn fun _ => (fault.locate offset).message))

theorem settle_ok (offset : Nat) (finished : Bool) (i : Image) (s : Stack) (w : World κ φ) :
    ∃ bus, settle offset (.ok finished ⟨i, s, w⟩) =
      (.ok (), ⟨if finished then .ended else .running, some i, s, { w with bus }⟩) := by
  cases finished with
  | false => exact ⟨w.bus, rfl⟩
  | true => exact ⟨_, rfl⟩

variable [Keyboard κ] [Disk φ]

theorem step_eq_settle {image : Image} (hphase : m.phase = .ready ∨ m.phase = .running)
    (himage : m.image = some image) :
    m.step = settle image.cursor (Processor.step ⟨image, m.stack, m.world⟩) := by
  obtain ⟨phase, loaded, stack, world⟩ := m
  simp only at hphase himage
  subst himage
  obtain rfl | rfl := hphase <;> rfl

def Live (m : Machine κ φ) : Prop := m.phase = .ready ∨ m.phase = .running

inductive StepCases (m : Machine κ φ) : Prop where
  | unloaded : m.phase = .unloaded → m.step = (.error { kind := .notLoaded }, m) → StepCases m
  | ended : m.phase = .ended → m.step = (.error { kind := .programEnded }, m) → StepCases m
  | detached : m.Live → m.image = none → m.step = (.error { kind := .notLoaded }, m) → StepCases m
  | live (i : Image) : m.Live → m.image = some i →
    m.step = Machine.settle i.cursor (Processor.step ⟨i, m.stack, m.world⟩) → StepCases m

theorem step_cases (m : Machine κ φ) : m.StepCases := by
  obtain ⟨phase, image, stack, world⟩ := m
  have hlive (phase : Phase) (hphase : phase = .ready ∨ phase = .running) :
      (Machine.mk phase image stack world).StepCases := by
    cases image with
    | none => exact .detached hphase rfl (by obtain rfl | rfl := hphase <;> rfl)
    | some i => exact .live i hphase rfl (step_eq_settle hphase rfl)
  cases phase with
  | unloaded => exact .unloaded rfl rfl
  | ended => exact .ended rfl rfl
  | ready => exact hlive _ (.inl rfl)
  | running => exact hlive _ (.inr rfl)

theorem Related.settle (hR : World.Stable R) {bytes : Array UInt8} (offset : Nat)
    {r r' : EStateM.Result Fault (Processor κ φ) Bool}
    (h : Agree (Processor.Related bytes capacity R) r r') :
    (settle offset r).1 = (settle offset r').1 ∧
    Related capacity R (settle offset r).2 (settle offset r').2 := by
  have hended {p q : Processor κ φ} (hpq : Processor.Related bytes capacity R p q) (phase : Phase) :
      Related capacity R ⟨phase, some p.image, p.stack, p.world⟩
        ⟨phase, some q.image, q.stack, q.world⟩ :=
    ⟨rfl, congrArg some hpq.image.1, hpq.stack, hpq.world⟩
  cases h with
  | @ok finished p q hpq =>
    cases finished with
    | false => exact ⟨rfl, hended hpq .running⟩
    | true => exact ⟨rfl, (hended hpq .ended).perform (hR.log _ _)⟩
  | error hpq => exact ⟨rfl, (hended hpq .ended).perform (hR.log _ _)⟩

theorem Related.step (hR : World.Stable R) (h : Related capacity R m n) :
    m.step.1 = n.step.1 ∧ Related capacity R m.step.2 n.step.2 := by
  obtain ⟨phase, image, stack, world⟩ := m
  obtain ⟨phase', image', stack', world'⟩ := n
  obtain ⟨hphase, himage, hstack, hworld⟩ := h
  simp only at hphase himage hstack hworld
  subst hphase himage
  have hlive (phase : Phase) (hphase : phase = .ready ∨ phase = .running) :
      (Machine.step ⟨phase, image, stack, world⟩).1 =
        (Machine.step ⟨phase, image, stack', world'⟩).1 ∧
        Related capacity R (Machine.step ⟨phase, image, stack, world⟩).2
          (Machine.step ⟨phase, image, stack', world'⟩).2 := by
    cases image with
    | none => obtain rfl | rfl := hphase <;> exact ⟨rfl, rfl, rfl, hstack, hworld⟩
    | some image =>
      rw [step_eq_settle hphase rfl, step_eq_settle hphase rfl]
      exact Related.settle hR _ (Processor.respects_step hR _ _ ⟨⟨rfl, rfl⟩, hstack, hworld⟩)
  cases phase with
  | unloaded => exact ⟨rfl, rfl, rfl, hstack, hworld⟩
  | ended => exact ⟨rfl, rfl, rfl, hstack, hworld⟩
  | ready => exact hlive _ (.inl rfl)
  | running => exact hlive _ (.inr rfl)

theorem Related.executeFrom (hR : World.Stable R) (cycles : Nat) (h : Related capacity R m n) :
    (m.executeFrom cycles).1 = (n.executeFrom cycles).1 ∧
      Related capacity R (m.executeFrom cycles).2 (n.executeFrom cycles).2 := by
  induction cycles generalizing m n with
  | zero => exact ⟨rfl, h⟩
  | succ cycles ih =>
    have hcontrol : m.control = n.control := hR.control h.world
    obtain ⟨hresult, hnext⟩ := h.step hR
    simp only [Machine.executeFrom, hcontrol]
    generalize m.step = r, n.step = r' at hresult hnext
    obtain ⟨result, m'⟩ := r
    obtain ⟨_, n'⟩ := r'
    simp only at hresult hnext
    subst hresult
    split
    · exact ⟨rfl, h⟩
    · split
      · exact ⟨rfl, rfl, h.image, h.stack, h.world⟩
      · cases result with
        | error fault => exact ⟨rfl, hnext⟩
        | ok =>
          simp only [hnext.isEnded]
          cases n'.isEnded with
          | true => exact ⟨rfl, hnext⟩
          | false => exact ih hnext

theorem Related.execute (hR : World.Stable R) (cycles : Nat) (h : Related capacity R m n) :
    (m.execute cycles).1 = (n.execute cycles).1 ∧
      Related capacity R (m.execute cycles).2 (n.execute cycles).2 := by
  simp only [Machine.execute, h.isEnded]
  cases n.isEnded with
  | true => exact ⟨rfl, h⟩
  | false => exact h.executeFrom hR cycles

theorem Related.dispose (hR : World.Stable R) (h : Related capacity R m n) :
    Related capacity R m.dispose n.dispose := by
  simp only [Machine.dispose, h.image]
  split
  · refine Related.perform ((hR.serve .dispose).bind fun _ => hR.log _ _) ?_
    exact ⟨rfl, rfl, h.stack, h.world⟩
  · exact h

end Machine

inductive Turn where
  | step
  | execute (cycles : Nat)
  deriving DecidableEq, Repr

inductive Response where
  | stepped (result : Except Fault Unit)
  | executed (outcome : Outcome)

inductive Command where
  | load (image : Image)
  | dispose
  | turn (t : Turn)
  | control (change : Control → Control)

namespace Machine

variable [Keyboard κ] [Disk φ]

def take (m : Machine κ φ) : Turn → Response × Machine κ φ
  | .step => m.step.map .stepped id
  | .execute cycles => (m.execute cycles).map .executed id

def obey (m : Machine κ φ) : Command → Machine κ φ
  | .load image => m.load image
  | .dispose => m.dispose
  | .turn t => (m.take t).2
  | .control change => m.setControl change

def obeyAll (m : Machine κ φ) (commands : List Command) : Machine κ φ := commands.foldl obey m

/-- The stack has its capacity and the world satisfies a predicate. -/
structure Upholds (capacity : Nat) (I : World κ φ → Prop) (m : Machine κ φ) : Prop where
  stack : m.stack.capacity = capacity
  world : I m.world

variable {capacity : Nat} {R : World κ φ → World κ φ → Prop} {I : World κ φ → Prop}
  {m n : Machine κ φ}

theorem Related.take (hR : World.Stable R) (t : Turn) (h : Related capacity R m n) :
    (m.take t).1 = (n.take t).1 ∧ Related capacity R (m.take t).2 (n.take t).2 := by
  cases t with
  | step => exact ⟨congrArg Response.stepped (h.step hR).1, (h.step hR).2⟩
  | execute cycles =>
    exact ⟨congrArg Response.executed (h.execute hR cycles).1, (h.execute hR cycles).2⟩

omit [Keyboard κ] [Disk φ] in
theorem upholds_iff_related : m.Upholds capacity I ↔ Related capacity (Diagonal I) m m :=
  ⟨fun h => ⟨rfl, rfl, ⟨h.stack, h.stack, rfl⟩, rfl, h.world⟩, fun h => ⟨h.stack.1, h.world.2⟩⟩

theorem respects_freshen (hI : World.Kept I) (attached : Bool) (image : Image) :
    Respects (Diagonal I) (freshen attached image) := by
  have hR := hI.stable
  have hclear : Respects (Diagonal I) (modify fun w : World κ φ => { w with
      bus := { w.bus with control := w.bus.control.reset }
      memory := w.memory.clear
      seed := 0 } : Effect κ φ Unit) :=
    Respects.diagonal fun w hw => ⟨(), _, rfl, hI.served (hI.clear hw) (.of_eq rfl rfl rfl rfl rfl)⟩
  cases attached with
  | true =>
    refine (hR.draw .clear).bind fun _ => (hR.draw .refresh).bind fun _ => ?_
    exact hclear.bind fun _ => (hR.type _).bind fun _ => hR.log _ _
  | false => exact hclear.bind fun _ => (hR.type _).bind fun _ => hR.log _ _

theorem Upholds.obey (hI : World.Kept I) (c : Command) (h : m.Upholds capacity I) :
    (m.obey c).Upholds capacity I := by
  have hr := upholds_iff_related.1 h
  cases c with
  | load image =>
    have hfresh := upholds_iff_related.2 (hr.perform (respects_freshen hI m.image.isSome image))
    exact ⟨hfresh.stack, hfresh.world⟩
  | dispose => exact upholds_iff_related.2 (hr.dispose hI.stable)
  | turn t => exact upholds_iff_related.2 (hr.take hI.stable t).2
  | control change => exact ⟨h.stack, hI.served h.world (.of_eq rfl rfl rfl rfl rfl)⟩

theorem Upholds.obeyAll (hI : World.Kept I) (commands : List Command) (h : m.Upholds capacity I) :
    (m.obeyAll commands).Upholds capacity I := by
  induction commands generalizing m with
  | nil => exact h
  | cons c commands ih => exact ih (h.obey hI c)

end Machine
end LavMachine
