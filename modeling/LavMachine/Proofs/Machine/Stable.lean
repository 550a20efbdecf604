import Mathlib
import LavMachine.Machine.Processor
import LavMachine.Proofs.Machine.Composed
set_option autoImplicit false

/-!
What an instruction can do to the world, said once. A relation between worlds is stable when related
worlds look the same to a program and stay related under each primitive effect: writing a byte,
opening a frame, adding a literal, seeding, and asking a peripheral. Every system call and every
instruction is put together from these, so it respects every stable relation.
-/
namespace LavMachine

variable {κ φ : Type}

structure World.Stable [Keyboard κ] [Disk φ] (R : World κ φ → World κ φ → Prop) : Prop where
  config {w v : World κ φ} : R w v → w.config = v.config
  memory {w v : World κ φ} : R w v → w.memory = v.memory
  seed {w v : World κ φ} : R w v → w.seed = v.seed
  keyboard {w v : World κ φ} : R w v → w.keyboard = v.keyboard
  control {w v : World κ φ} : R w v → w.bus.control = v.bus.control
  setByte {w v : World κ φ} (a : Nat) (b : UInt8) : R w v →
    R { w with memory := w.memory.setByte a b } { v with memory := v.memory.setByte a b }
  setOwnByte {w v : World κ φ} (a : Nat) (b : UInt8) : R w v →
    R { w with memory := w.memory.setOwnByte a b } { v with memory := v.memory.setOwnByte a b }
  setRegion {w v : World κ φ} (r : Region) : R w v →
    R { w with memory := w.memory.setRegion r } { v with memory := v.memory.setRegion r }
  setPool {w v : World κ φ} (text : Bytes) : R w v →
    R { w with memory := { w.memory with pool := (w.memory.pool.intern text).2 } }
      { v with memory := { v.memory with pool := (v.memory.pool.intern text).2 } }
  setSeed {w v : World κ φ} (seed : Word) : R w v → R { w with seed } { v with seed }
  draw (c : DisplayCall) : Respects R (World.draw c)
  type (c : TextCall) : Respects R (World.type c)
  ask (c : KeyCall) : Respects R (World.ask c)
  serve (c : DiskCall) : Respects R (World.serve c)
  log (level : LogLevel) (text : Unit → String) : Respects R (World.log level text)
  now : Respects R World.now

namespace World.Stable

variable [Keyboard κ] [Disk φ] {R : World κ φ → World κ φ → Prop} {α : Type}

theorem writes (h : Stable R) {w v : World κ φ} {m n : Memory} (hm : m.Writes n) (hr : R w v)
    (hw : w.memory = m) (hv : v.memory = m) : R { w with memory := n } { v with memory := n } := by
  induction hm generalizing w v with
  | refl m =>
    cases w
    cases v
    subst hw hv
    exact hr
  | setByte a b _ ih =>
    have hset := h.setByte a b hr
    have hn := ih hset (congrArg (·.setByte a b) hw) (congrArg (·.setByte a b) hv)
    exact hn

theorem changeMemory (h : Stable R) {f : Memory → Memory} (hf : ∀ m : Memory, m.Writes (f m)) :
    Respects R (World.changeMemory f) := by
  refine Respects.modify fun w v hr => ?_
  have hm := h.memory hr
  rw [← hm]
  exact h.writes (hf w.memory) hr rfl hm.symm

theorem readMemory (h : Stable R) (f : Memory → α) : Respects R (World.readMemory f) :=
  Respects.get (fun _ _ hr => by rw [h.memory hr]) fun _ => Respects.pure _

/-- What is composed of elementary effects respects every stable relation. -/
theorem composed (h : Stable R) {waits acts : Bool} {x : Effect κ φ α}
    (hx : Composed waits acts x) : Respects R x := by
  induction hx with
  | pure a => exact Respects.pure a
  | bind _ _ ihx ihk => exact ihx.bind ihk
  | look hsame _ ih =>
    exact Respects.get (fun w v hr =>
      hsame w v ⟨h.config hr, h.memory hr, h.seed hr, h.keyboard hr, h.control hr⟩) ih
  | changeMemory _ hf => exact h.changeMemory hf
  | seed f _ =>
    refine Respects.modifyGet fun w v hr => ?_
    rw [h.seed hr]
    exact ⟨rfl, h.setSeed _ hr⟩
  | draw c => exact h.draw c
  | type c => exact h.type c
  | ask c => exact h.ask c
  | serve c => exact h.serve c
  | log level text => exact h.log level text
  | now => exact h.now
  | require e =>
    cases e with
    | ok a => exact Respects.pure a
    | error e => exact Respects.throw e.fault

end World.Stable

def Body.Respects (R : World κ φ → World κ φ → Prop) {arity : Nat} : Body κ φ arity → Prop
  | .procedure run => ∀ v, LavMachine.Respects R (run v)
  | .function run => ∀ v, LavMachine.Respects R (run v)

variable [Keyboard κ] [Disk φ] {R : World κ φ → World κ φ → Prop}

theorem World.Stable.routine (h : World.Stable R) (c : SystemCall) :
    (c.routine : Routine κ φ).body.Respects R := by
  by_cases hc : c = .fillArea
  · subst hc
    exact fun _ => Respects.throw _
  · have hbody := c.composed_routine (κ := κ) (φ := φ) hc
    generalize (c.routine : Routine κ φ) = r at hbody
    obtain ⟨popping, arity, body⟩ := r
    cases body with
    | procedure run => exact fun v => h.composed (hbody v)
    | function run => exact fun v => h.composed (hbody v)

end LavMachine
