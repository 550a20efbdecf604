import Mathlib
import LavMachine.Machine.Routine
import LavMachine.Proofs.Agreement
import LavMachine.Proofs.Memory.Writes
set_option autoImplicit false

/-!
What the routines of the library are put together from: looks at the world, chains of writes to
memory, the seed, and calls to the peripherals. Only a routine that waits (for a key or for time to
pass) turns a peripheral's failure into a fault; every other one comes to its end. Only a few write
memory or the seed themselves.
-/
namespace LavMachine

variable {κ φ : Type}

namespace World

structure SameView (w v : World κ φ) : Prop where
  config : w.config = v.config
  memory : w.memory = v.memory
  seed : w.seed = v.seed
  keyboard : w.keyboard = v.keyboard
  control : w.bus.control = v.bus.control

/-- Put together from elementary effects; `waits` allows a peripheral to stop it, and `acts` allows
it to write memory and seed. -/
inductive Composed [Keyboard κ] [Disk φ] (waits acts : Bool) :
    {α : Type} → Effect κ φ α → Prop where
  | pure {α : Type} (a : α) : Composed waits acts (Pure.pure a)
  | bind {α β : Type} {x : Effect κ φ α} {k : α → Effect κ φ β} :
    Composed waits acts x → (∀ a, Composed waits acts (k a)) → Composed waits acts (x >>= k)
  | look {α : Type} {k : World κ φ → Effect κ φ α} :
    (∀ w v, SameView w v → k w = k v) → (∀ w, Composed waits acts (k w)) →
    Composed waits acts (get >>= k)
  | changeMemory {f : Memory → Memory} :
    acts = true → (∀ m : Memory, m.Writes (f m)) → Composed waits acts (changeMemory f)
  | seed {α : Type} (f : Word → α × Word) : acts = true →
    Composed waits acts (modifyGet fun w => ((f w.seed).1, { w with seed := (f w.seed).2 }))
  | draw (c : DisplayCall) : Composed waits acts (draw c)
  | type (c : TextCall) : Composed waits acts (type c)
  | ask (c : KeyCall) : Composed waits acts (ask c)
  | serve (c : DiskCall) : Composed waits acts (serve c)
  | log (level : LogLevel) (text : Unit → String) : Composed waits acts (log level text)
  | now : Composed waits acts now
  | require {α : Type} (e : Except DeviceFailure α) : waits = true → Composed waits acts (require e)

namespace Composed

variable [Keyboard κ] [Disk φ] {waits acts : Bool} {α : Type}

theorem readMemory (f : Memory → α) : Composed waits acts (readMemory f : Effect κ φ α) :=
  .look (fun _ _ h => by rw [h.memory]) fun _ => .pure _

theorem forM {x : α → Effect κ φ PUnit} (hx : ∀ a, Composed waits acts (x a)) (l : List α) :
    Composed waits acts (l.forM x) := by
  induction l with
  | nil => exact .pure _
  | cons a l ih => exact .bind (hx a) fun _ => ih

theorem sleep : Composed true acts (sleep : Effect κ φ Unit) :=
  .look (fun _ _ h => by rw [h.control]) fun _ => .require _ rfl

theorem shape (mode : Word) (c : DisplayCall) :
    Composed waits acts (SystemCall.shape mode c : Effect κ φ Unit) :=
  .bind (.draw _) fun _ => .bind (.draw c) fun _ => .pure _

theorem waitKey : Composed true acts (SystemCall.waitKey : Effect κ φ Word) :=
  .bind (.ask .getChar) fun answer => .require answer rfl

theorem named (a : Word) {run : Bytes → Effect κ φ Bool}
    (hrun : ∀ name, Composed waits acts (run name)) :
    Composed waits acts (SystemCall.named a run) :=
  .bind (readMemory _) fun name => .bind (hrun name) fun _ => .pure _

theorem readInto (dst size handle : Word) :
    Composed waits true (SystemCall.readInto dst size handle : Effect κ φ Word) := by
  refine .bind (.bind (.serve _) fun _ => .pure _) fun answer => ?_
  exact .bind (.changeMemory rfl fun m => m.writes_writeBlock _ _) fun _ => .pure _

theorem redraw (width height : Int16) (s : Picker.State) :
    Composed waits acts (Picker.redraw width height s : Effect κ φ Unit) := by
  refine .bind (.draw _) fun _ => .bind (.draw _) fun _ => .bind (.draw _) fun _ => ?_
  refine .bind (forM (fun line => .draw _) _) fun _ => ?_
  exact .bind (.draw _) fun _ => .draw _

theorem pickerWaitKey : Composed true acts (Picker.waitKey : Effect κ φ Word) :=
  .bind (.ask .rawKey) fun answer => .require answer rfl

theorem pickerRun (width height : Int16) (keys : KeyMap) (fuel : Nat) (s : Picker.State) :
    Composed true acts (Picker.run width height keys fuel s : Effect κ φ (Option Bytes)) := by
  induction fuel generalizing s with
  | zero => exact .bind pickerWaitKey fun _ => .pure _
  | succ fuel ih =>
    refine .bind pickerWaitKey fun key => ?_
    split
    · exact .pure _
    · exact .pure _
    · exact .bind (redraw width height _) fun _ => ih _
    · exact ih s
    · exact ih s

theorem pick (a : Nat) : Composed true true (Picker.pick a : Effect κ φ Word) := by
  refine .bind (.serve .count) fun count => .bind (.serve _) fun names => ?_
  refine .look (fun _ _ h => by rw [h.config]) fun _ => ?_
  refine .look (fun _ _ h => by rw [h.keyboard]) fun _ => ?_
  refine .bind (.log _ _) fun _ => .bind (redraw _ _ _) fun _ => ?_
  refine .bind (pickerRun _ _ _ _ _) fun choice => ?_
  split
  · exact .bind (.changeMemory rfl fun m => (m.writesIn_terminated _ _ _).writes) fun _ => .pure _
  · exact .pure _

/-- Only a peripheral's failure stops an effect, and only one that waits. -/
theorem eq_error {x : Effect κ φ α} (hx : Composed waits acts x) {w v : World κ φ} {f : Fault}
    (h : x w = .error f v) : waits = true ∧ ∃ e : DeviceFailure, f = e.fault := by
  induction hx generalizing w v with
  | bind _ _ ihx ihk =>
    obtain hx | ⟨a, u, _, hk⟩ := bind_eq_error h
    · exact ihx hx
    · exact ihk a hk
  | look _ _ ih => exact ih w h
  | draw c =>
    unfold World.draw at h
    split at h <;> cases h
  | type c =>
    unfold World.type at h
    split at h <;> cases h
  | require e hwaits =>
    cases e with
    | ok a => cases h
    | error e =>
      obtain ⟨rfl, _⟩ := EStateM.Result.error.inj h
      exact ⟨hwaits, e, rfl⟩
  | pure | changeMemory | seed | ask | serve | log | now => cases h

theorem total {x : Effect κ φ α} (hx : Composed false acts x) (w : World κ φ) :
    ∃ a v, x w = .ok a v := by
  cases h : x w with
  | ok a v => exact ⟨a, v, rfl⟩
  | error f v => cases (hx.eq_error h).1

end Composed
end World

def SystemCall.waits : SystemCall → Bool
  | .getChar | .getWord | .delay | .pickFile => true
  | _ => false

def SystemCall.acts : SystemCall → Bool
  | .copyString | .appendString | .fillMemory | .copyMemory | .moveMemory | .mask | .readFile
  | .getTime | .getBlock | .pickFile | .random | .seedRandom => true
  | _ => false

def Body.Composed [Keyboard κ] [Disk φ] (waits acts : Bool) {arity : Nat} : Body κ φ arity → Prop
  | .procedure run => ∀ v, World.Composed waits acts (run v)
  | .function run => ∀ v, World.Composed waits acts (run v)

open World in
/-- One call has no body yet; all others are composed. -/
theorem SystemCall.composed_routine [Keyboard κ] [Disk φ] :
    (c : SystemCall) → c ≠ .fillArea → (c.routine : Routine κ φ).body.Composed c.waits c.acts
  | .putChar, _ => fun _ => .bind (.type _) fun _ => .type _
  | .getChar, _ => fun _ => Composed.waitKey
  | .copyString, _ => fun _ => .changeMemory rfl fun m => m.writes_copyString _ _
  | .stringLength, _ => fun _ => Composed.readMemory _
  | .setScreen, _ => fun _ => .type _
  | .updateLcd, _ => fun _ => .type _
  | .delay, _ => fun v => by
    change Composed true false (if _ then _ else _)
    split
    · exact Composed.sleep
    · exact .pure _
  | .writeBlock, _ => fun _ => .bind (Composed.readMemory _) fun _ => Composed.shape _ _
  | .refresh, _ => fun _ => .draw _
  | .textOut, _ => fun _ => .bind (Composed.readMemory _) fun _ => Composed.shape _ _
  | .rectangle _, _ => fun _ => Composed.shape _ _
  | .clearScreen, _ => fun _ => .draw _
  | .random, _ =>
    fun _ => .seed (fun seed => (Random.output (Random.next seed), Random.next seed)) rfl
  | .seedRandom, _ => fun v : Fin 1 → Word => .seed (fun _ => ((), v 0)) rfl
  | .locate, _ => fun _ => .type _
  | .inkey, _ => fun _ => .ask .inkey
  | .point, _ => fun _ => Composed.shape _ _
  | .getPoint, _ => fun _ => .draw (.getPoint _ _)
  | .line, _ => fun _ => Composed.shape _ _
  | .box, _ => fun _ => Composed.shape _ _
  | .circle, _ => fun _ => Composed.shape _ _
  | .ellipse, _ => fun _ => Composed.shape _ _
  | .isClass _, _ => fun _ => .pure _
  | .appendString, _ => fun _ => .changeMemory rfl fun m => m.writes_appendString _ _
  | .findChar, _ => fun _ => Composed.readMemory _
  | .compareStrings, _ => fun _ => Composed.readMemory _
  | .findString, _ => fun _ => Composed.readMemory _
  | .toLower, _ => fun _ => .pure _
  | .toUpper, _ => fun _ => .pure _
  | .fillMemory, _ => fun _ => .changeMemory rfl fun m => (m.writesIn_fill _ _ _).writes
  | .copyMemory, _ => fun _ => .changeMemory rfl fun m => (m.writesIn_copyUp _ _ _).writes
  | .moveMemory, _ => fun _ => .changeMemory rfl fun m => (m.writesIn_move _ _ _).writes
  | .openFile, _ => fun _ =>
    .bind (Composed.readMemory _) fun _ => .bind (Composed.readMemory _) fun _ =>
      .serve (.openFile _ _)
  | .closeFile, _ => fun _ => .serve (.close _)
  | .readFile, _ => fun _ => Composed.readInto _ _ _
  | .writeFile, _ => fun _ => .bind (Composed.readMemory _) fun _ => .serve (.write _ _)
  | .seekFile, _ => fun _ => .serve (.seek _ _ _)
  | .tellFile, _ => fun _ => .serve (.tell _)
  | .atEndOfFile, _ => fun _ => .bind (.serve (.atEnd _)) fun _ => .pure _
  | .rewindFile, _ => fun _ => .serve (.rewind _)
  | .getByte, _ => fun _ => .serve (.getByte _)
  | .putByte, _ => fun _ => .serve (.putByte _ _)
  | .makeDirectory, _ => fun _ => Composed.named _ fun _ => .serve (.makeDirectory _)
  | .deleteFile, _ => fun _ => Composed.named _ fun _ => .serve (.delete _)
  | .changeDirectory, _ => fun _ => Composed.named _ fun _ => .serve (.changeDirectory _)
  | .ticks, _ => fun _ => .bind .now fun _ => .pure _
  | .checkKey, _ => fun _ => .ask (.check _)
  | .checksum, _ => fun _ => Composed.readMemory _
  | .mask, _ => fun _ => .changeMemory rfl fun m => (m.writesIn_mask _ _ _).writes
  | .pickFile, _ => fun _ => Composed.pick _
  | .getTime, _ => fun _ => .bind .now fun _ => .changeMemory rfl fun m => m.writes_writeBlock _ _
  | .setTime, _ => fun _ => .pure _
  | .getWord, _ => fun _ => Composed.waitKey
  | .transform, _ => fun _ => .draw _
  | .releaseKey, _ => fun _ => .ask (.release _)
  | .getBlock, _ => fun _ => .bind (.draw _) fun _ => .bind (.draw _) fun _ =>
    .changeMemory rfl fun m => m.writes_writeBlock _ _
  | .cosine, _ => fun _ => .pure _
  | .sine, _ => fun _ => .pure _
  | .fillArea, h => absurd rfl h

end LavMachine
