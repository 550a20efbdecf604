import Mathlib
import LavMachine.Disk.Hosted
import LavMachine.Keyboard.Terminal
import LavMachine.Proofs.Machine.Freshness
set_option autoImplicit false

namespace LavMachine

variable {κ φ : Type} {R : Control → Control → Prop}

@[simp] theorem Bus.control_note (b : Bus) (e : JournalEntry) :
    (b.note e).control = b.control := rfl

@[simp] theorem Bus.control_emit (b : Bus) (shown : Option String) :
    (b.emit shown).control = b.control := by
  cases shown <;> rfl

/-- The control as it was, or cancelled since. -/
def Control.Reaches (c d : Control) : Prop := d = c ∨ d = .cancelled

instance : IsPreorder Control Control.Reaches where
  refl _ := .inl rfl
  trans _ _ _ hcd hde := hde.elim (fun h => h ▸ hcd) .inr

/-- Whatever a keyboard or a disk is asked, the control after its answer is related to the one
before. -/
structure Governed (κ φ : Type) [Keyboard κ] [Disk φ] (R : Control → Control → Prop) : Prop where
  keyboard (c : KeyCall) (k : κ) (bus : Bus) : R bus.control (Keyboard.answer c k bus).2.2.control
  disk (c : DiskCall) (d : φ) (bus : Bus) : R bus.control (Disk.answer c d bus).2.2.control

namespace TerminalKeyboard

theorem reaches_poll (k : TerminalKeyboard) (bus : Bus) :
    bus.control.Reaches (k.poll bus).2.2.control := by
  rcases k with ⟨_ | ⟨_ | key, rest⟩, pending, held⟩
  · exact refl _
  · simp only [poll]
    split
    · exact .inr rfl
    · split <;> exact refl _
  · exact refl _

theorem reaches_pollUntil (fuel : Nat) (k : TerminalKeyboard) (bus : Bus) :
    bus.control.Reaches (pollUntil fuel k bus).2.2.control := by
  induction fuel generalizing k bus with
  | zero => exact refl _
  | succ fuel ih =>
    have hpoll := k.reaches_poll bus
    rw [pollUntil]
    split
    · exact refl _
    · split <;> rename_i heq <;> rw [heq] at hpoll
      · exact hpoll
      · exact trans_of Control.Reaches hpoll (ih _ _)
      · exact hpoll

theorem reaches_answer (c : KeyCall) (k : TerminalKeyboard) (bus : Bus) :
    bus.control.Reaches (answer c k bus).2.2.control := by
  have hpoll := k.reaches_poll bus
  have hwait : bus.control.Reaches (k.wait bus).2.2.control := by
    unfold wait
    split
    · exact refl _
    · exact reaches_pollUntil _ _ _
  cases c with
  | getChar | rawKey => exact hwait
  | inkey =>
    simp only [answer]
    split
    · exact refl _
    · split <;> rename_i heq <;> rw [heq] at hpoll <;> exact hpoll
  | check key =>
    simp only [answer]
    split <;> rename_i heq <;> rw [heq] at hpoll <;> exact hpoll
  | release key => exact refl _

end TerminalKeyboard

theorem HostedDisk.control_logged (c : DiskCall) (d : HostedDisk) (bus : Bus) :
    (logged c d bus).control = bus.control := by
  cases c with
  | openFile name mode =>
    simp only [logged]
    split <;> rfl
  | _ => rfl

theorem governed_terminal : Governed TerminalKeyboard HostedDisk Control.Reaches where
  keyboard := TerminalKeyboard.reaches_answer
  disk c d bus := .inl (d.control_logged c bus)

namespace World

theorem control_draw (c : DisplayCall) (w : World κ φ) :
    ∃ a v, draw c w = .ok a v ∧ v.bus.control = w.bus.control := by
  simp only [draw]
  split <;> exact ⟨_, _, rfl, by simp⟩

theorem control_type (c : TextCall) (w : World κ φ) :
    ∃ v, type c w = .ok () v ∧ v.bus.control = w.bus.control := by
  simp only [type]
  split <;> exact ⟨_, rfl, by simp⟩

variable [Keyboard κ] [Disk φ] [IsPreorder Control R]

theorem stable_governed (h : Governed κ φ R) (c : Control) :
    Stable (Diagonal fun w : World κ φ => R c w.bus.control) where
  config hr := by rw [hr.1]
  memory hr := by rw [hr.1]
  seed hr := by rw [hr.1]
  keyboard hr := by rw [hr.1]
  control hr := by rw [hr.1]
  setByte _ _ hr := ⟨by rw [hr.1], hr.2⟩
  setOwnByte _ _ hr := ⟨by rw [hr.1], hr.2⟩
  setRegion _ hr := ⟨by rw [hr.1], hr.2⟩
  setPool _ hr := ⟨by rw [hr.1], hr.2⟩
  setSeed _ hr := ⟨by rw [hr.1], hr.2⟩
  draw call := Respects.diagonal fun w hw => by
    obtain ⟨a, v, hv, hcontrol⟩ := control_draw call w
    exact ⟨a, v, hv, hcontrol ▸ hw⟩
  type call := Respects.diagonal fun w hw => by
    obtain ⟨v, hv, hcontrol⟩ := control_type call w
    exact ⟨(), v, hv, hcontrol ▸ hw⟩
  ask call := Respects.diagonal fun w hw =>
    ⟨_, _, rfl, trans_of R hw (h.keyboard call w.keyboard w.bus)⟩
  serve call := Respects.diagonal fun w hw => ⟨_, _, rfl, trans_of R hw (h.disk call w.disk w.bus)⟩
  log _ _ := Respects.diagonal fun _ hw => ⟨_, _, rfl, hw⟩
  now := Respects.diagonal fun _ hw => ⟨_, _, rfl, hw⟩

end World

inductive HostCall where
  | pause
  | resume
  | cancel
  | reset
  | load (image : Image)
  | execute (cycles : Nat)
  deriving DecidableEq

namespace HostCall

def command : HostCall → Command
  | pause => .control .pause
  | resume => .control .resume
  | cancel => .control .cancel
  | reset => .control .reset
  | load image => .load image
  | execute cycles => .turn (.execute cycles)

def renews : HostCall → Bool
  | reset | load _ => true
  | pause | resume | cancel | execute _ => false

def switches : HostCall → Bool
  | pause | resume => true
  | cancel | reset | load _ | execute _ => false

/-- The calls since the last reset or load, in a record kept newest first. -/
def recent (record : List HostCall) : List HostCall := record.takeWhile (!·.renews)

def act : HostCall → Control → Control
  | pause => .pause
  | resume => .resume
  | cancel => .cancel
  | reset | load _ => .reset
  | execute _ => id

theorem foldr_act_eq_cancelled_iff (record : List HostCall) :
    record.foldr act .running = .cancelled ↔ cancel ∈ recent record := by
  induction record with
  | nil => simp [recent]
  | cons c record ih =>
    simp only [recent, List.foldr_cons] at ih ⊢
    generalize record.foldr act .running = control at ih ⊢
    cases c with
    | cancel => simp [act, renews, Control.cancel]
    | reset | load => simp [act, renews, Control.reset]
    | execute cycles => simpa [act, renews] using ih
    | pause | resume =>
      cases control <;> simpa [act, renews, Control.pause, Control.resume] using ih

theorem foldr_act_eq_paused_iff (record : List HostCall) :
    record.foldr act .running = .paused ↔
      cancel ∉ recent record ∧ (recent record).find? switches = some pause := by
  induction record with
  | nil => simp [recent]
  | cons c record ih =>
    -- A pause takes hold unless the control is cancelled.
    have hcancelled := foldr_act_eq_cancelled_iff record
    simp only [recent, List.foldr_cons] at ih hcancelled ⊢
    generalize record.foldr act .running = control at ih hcancelled ⊢
    cases c with
    | cancel => simp [act, renews, Control.cancel]
    | reset | load => simp [act, renews, Control.reset]
    | execute cycles => simpa [act, renews, switches] using ih
    | pause =>
      rw [List.takeWhile_cons_of_pos rfl, List.find?_cons_of_pos rfl]
      cases control <;> simpa [act, Control.pause] using hcancelled
    | resume =>
      rw [List.takeWhile_cons_of_pos rfl, List.find?_cons_of_pos rfl]
      cases control <;> simp [act, Control.resume]

end HostCall

namespace Machine

variable {m : Machine κ φ}

theorem control_freshen (attached : Bool) (image : Image) (w : World κ φ) :
    ∃ v, freshen attached image w = .ok () v ∧ v.bus.control = .running := by
  have hfresh (w : World κ φ) :
      ∃ v, freshen false image w = .ok () v ∧ v.bus.control = .running := by
    let cleared : World κ φ := { w with
      bus := { w.bus with control := w.bus.control.reset }
      memory := w.memory.clear
      seed := 0 }
    obtain ⟨v, hmode, hcontrol⟩ := World.control_type (.setMode 0) cleared
    let report : Effect κ φ Unit :=
      World.log .debug fun _ => s!"loaded name={Quoted.text image.name} len={image.size}"
    have hfreshen :
        freshen false image w = (World.type (.setMode 0) >>= fun _ => report) cleared := rfl
    rw [hfreshen]
    simp only [bind, EStateM.bind, hmode]
    exact ⟨_, rfl, hcontrol⟩
  cases attached with
  | false => exact hfresh w
  | true =>
    obtain ⟨_, v, hclear, _⟩ := World.control_draw .clear w
    obtain ⟨_, v', hrefresh, _⟩ := World.control_draw .refresh v
    obtain ⟨u, hu, hcontrol⟩ := hfresh v'
    refine ⟨u, ?_, hcontrol⟩
    rw [freshen_attached]
    simp only [bind, EStateM.bind, hclear, hrefresh, hu]

theorem control_load (m : Machine κ φ) (image : Image) : (m.load image).control = .running := by
  obtain ⟨v, hv, hcontrol⟩ := control_freshen m.image.isSome image m.world
  simp only [load, perform, hv, control, hcontrol]

variable [Keyboard κ] [Disk φ]

theorem control_execute [IsPreorder Control R] (h : Governed κ φ R) (m : Machine κ φ)
    (cycles : Nat) :
    R m.control (m.execute cycles).2.control := by
  have hm : m.Upholds m.stack.capacity fun w => R m.control w.bus.control := ⟨rfl, refl_of R _⟩
  exact (upholds_iff_related.2
    ((upholds_iff_related.1 hm).execute (World.stable_governed h _) cycles).2).world

/-- What a call adds to the record. A batch during which a peripheral has cancelled the session is
followed by that cancellation. -/
def heard (m : Machine κ φ) : HostCall → List HostCall
  | .execute cycles =>
    if m.control ≠ .cancelled ∧ (m.execute cycles).2.control = .cancelled then
      [.cancel, .execute cycles]
    else [.execute cycles]
  | call => [call]

def attend (s : List HostCall × Machine κ φ) (call : HostCall) : List HostCall × Machine κ φ :=
  (s.2.heard call ++ s.1, s.2.obey call.command)

def attendAll (m : Machine κ φ) (calls : List HostCall) : List HostCall × Machine κ φ :=
  calls.foldl attend ([], m)

theorem control_obey (h : Governed κ φ Control.Reaches) (m : Machine κ φ) (call : HostCall) :
    (m.obey call.command).control = (m.heard call).foldr HostCall.act m.control := by
  cases call with
  | pause | resume | cancel | reset => rfl
  | load image => exact m.control_load image
  | execute cycles =>
    change (m.execute cycles).2.control = _
    have hreaches := m.control_execute h cycles
    simp only [heard]
    split
    · simp_all [HostCall.act, Control.cancel]
    · rename_i hkept
      obtain hsame | hcancelled := hreaches
      · simpa [HostCall.act] using hsame
      · have hbefore : m.control = .cancelled := not_not.1 fun hne => hkept ⟨hne, hcancelled⟩
        simp [HostCall.act, hcancelled, hbefore]

theorem control_attendAll (h : Governed κ φ Control.Reaches) (m : Machine κ φ)
    (calls : List HostCall) :
    (m.attendAll calls).2.control = (m.attendAll calls).1.foldr HostCall.act m.control := by
  have hrun : ∀ s : List HostCall × Machine κ φ, s.2.control = s.1.foldr HostCall.act m.control →
      (calls.foldl attend s).2.control = (calls.foldl attend s).1.foldr HostCall.act m.control := by
    induction calls with
    | nil => exact fun s hs => hs
    | cons call calls ih =>
      intro s hs
      refine ih (attend s call) ?_
      rw [attend, control_obey h, hs, List.foldr_append]
  exact hrun ([], m) rfl

theorem record_of_governed (h : Governed κ φ Eq) (m : Machine κ φ) (calls : List HostCall) :
    (m.attendAll calls).1 = calls.reverse := by
  have hheard (n : Machine κ φ) (call : HostCall) : n.heard call = [call] := by
    cases call with
    | execute cycles =>
      have hsame := n.control_execute h cycles
      simp only [heard]
      exact if_neg fun hc => hc.1 (hsame.trans hc.2)
    | _ => rfl
  have hrecord (s : List HostCall × Machine κ φ) :
      (calls.foldl attend s).1 = calls.reverse ++ s.1 := by
    induction calls generalizing s with
    | nil => rfl
    | cons call calls ih => simp [ih, attend, hheard]
  rw [attendAll, hrecord, List.append_nil]

/-- A cancelled machine takes no step. The first batch ends its program and leaves all else as it
was. From then on every batch finds the program ended, until another one is loaded. -/
structure Halts (m : Machine κ φ) : Prop where
  first {n : Nat} : 0 < n → m.phase ≠ .ended →
    m.execute n = (.fault { kind := .interrupted }, { m with phase := .ended })
  idle {n : Nat} : n = 0 ∨ m.phase = .ended → (m.execute n).2 = m
  later {n : Nat} {calls : List HostCall} : 0 < n → (∀ c ∈ calls, ¬ c.command.Loads) →
    let after := (m.execute n).2.obeyAll (calls.map HostCall.command)
    m.Rests after ∧ ∀ k, after.execute k = (.ended, after)

theorem halts_of_cancelled (h : m.control = .cancelled) : m.Halts := by
  have hfirst {n : Nat} (hn : 0 < n) (hphase : m.phase ≠ .ended) :
      m.execute n = (.fault { kind := .interrupted }, { m with phase := .ended }) := by
    obtain ⟨n, rfl⟩ := Nat.exists_eq_succ_of_ne_zero (Nat.ne_of_gt hn)
    simp [execute_of_not_ended hphase, executeFrom, h, Control.isPaused, Control.checkpoint,
      DeviceFailure.fault]
  refine ⟨hfirst, fun hidle => ?_, fun {n calls} hn hcalls => ?_⟩
  · by_cases hphase : m.phase = .ended
    · rw [execute_of_ended hphase]
    · obtain rfl := hidle.resolve_right hphase
      rw [execute_of_not_ended hphase]
      rfl
  · have hrests : m.Rests (m.execute n).2 := by
      by_cases hphase : m.phase = .ended
      · rw [execute_of_ended hphase]
        exact ⟨hphase, rfl, rfl, rfl⟩
      · rw [hfirst hn hphase]
        exact ⟨rfl, rfl, rfl, rfl⟩
    have hafter := hrests.obeyAll (List.forall_mem_map.2 hcalls)
    exact ⟨hafter, execute_of_ended hafter.phase⟩

variable {config : Config} {display : Display} {teletype : Teletype} {keyboard : κ} {disk : φ}
  {journal : Journal} {clock : Clock}

/-- Whatever a host asks of a new machine, the control is cancelled exactly when a cancellation has
come since the last reset or load, and paused when none has and the last switch since then was a
pause. -/
theorem cancellation_lasts (hperipherals : Governed κ φ Control.Reaches)
    (hcreate : create config display teletype keyboard disk journal clock = .ok m)
    (calls : List HostCall) :
    let record := (m.attendAll calls).1
    let after := (m.attendAll calls).2
    (after.control = .cancelled ↔ .cancel ∈ HostCall.recent record) ∧
    (after.control = .paused ↔
      .cancel ∉ HostCall.recent record ∧
      (HostCall.recent record).find? HostCall.switches = some .pause) ∧
    (Governed κ φ Eq → record = calls.reverse) ∧
    (after.control = .cancelled → after.Halts) := by
  intro record after
  have hnew : m.control = .running := by
    rw [(create_eq_ok hcreate).1]
    rfl
  have hcontrol : after.control = record.foldr HostCall.act .running := by
    rw [← hnew]
    exact m.control_attendAll hperipherals calls
  refine ⟨?_, ?_, fun hquiet => m.record_of_governed hquiet calls, halts_of_cancelled⟩
  · rw [hcontrol]
    exact HostCall.foldr_act_eq_cancelled_iff record
  · rw [hcontrol]
    exact HostCall.foldr_act_eq_paused_iff record

/-- Control-C is read in the middle of a batch. Neither pausing nor resuming takes it back. -/
theorem cancellation_lasts_control_c :
    let clock : Clock := { reading := fun _ => ⟨2000, 0, 1, 0, 0, 0, 0, 7⟩ }
    let code : Image :=
      ⟨"KEYS", #[76, 65, 86, 18, 0, 0, 0, 0, 0, 0, 0, 0, 0, 0, 0, 0, 147, 147, 147, 64],
        Image.headerSize⟩
    let keyboard : TerminalKeyboard := { events := [.other, .key (.control 'c')] }
    let disk : HostedDisk := { tree := .empty, root := [] }
    ∃ m, create {} .detached .detached keyboard disk .quiet clock = .ok m ∧
      let record := (m.attendAll [.load code, .execute 2, .pause, .resume]).1
      let after := (m.attendAll [.load code, .execute 2, .pause, .resume]).2
      record = [.resume, .pause, .cancel, .execute 2, .load code] ∧ after.phase = .running ∧
        after.execute 5 = (.fault { kind := .interrupted }, { after with phase := .ended }) ∧
        ((after.execute 5).2.obeyAll [.control .reset]).execute 1 =
          (.ended, (after.execute 5).2.obeyAll [.control .reset]) := by
  intro clock code keyboard disk
  let m := initial {} .detached .detached keyboard disk .quiet clock
  have hcreate : create {} .detached .detached keyboard disk .quiet clock = .ok m := rfl
  refine ⟨m, hcreate, ?_⟩
  intro record after
  have hrecord : record = [.resume, .pause, .cancel, .execute 2, .load code] := by decide +kernel
  have hphase : after.phase = .running := by decide +kernel
  obtain ⟨hcancelled, _, _, hhalts⟩ :=
    cancellation_lasts governed_terminal hcreate [.load code, .execute 2, .pause, .resume]
  have hmem : .cancel ∈ HostCall.recent record := by rw [hrecord]; decide
  have hstopped : after.Halts := hhalts (hcancelled.2 hmem)
  have hnone : ∀ c ∈ [HostCall.reset], ¬ c.command.Loads := by
    simp [HostCall.command, Command.Loads]
  exact ⟨hrecord, hphase, hstopped.first (by decide) (by simp [hphase]),
    (hstopped.later (by decide) hnone).2 1⟩

end Machine
end LavMachine
