import Mathlib
import LavMachine.Proofs.Machine.Composed
set_option autoImplicit false

namespace LavMachine

variable {κ φ : Type}

theorem not_error_of_ok {α : Type} {x : Effect κ φ α} {w v : World κ φ} {a : α}
    (h : x w = .ok a v) : ¬ ∃ f u, x w = .error f u := by
  rintro ⟨f, u, herror⟩
  cases h.symm.trans herror

namespace Picker

def listing [Disk φ] (w : World κ φ) : List String :=
  let (count, disk, bus) := Disk.answer .count w.disk w.bus
  (Disk.answer (.list 0 count) disk bus).1

def offers [Disk φ] (w : World κ φ) : List Bytes := [0x2e, 0x2e] :: (listing w).map Gbk.encode

def opened [Disk φ] (w : World κ φ) : World κ φ :=
  let (count, disk, bus) := Disk.answer .count w.disk w.bus
  let (_, disk, bus) := Disk.answer (.list 0 count) disk bus
  let entries := (offers w).length
  { w with disk, bus := bus.log .debug fun _ => s!"file picker entries={entries}" }

section Starves

variable [Keyboard κ] (width height : Int16) (keys : KeyMap)

/-- None of the keys to come ends the visit before the keyboard fails to give one. -/
inductive Starves : State → World κ φ → Prop where
  | failed {s : State} {w : World κ φ} {e : DeviceFailure} {keyboard : κ} {bus : Bus} :
    Keyboard.answer .rawKey w.keyboard w.bus = (.error e, keyboard, bus) → Starves s w
  | stay {s : State} {w : World κ φ} {key : Word} {keyboard : κ} {bus : Bus} :
    Keyboard.answer .rawKey w.keyboard w.bus = (.ok key, keyboard, bus) →
    choose keys s key = .other ∨ choose keys s key = .move none →
    Starves s { w with keyboard, bus } → Starves s w
  | move {s next : State} {w shown : World κ φ} {key : Word} {keyboard : κ} {bus : Bus} :
    Keyboard.answer .rawKey w.keyboard w.bus = (.ok key, keyboard, bus) →
    choose keys s key = .move (some next) →
    redraw width height next { w with keyboard, bus } = .ok () shown → Starves next shown →
    Starves s w

/-- The picker draws its list and starves. -/
def Refused [Disk φ] (w : World κ φ) : Prop :=
  let width := Int16.ofNat w.config.screenWidth
  let height := Int16.ofNat w.config.screenHeight
  let start := State.ofNames (listing w) w.config.screenHeight
  ∃ shown, redraw width height start (opened w) = .ok () shown ∧
    Starves width height (Keyboard.keyMap w.keyboard) start shown

end Starves

theorem respects_keyboard_draw (k : κ) (c : DisplayCall) :
    Respects (Diagonal fun w : World κ φ => w.keyboard = k) (World.draw c) := by
  refine Respects.diagonal fun w hw => ?_
  unfold World.draw
  split <;> exact ⟨_, _, rfl, hw⟩

theorem redraw_eq_ok [Keyboard κ] [Disk φ] (width height : Int16) (s : State) (w : World κ φ) :
    ∃ v, redraw width height s w = .ok () v ∧ v.keyboard = w.keyboard := by
  have hrespects :
      Respects (Diagonal fun v : World κ φ => v.keyboard = w.keyboard) (redraw width height s) := by
    refine .bind (respects_keyboard_draw _ _) fun _ =>
      .bind (respects_keyboard_draw _ _) fun _ => ?_
    refine .bind (respects_keyboard_draw _ _) fun _ =>
      .bind (.forM (fun _ => respects_keyboard_draw _ _) _) fun _ => ?_
    exact .bind (respects_keyboard_draw _ _) fun _ => respects_keyboard_draw _ _
  have hcomposed : World.Composed false false (redraw width height s : Effect κ φ Unit) :=
    .redraw width height s
  obtain ⟨_, v, hv⟩ := hcomposed.total w
  obtain ⟨_, _, _, hkeyboard⟩ := hrespects.of_ok ⟨rfl, rfl⟩ hv
  exact ⟨v, hv, hkeyboard⟩

section Run

variable [Keyboard κ] {width height : Int16} {keys : KeyMap} {s : State} {w : World κ φ}
  {keyboard : κ} {bus : Bus}

theorem ask_of_answer {answer : Except DeviceFailure Word}
    (h : Keyboard.answer .rawKey w.keyboard w.bus = (answer, keyboard, bus)) :
    World.ask .rawKey w = .ok answer { w with keyboard, bus } := by
  simp only [World.ask, h]

theorem run_of_error {fuel : Nat} {e : DeviceFailure}
    (h : Keyboard.answer .rawKey w.keyboard w.bus = (.error e, keyboard, bus)) :
    run width height keys fuel s w = .error e.fault { w with keyboard, bus } := by
  cases fuel <;> simp only [run, waitKey, bind, EStateM.bind, ask_of_answer h] <;> rfl

theorem run_of_ok {fuel : Nat} {key : Word}
    (h : Keyboard.answer .rawKey w.keyboard w.bus = (.ok key, keyboard, bus)) :
    run width height keys (fuel + 1) s w =
      (match choose keys s key with
        | .enter => return some s.chosen
        | .escape => return none
        | .move (some next) => do
          redraw width height next
          run width height keys fuel next
        | .move none | .other => run width height keys fuel s : Effect κ φ (Option Bytes))
        { w with keyboard, bus } := by
  rcases hchoose : choose keys s key with _ | _ | (_ | _) | _ <;>
    simp only [run, waitKey, bind, EStateM.bind, ask_of_answer h, World.require, pure, EStateM.pure,
      hchoose]

theorem starves_iff_of_ok {key : Word}
    (h : Keyboard.answer .rawKey w.keyboard w.bus = (.ok key, keyboard, bus)) :
    Starves width height keys s w ↔
      match choose keys s key with
      | .enter | .escape => False
      | .move (some next) =>
        ∃ shown, redraw width height next { w with keyboard, bus } = .ok () shown ∧
          Starves width height keys next shown
      | .move none | .other => Starves width height keys s { w with keyboard, bus } := by
  constructor
  · rintro (hfailed | ⟨hkey, hstay, hrest⟩ | ⟨hkey, hmove, hredraw, hrest⟩)
    · cases h.symm.trans hfailed
    · cases h.symm.trans hkey
      obtain hstay | hstay := hstay <;> simpa only [hstay] using hrest
    · cases h.symm.trans hkey
      simp only [hmove]
      exact ⟨_, hredraw, hrest⟩
  · cases hchoose : choose keys s key with
    | enter | escape => exact False.elim
    | other => exact .stay h (.inl hchoose)
    | move next =>
      cases next with
      | none => exact .stay h (.inr hchoose)
      | some next =>
        rintro ⟨shown, hredraw, hrest⟩
        exact .move h hchoose hredraw hrest

/-- Every key that is read lowers the supply, so with fuel for the whole supply the loop fails only
with the keyboard. -/
theorem run_eq_error_iff [Disk φ] {fuel : Nat} (hfuel : Keyboard.supply w.keyboard ≤ fuel) :
    (∃ f v, run width height keys fuel s w = .error f v) ↔ Starves width height keys s w := by
  induction fuel generalizing s w with
  | zero =>
    rcases hanswer : Keyboard.answer .rawKey w.keyboard w.bus with ⟨_ | key, keyboard, bus⟩
    · exact iff_of_true ⟨_, _, run_of_error hanswer⟩ (.failed hanswer)
    · have hless := Keyboard.supply_rawKey hanswer
      omega
  | succ fuel ih =>
    rcases hanswer : Keyboard.answer .rawKey w.keyboard w.bus with ⟨_ | key, keyboard, bus⟩
    · exact iff_of_true ⟨_, _, run_of_error hanswer⟩ (.failed hanswer)
    · have hless := Keyboard.supply_rawKey hanswer
      have hstay : Keyboard.supply keyboard ≤ fuel := by omega
      rw [run_of_ok hanswer, starves_iff_of_ok hanswer]
      cases choose keys s key with
      | enter => exact iff_of_false (not_error_of_ok rfl) id
      | escape => exact iff_of_false (not_error_of_ok rfl) id
      | other => exact ih (w := { w with keyboard, bus }) hstay
      | move next =>
        cases next with
        | none => exact ih (w := { w with keyboard, bus }) hstay
        | some next =>
          obtain ⟨shown, hredraw, hkeyboard⟩ :=
            redraw_eq_ok width height next { w with keyboard, bus }
          have hrest : _ ↔ Starves width height keys next shown := ih (by rwa [hkeyboard])
          simp only [bind, EStateM.bind, hredraw, EStateM.Result.ok.injEq, true_and,
            exists_eq_left']
          exact hrest

end Run

theorem pick_eq_run [Keyboard κ] [Disk φ] (a : Nat) {w shown : World κ φ}
    (hredraw : redraw (Int16.ofNat w.config.screenWidth) (Int16.ofNat w.config.screenHeight)
      (.ofNames (listing w) w.config.screenHeight) (opened w) = .ok () shown) :
    pick a w = (run (Int16.ofNat w.config.screenWidth) (Int16.ofNat w.config.screenHeight)
        (Keyboard.keyMap w.keyboard) (Keyboard.supply w.keyboard)
          (.ofNames (listing w) w.config.screenHeight) >>=
      fun choice => match choice with
        | some name => do
          World.changeMemory fun m => (m.writeBlock a name).setByte (a + name.length) 0
          return Word.ofBool true
        | none => return Word.ofBool false) shown := by
  have hpick : pick a w =
      (redraw _ _ (.ofNames (listing w) _) >>= fun _ => run _ _ _ _ (.ofNames (listing w) _) >>= _)
        (opened w) := rfl
  exact hpick.trans (bind_of_ok hredraw)

theorem pick_eq_error_iff [Keyboard κ] [Disk φ] (a : Nat) (w : World κ φ) :
    (∃ f v, pick a w = .error f v) ↔ Refused w := by
  obtain ⟨shown, hredraw, hkeyboard⟩ := redraw_eq_ok (Int16.ofNat w.config.screenWidth)
    (Int16.ofNat w.config.screenHeight) (.ofNames (listing w) w.config.screenHeight) (opened w)
  have hfuel : Keyboard.supply shown.keyboard ≤ Keyboard.supply w.keyboard := by
    rw [hkeyboard]
    exact Nat.le_refl _
  simp only [Refused, hredraw, EStateM.Result.ok.injEq, true_and, exists_eq_left',
    pick_eq_run a hredraw]
  rw [← run_eq_error_iff hfuel]
  simp only [bind, EStateM.bind]
  generalize run _ _ _ _ _ shown = result
  cases result with
  | error f v => exact iff_of_true ⟨_, _, rfl⟩ ⟨_, _, rfl⟩
  | ok choice v =>
    cases choice <;> exact iff_of_false (not_error_of_ok rfl) (by rintro ⟨_, _, h⟩; cases h)

end Picker

/-- The peripheral that the call waits for fails it; `words` are on the stack. -/
def SystemCall.Refused [Keyboard κ] [Disk φ] (c : SystemCall) (words : List Word)
    (w : World κ φ) : Prop :=
  match c with
  | .getChar | .getWord =>
    ∃ e keyboard bus, Keyboard.answer .getChar w.keyboard w.bus = (.error e, keyboard, bus)
  | .delay => 0 < SystemCall.delayTime (words.getLastD 0) ∧ w.bus.control = .cancelled
  | .pickFile => Picker.Refused w
  | _ => False

def Body.Fails {arity : Nat} (v : Fin arity → Word) (w : World κ φ) : Body κ φ arity → Prop
  | .procedure run => ∃ f u, run v w = .error f u
  | .function run => ∃ f u, run v w = .error f u

namespace SystemCall

theorem sleep_eq_error_iff {w : World κ φ} :
    (∃ f u, (World.sleep : Effect κ φ Unit) w = .error f u) ↔ w.bus.control = .cancelled := by
  change (∃ f u, (World.require w.bus.control.sleep : Effect κ φ Unit) w = .error f u) ↔ _
  cases w.bus.control with
  | cancelled => exact iff_of_true ⟨_, _, rfl⟩ rfl
  | running => exact iff_of_false (not_error_of_ok rfl) nofun
  | paused => exact iff_of_false (not_error_of_ok rfl) nofun

theorem waitKey_eq_error_iff [Keyboard κ] {w : World κ φ} :
    (∃ f u, (waitKey : Effect κ φ Word) w = .error f u) ↔
    ∃ e keyboard bus, Keyboard.answer .getChar w.keyboard w.bus = (.error e, keyboard, bus) := by
  rcases hanswer : Keyboard.answer .getChar w.keyboard w.bus with ⟨e | key, keyboard, bus⟩
  · simp only [waitKey, World.ask, bind, EStateM.bind, hanswer]
    exact iff_of_true ⟨_, _, rfl⟩ ⟨e, keyboard, bus, rfl⟩
  · simp only [waitKey, World.ask, bind, EStateM.bind, hanswer]
    exact iff_of_false (by rintro ⟨f, u, h⟩; cases h) (by rintro ⟨e, k, b, h⟩; cases h)

theorem delay_eq_error_iff {w : World κ φ} {ms : Nat} :
    (∃ f u, (if ms > 0 then World.sleep else pure () : Effect κ φ Unit) w = .error f u) ↔
    0 < ms ∧ w.bus.control = .cancelled := by
  by_cases hpos : 0 < ms
  · simpa only [hpos, if_true, true_and] using sleep_eq_error_iff
  · simp only [hpos, if_false, false_and, iff_false]
    exact not_error_of_ok rfl

theorem not_refused [Keyboard κ] [Disk φ] {c : SystemCall} (hwaits : c.waits = false)
    (words : List Word) (w : World κ φ) : ¬ c.Refused words w := by
  cases c with
  | getChar | getWord | delay | pickFile => cases hwaits
  | _ => exact id

theorem not_fails [Keyboard κ] [Disk φ] {c : SystemCall} (hwaits : c.waits = false)
    (hfill : c ≠ .fillArea) (v : Fin (c.routine : Routine κ φ).arity → Word) (w : World κ φ) :
    ¬ (c.routine : Routine κ φ).body.Fails v w := by
  have hcomposed := c.composed_routine (κ := κ) (φ := φ) hfill
  rw [hwaits] at hcomposed
  generalize (c.routine : Routine κ φ).body = body at hcomposed
  cases body with
  | procedure run =>
    obtain ⟨_, _, hrun⟩ := (hcomposed v).total w
    exact not_error_of_ok hrun
  | function run =>
    obtain ⟨_, _, hrun⟩ := (hcomposed v).total w
    exact not_error_of_ok hrun

/-- A call fails exactly when the peripheral that it waits for refuses. -/
theorem fails_iff [Keyboard κ] [Disk φ] {w : World κ φ} (c : SystemCall) (hfill : c ≠ .fillArea)
    {v : Fin (c.routine : Routine κ φ).arity → Word} {words below : List Word}
    (hwords : words = below ++ List.ofFn v) :
    (c.routine : Routine κ φ).body.Fails v w ↔ c.Refused words w := by
  cases hwaits : c.waits with
  | false => exact iff_of_false (not_fails hwaits hfill v w) (not_refused hwaits words w)
  | true =>
    cases c with
    | getChar => exact waitKey_eq_error_iff
    | getWord => exact waitKey_eq_error_iff
    | delay =>
      change Fin 1 → Word at v
      have hlast : words.getLastD 0 = v 0 := by
        rw [hwords]
        change (below ++ [v 0]).getLastD 0 = v 0
        simp
      rw [Refused, hlast]
      exact delay_eq_error_iff
    | pickFile => exact Picker.pick_eq_error_iff _ w
    | _ => cases hwaits

end SystemCall
end LavMachine
