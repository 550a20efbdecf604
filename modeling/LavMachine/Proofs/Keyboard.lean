import Mathlib
import LavMachine.Keyboard.Terminal
set_option autoImplicit false

namespace LavMachine

namespace TerminalEvent

def interrupt : TerminalEvent := .key (.control 'c')

def code? : TerminalEvent → Option Word
  | .key k => k.code?
  | .other => none

/-- The events up to the first that brings a code or interrupts, that one included. -/
def awaited (events : List TerminalEvent) : List TerminalEvent :=
  events.take (events.findIdx (fun e => e.code?.isSome || e == interrupt) + 1)

@[simp] theorem code?_interrupt : interrupt.code? = none := rfl

theorem ne_interrupt_of_code {e : TerminalEvent} {code : Word} (h : e.code? = some code) :
    e ≠ interrupt := by
  rintro rfl
  simp at h

theorem awaited_press {e : TerminalEvent} {code : Word} (h : e.code? = some code)
    (rest : List TerminalEvent) :
    awaited (e :: rest) = [e] := by
  simp [awaited, List.findIdx_cons, h]

theorem awaited_interrupt (rest : List TerminalEvent) :
    awaited (interrupt :: rest) = [interrupt] := by
  simp [awaited, List.findIdx_cons]

theorem awaited_idle {e : TerminalEvent} (h : e.code? = none) (he : e ≠ interrupt)
    (rest : List TerminalEvent) :
    awaited (e :: rest) = e :: awaited rest := by
  have hbeq : (e == interrupt) = false := by simpa using he
  simp [awaited, List.findIdx_cons, h, hbeq]

end TerminalEvent

theorem lowerPrintable_ne_zero : ∀ b : Fin 256, CharClass.printable.holds (UInt8.ofNat b) →
    Int32.ofNat (toLowerByte (UInt8.ofNat b)).toNat ≠ 0 := by
  decide +kernel

theorem Key.code?_ne_zero (k : Key) : k.code? ≠ some 0 := by
  cases k with
  | function n =>
    simp only [code?]
    split
    · rename_i hn
      obtain rfl | rfl | rfl | rfl : n = 1 ∨ n = 2 ∨ n = 3 ∨ n = 4 := by omega
      all_goals decide
    · simp
  | char c =>
    simp only [code?]
    split
    · rename_i hc
      simp only [Bool.and_eq_true, decide_eq_true_eq] at hc
      have hlower := lowerPrintable_ne_zero ⟨c.toNat, by omega⟩ hc.2
      simpa using hlower
    · simp
  | _ => simp [code?]

theorem TerminalEvent.code_ne_zero {e : TerminalEvent} {code : Word} (h : e.code? = some code) :
    code ≠ 0 := by
  rintro rfl
  cases e with
  | key k => exact k.code?_ne_zero h
  | other => cases h

theorem TerminalEvent.zero_notMem_codes (seen : List TerminalEvent) : 0 ∉ seen.filterMap code? := by
  intro hmem
  obtain ⟨e, _, hcode⟩ := List.mem_filterMap.1 hmem
  exact code_ne_zero hcode rfl

namespace KeyCall

@[simp] def taken : KeyCall → Nat
  | .getChar | .rawKey | .inkey => 1
  | .check _ | .release _ => 0

@[simp] def waits : KeyCall → Bool
  | .getChar | .rawKey => true
  | .inkey | .check _ | .release _ => false

@[simp] def delivered : (c : KeyCall) → c.Answer → List Word
  | .getChar, r | .rawKey, r => r.toOption.toList
  | .inkey, code => if code = 0 then [] else [code]
  | .check _, _ | .release _, _ => []

@[simp] def interrupted : (c : KeyCall) → c.Answer → Prop
  | .getChar, r | .rawKey, r => r = .error .interrupted
  | .inkey, _ | .check _, _ | .release _, _ => False

end KeyCall

namespace TerminalKeyboard

open TerminalEvent

variable {k : TerminalKeyboard} {bus : Bus} {c : KeyCall} {seen : List TerminalEvent}

/-- The events that a call looks at. A wait ends with the first event that is a press or an
interrupt. -/
def looked : KeyCall → TerminalKeyboard → Bus → List TerminalEvent
  | .getChar, k, bus | .rawKey, k, bus =>
    if k.pending = [] ∧ ¬ bus.control.isCancelled then awaited k.events else []
  | .inkey, k, _ => if k.pending = [] then k.events.take 1 else []
  | .check _, k, _ => k.events.take 1
  | .release _, _, _ => []

inductive Look (k : TerminalKeyboard) (bus : Bus) :
    Except DeviceFailure (Option Word) × TerminalKeyboard × Bus → Prop
  | nothing (h : k.events = []) : Look k bus (.ok none, k, bus)
  | idle {e : TerminalEvent} {rest : List TerminalEvent} (h : k.events = e :: rest)
    (hcode : e.code? = none)
      (he : e ≠ interrupt) : Look k bus (.ok none, { k with events := rest }, bus)
  | press {e : TerminalEvent} {rest : List TerminalEvent} {code : Word} (h : k.events = e :: rest)
      (hcode : e.code? = some code) :
      Look k bus (.ok (some code), { k with events := rest }.hold code, bus)
  | interrupt {rest : List TerminalEvent} (h : k.events = interrupt :: rest) :
      Look k bus (.error .interrupted, { k with events := rest },
        { bus with control := .cancelled })

theorem look_poll (k : TerminalKeyboard) (bus : Bus) : Look k bus (k.poll bus) := by
  unfold poll
  split
  · exact .nothing ‹_›
  · exact .idle ‹_› rfl (by decide)
  · rename_i key rest hevents
    by_cases hkey : key = .control 'c'
    · subst hkey
      exact .interrupt hevents
    · have hne : TerminalEvent.key key ≠ interrupt := by simpa [interrupt] using hkey
      simp only [if_neg hkey]
      split
      · exact .press hevents ‹_›
      · exact .idle hevents ‹_› hne

@[simp] theorem events_hold (k : TerminalKeyboard) (code : Word) :
    (k.hold code).events = k.events := by
  unfold hold
  split <;> rfl

@[simp] theorem pending_hold (k : TerminalKeyboard) (code : Word) :
    (k.hold code).pending = k.pending := by
  unfold hold
  split <;> rfl

/-- What a call that looks at the events `seen` does: their codes join the queue, and the call takes
its code off the front. -/
structure Turn (c : KeyCall) (k : TerminalKeyboard) (bus : Bus) (seen : List TerminalEvent)
    (a : c.Answer × TerminalKeyboard × Bus) : Prop where
  events : k.events = seen ++ a.2.1.events
  delivered : c.delivered a.1 = (k.pending ++ seen.filterMap code?).take c.taken
  pending : a.2.1.pending = (k.pending ++ seen.filterMap code?).drop c.taken
  shared : a.2.2 = if interrupt ∈ seen then { bus with control := .cancelled } else bus
  interrupted :
    c.interrupted a.1 ↔ c.waits ∧ k.pending = [] ∧ (bus.control.isCancelled ∨ interrupt ∈ seen)

theorem pollUntil_nil (fuel : Nat) (hevents : k.events = []) (hrun : ¬ bus.control.isCancelled) :
    pollUntil fuel k bus = (.error (.host endOfInput), k, bus) := by
  induction fuel with
  | zero => rfl
  | succ fuel ih => simpa [pollUntil, poll, hevents, hrun] using ih

theorem Turn.idle {e : TerminalEvent} {rest : List TerminalEvent}
    {a : Except DeviceFailure Word × TerminalKeyboard × Bus}
    (h : Turn .getChar { k with events := rest } bus seen a) (hevents : k.events = e :: rest)
    (hcode : e.code? = none) (he : e ≠ interrupt) : Turn .getChar k bus (e :: seen) a where
  events := by rw [hevents, List.cons_append, ← h.events]
  delivered := by simpa [hcode] using h.delivered
  pending := by simpa [hcode] using h.pending
  shared := by simpa [he.symm] using h.shared
  interrupted := by simpa [he.symm] using h.interrupted

theorem turn_pollUntil {fuel : Nat} (hfuel : k.events.length < fuel) (hpending : k.pending = [])
    (hrun : ¬ bus.control.isCancelled) :
    Turn .getChar k bus (awaited k.events) (pollUntil fuel k bus) := by
  induction fuel generalizing k with
  | zero => omega
  | succ fuel ih =>
    have hlook := k.look_poll bus
    rw [pollUntil, if_neg hrun]
    generalize k.poll bus = a at hlook
    cases hlook with
    | nothing hevents =>
      -- Here the events do not get fewer, so the wait goes on until it may look no more.
      simp only [pollUntil_nil fuel hevents hrun, hevents]
      constructor <;> simp [hevents, hpending, hrun, awaited, Except.toOption]
    | idle hevents hcode he =>
      rw [hevents, awaited_idle hcode he]
      exact Turn.idle (ih (by simp_all) hpending) hevents hcode he
    | press hevents hcode =>
      have hne := ne_interrupt_of_code hcode
      rw [hevents, awaited_press hcode]
      constructor <;> simp [hevents, hpending, hrun, hcode, hne.symm, Except.toOption]
    | interrupt hevents =>
      rw [hevents, awaited_interrupt]
      constructor <;> simp [hevents, hpending, List.filterMap_cons, Except.toOption]

theorem turn_wait (k : TerminalKeyboard) (bus : Bus) :
    Turn .getChar k bus (k.looked .getChar bus) (k.wait bus) := by
  unfold wait
  split
  · rename_i code rest hpending
    constructor <;> simp [looked, hpending, Except.toOption]
  · rename_i hpending
    by_cases hrun : bus.control.isCancelled
    · simp only [pollUntil, if_pos hrun]
      constructor <;> simp [looked, hpending, hrun, Except.toOption]
    · have hlooked : k.looked .getChar bus = awaited k.events := if_pos ⟨hpending, hrun⟩
      rw [hlooked]
      exact turn_pollUntil (Nat.lt_succ_self _) hpending hrun

theorem Turn.rawKey {a : Except DeviceFailure Word × TerminalKeyboard × Bus}
    (h : Turn .getChar k bus seen a) :
    Turn .rawKey k bus seen a :=
  ⟨h.events, h.delivered, h.pending, h.shared, h.interrupted⟩

theorem turn_inkey (h : 0 ∉ k.pending) :
    Turn .inkey k bus (k.looked .inkey bus) (answer .inkey k bus) := by
  cases hpending : k.pending with
  | cons code rest =>
    have hcode : code ≠ 0 := by
      rintro rfl
      simp [hpending] at h
    simp only [answer, looked, hpending]
    constructor <;> simp [hpending, hcode]
  | nil =>
    have hlook := k.look_poll bus
    simp only [answer, looked, hpending, if_true]
    generalize k.poll bus = a at hlook
    cases hlook with
    | nothing hevents =>
      constructor <;> simp [hevents, hpending]
    | idle hevents hcode he =>
      constructor <;> simp [hevents, hpending, hcode, he.symm]
    | press hevents hcode =>
      have hne := ne_interrupt_of_code hcode
      have hzero := code_ne_zero hcode
      constructor <;> simp [hevents, hpending, hcode, hzero, hne.symm]
    | interrupt hevents =>
      constructor <;> simp [hevents, hpending, List.filterMap_cons]

theorem turn_check (key : Word) (k : TerminalKeyboard) (bus : Bus) :
    Turn (.check key) k bus (k.looked (.check key) bus) (answer (.check key) k bus) := by
  have hlook := k.look_poll bus
  simp only [answer, looked]
  generalize k.poll bus = a at hlook
  cases hlook with
  | nothing hevents =>
    constructor <;> simp [hevents]
  | idle hevents hcode he =>
    constructor <;> simp [hevents, hcode, he.symm]
  | press hevents hcode =>
    have hne := ne_interrupt_of_code hcode
    constructor <;> simp [hevents, hcode, hne.symm]
  | interrupt hevents =>
    constructor <;> simp [hevents, List.filterMap_cons]

theorem turn_answer (c : KeyCall) (k : TerminalKeyboard) (bus : Bus) (h : 0 ∉ k.pending) :
    Turn c k bus (k.looked c bus) (answer c k bus) := by
  cases c with
  | getChar => exact k.turn_wait bus
  | rawKey => exact (k.turn_wait bus).rawKey
  | inkey => exact turn_inkey h
  | check key => exact turn_check key k bus
  | release key =>
    constructor <;> simp [answer, looked]

theorem Turn.conserved {a : c.Answer × TerminalKeyboard × Bus} (h : Turn c k bus seen a) :
    c.delivered a.1 ++ a.2.1.pending = k.pending ++ seen.filterMap code? := by
  rw [h.delivered, h.pending, List.take_append_drop]

end TerminalKeyboard

/-- A keyboard in use: what was looked at so far, and the codes handed over. -/
structure Typing where
  keyboard : TerminalKeyboard
  bus : Bus
  seen : List TerminalEvent := []
  codes : List Word := []

namespace Typing

inductive Act where
  | call (c : KeyCall)
  | share (bus : Bus)

def act (t : Typing) : Act → Typing
  | .call c =>
    let (r, keyboard, bus) := t.keyboard.answer c t.bus
    { keyboard, bus, seen := t.seen ++ t.keyboard.looked c t.bus, codes :=
      t.codes ++ c.delivered r }
  | .share bus => { t with bus }

/-- The codes of all that was seen are those handed over and then those that wait in the queue. -/
structure Sound (events : List TerminalEvent) (t : Typing) : Prop where
  events_eq : events = t.seen ++ t.keyboard.events
  codes_eq : t.codes ++ t.keyboard.pending = t.seen.filterMap TerminalEvent.code?

variable {events : List TerminalEvent} {t : Typing}

theorem Sound.zero_notMem_pending (h : Sound events t) : 0 ∉ t.keyboard.pending := by
  intro hmem
  apply TerminalEvent.zero_notMem_codes t.seen
  rw [← h.codes_eq]
  exact List.mem_append_right _ hmem

theorem Sound.turn (h : Sound events t) (c : KeyCall) :
    TerminalKeyboard.Turn c t.keyboard t.bus (t.keyboard.looked c t.bus)
      (t.keyboard.answer c t.bus) :=
  t.keyboard.turn_answer c t.bus h.zero_notMem_pending

theorem Sound.act (h : Sound events t) (a : Act) : Sound events (t.act a) := by
  cases a with
  | share bus => exact ⟨h.events_eq, h.codes_eq⟩
  | call c =>
    have hturn := h.turn c
    refine ⟨?_, ?_⟩
    · rw [h.events_eq, hturn.events]
      simp [Typing.act]
    · -- What the call hands over was at the front of the queue, and what it found goes to the back.
      have hcodes := hturn.conserved
      simp only [Typing.act, List.append_assoc, hcodes, List.filterMap_append, ← h.codes_eq]

theorem Sound.foldl_act (h : Sound events t) (acts : List Act) :
    Sound events (acts.foldl Typing.act t) :=
  List.foldlRecOn acts Typing.act h fun _ ht a _ => ht.act a

/-- No press is lost, handed over twice or out of turn, and Control-C is no press. -/
theorem presses_kept (events : List TerminalEvent) (bus : Bus) (acts : List Act) :
    let t := acts.foldl Typing.act { keyboard := { events }, bus }
    events = t.seen ++ t.keyboard.events ∧
    t.codes ++ t.keyboard.pending = t.seen.filterMap TerminalEvent.code? ∧
    TerminalEvent.interrupt.code? = none ∧
    ∀ c, TerminalKeyboard.Turn c t.keyboard t.bus (t.keyboard.looked c t.bus)
      (t.keyboard.answer c t.bus) := by
  intro t
  have hstart : Sound events { keyboard := { events }, bus } := ⟨rfl, rfl⟩
  have ht : Sound events t := hstart.foldl_act acts
  exact ⟨ht.events_eq, ht.codes_eq, rfl, ht.turn⟩

-- A press that was found before Control-C is still handed over after it.
example :
    let t := [.call (.check 128), .call (.check 128), .call .getChar].foldl Typing.act
      { keyboard := { events := [.key (.char 'A'), .interrupt] }, bus := ⟨.running, .quiet⟩ }
    t.codes = [97] ∧ t.bus.control = .cancelled ∧
    KeyCall.interrupted .getChar (t.keyboard.answer .getChar t.bus).1 :=
  ⟨by decide +kernel, by decide +kernel, rfl⟩

end Typing
end LavMachine
