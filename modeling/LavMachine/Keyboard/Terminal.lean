import LavMachine.Character
import LavMachine.Peripheral.Interface
set_option autoImplicit false

/-!
The keyboard of a terminal. A terminal tells when a key goes down and never when it comes up, so a
key counts as held from the moment it is read until the program lets it go. Control-C cancels the
session.
-/
namespace LavMachine

inductive Key where
  | backspace
  | enter
  | escape
  | tab
  | up
  | down
  | left
  | right
  | delete
  | insert
  | home
  | endKey
  | pageUp
  | pageDown
  | function (n : Nat)
  | control (c : Char)
  | char (c : Char)
  deriving DecidableEq, Repr

def Key.code? : Key → Option Word
  | .enter => some 13
  | .escape => some 27
  | .up => some 20
  | .down => some 21
  | .right => some 22
  | .left => some 23
  | .pageUp => some 19
  | .pageDown => some 14
  | .tab => some 25
  | .function n => if 1 ≤ n ∧ n ≤ 4 then some (Int32.ofNat (27 + n)) else none
  | .char c =>
    if c.toNat < 128 && CharClass.printable.holds (UInt8.ofNat c.toNat) then
      some (Int32.ofNat (toLowerByte (UInt8.ofNat c.toNat)).toNat)
    else none
  | .backspace | .delete | .insert | .home | .endKey | .control _ => none

inductive TerminalEvent where
  | key (k : Key)
  | other
  deriving DecidableEq, Repr

structure TerminalKeyboard where
  events : List TerminalEvent
  /-- Codes that were read while looking for held keys, oldest first. -/
  pending : List Word := []
  held : List Word := []

namespace TerminalKeyboard

def blocksSignals : Bool := false

def endOfInput : String := "END OF INPUT"

def hold (k : TerminalKeyboard) (code : Word) : TerminalKeyboard :=
  if k.held.contains code then k else { k with held := k.held ++ [code] }

def poll (k : TerminalKeyboard) (bus : Bus) :
    Except DeviceFailure (Option Word) × TerminalKeyboard × Bus :=
  match k.events with
  | [] => (.ok none, k, bus)
  | .other :: rest => (.ok none, { k with events := rest }, bus)
  | .key key :: rest =>
    let k := { k with events := rest }
    if key = .control 'c' then (.error .interrupted, k, { bus with control := bus.control.cancel })
    else match key.code? with
      | some code => (.ok (some code), k.hold code, bus)
      | none => (.ok none, k, bus)

def pollUntil : (fuel : Nat) → TerminalKeyboard → Bus →
    Except DeviceFailure Word × TerminalKeyboard × Bus
  | 0, k, bus => (.error (.host endOfInput), k, bus)
  | fuel + 1, k, bus =>
    if bus.control.isCancelled then (.error .interrupted, k, bus)
    else match k.poll bus with
      | (.ok (some code), k, bus) => (.ok code, k, bus)
      | (.ok none, k, bus) => pollUntil fuel k bus
      | (.error e, k, bus) => (.error e, k, bus)

/-- Waits for a code. A terminal that has nothing more to tell ends the wait. -/
def wait (k : TerminalKeyboard) (bus : Bus) : Except DeviceFailure Word × TerminalKeyboard × Bus :=
  match k.pending with
  | code :: rest => (.ok code, { k with pending := rest }, bus)
  | [] => pollUntil (k.events.length + 1) k bus

/-- Codes from 128 on ask for any held key. -/
def heldKey (k : TerminalKeyboard) (key : Word) : Word :=
  if key ≥ 128 then k.held.headD 0
  else if k.held.contains key then key
  else 0

def answer : (c : KeyCall) → TerminalKeyboard → Bus → c.Answer × TerminalKeyboard × Bus
  | .getChar, k, bus | .rawKey, k, bus => k.wait bus
  | .inkey, k, bus =>
    match k.pending with
    | code :: rest => (code, { k with pending := rest }, bus)
    | [] =>
      match k.poll bus with
      | (.ok (some code), k, bus) => (code, k, bus)
      | (_, k, bus) => ((0 : Word), k, bus)
  | .check key, k, bus =>
    match k.poll bus with
    | (.ok (some code), k, bus) =>
      let k := { k with pending := k.pending ++ [code] }
      (k.heldKey key, k, bus)
    | (_, k, bus) => (k.heldKey key, k, bus)
  | .release key, k, bus =>
    ((), { k with held := if key ≥ 128 then [] else k.held.filter (· != key) }, bus)

def supply (k : TerminalKeyboard) : Nat := k.events.length + k.pending.length

@[simp] theorem supply_hold (k : TerminalKeyboard) (code : Word) :
    (k.hold code).supply = k.supply := by
  unfold hold
  split <;> rfl

theorem supply_poll_le (k : TerminalKeyboard) (bus : Bus) : (k.poll bus).2.1.supply ≤ k.supply := by
  rcases k with ⟨_ | ⟨_ | key, rest⟩, pending, held⟩
  · simp [poll]
  · simp only [poll]
    split
    · simp [supply]
    · split
      · rw [supply_hold]
        simp [supply]
      · simp [supply]
  · simp [poll, supply]

theorem supply_poll_lt {k k' : TerminalKeyboard} {bus bus' : Bus} {code : Word}
    (h : k.poll bus = (.ok (some code), k', bus')) : k'.supply < k.supply := by
  rcases k with ⟨_ | ⟨_ | key, rest⟩, pending, held⟩
  · simp [poll] at h
  · simp only [poll] at h
    split at h
    · simp at h
    · split at h
      · simp only [Prod.mk.injEq] at h
        rw [← h.2.1, supply_hold]
        simp [supply]
      · simp at h
  · simp [poll] at h

theorem supply_pollUntil {fuel : Nat} {k k' : TerminalKeyboard} {bus bus' : Bus} {code : Word}
    (h : pollUntil fuel k bus = (.ok code, k', bus')) : k'.supply < k.supply := by
  induction fuel generalizing k bus with
  | zero => simp [pollUntil] at h
  | succ fuel ih =>
    rw [pollUntil] at h
    split at h
    · simp at h
    · split at h
      · rename_i found
        simp only [Prod.mk.injEq, Except.ok.injEq] at h
        rw [← h.2.1]
        exact supply_poll_lt found
      · rename_i k₁ bus₁ found
        exact Nat.lt_of_lt_of_le (ih h) (by simpa [found] using supply_poll_le k bus)
      · simp at h

theorem supply_wait {k k' : TerminalKeyboard} {bus bus' : Bus} {code : Word}
    (h : k.wait bus = (.ok code, k', bus')) : k'.supply < k.supply := by
  unfold wait at h
  split at h
  · simp only [Prod.mk.injEq] at h
    simp_all [← h.2.1, supply]
  · exact supply_pollUntil h

end TerminalKeyboard

instance : Keyboard TerminalKeyboard where
  keyMap _ := {}
  answer := TerminalKeyboard.answer
  supply := TerminalKeyboard.supply
  supply_rawKey := TerminalKeyboard.supply_wait

end LavMachine
