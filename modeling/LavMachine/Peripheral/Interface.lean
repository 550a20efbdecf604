import LavMachine.Peripheral.Journal
set_option autoImplicit false

namespace LavMachine

class Keyboard (κ : Type) where
  keyMap : κ → KeyMap
  answer : (c : KeyCall) → κ → Bus → c.Answer × κ × Bus
  /-- A bound on the keys that are still to come. -/
  supply : κ → Nat
  supply_rawKey {k k' : κ} {bus bus' : Bus} {key : Word} :
    answer .rawKey k bus = (.ok key, k', bus') → supply k' < supply k

class Disk (φ : Type) where
  answer : (c : DiskCall) → φ → Bus → c.Answer × φ × Bus
  /-- A read leaves a buffer of the size asked for, whatever count it reports. -/
  length_read (handle : Word) (size : Nat) (d : φ) (bus : Bus) :
    (answer (.read handle size) d bus).1.2.length = size

structure Detached where
  deriving DecidableEq, Repr

instance : Keyboard Detached where
  keyMap _ := {}
  answer c k bus :=
    let answer : c.Answer := match c with
      | .getChar | .rawKey => .error (.host "NO KEYBOARD ATTACHED")
      | .inkey | .check _ => (0 : Word)
      | .release _ => ()
    (answer, k, bus)
  supply _ := 0
  supply_rawKey := by simp

def DiskCall.absentAnswer : (c : DiskCall) → c.Answer
  | .openFile .. | .write .. => (0 : Word)
  | .read _ size => ((0 : Word), List.replicate size 0)
  | .seek .. | .tell _ | .getByte _ | .putByte .. => (-1 : Word)
  | .atEnd _ => true
  | .changeDirectory _ | .makeDirectory _ | .delete _ => false
  | .count => (0 : Nat)
  | .list .. => ([] : List String)
  | .close _ | .rewind _ | .dispose => ()

instance : Disk Detached where
  answer c d bus := (c.absentAnswer, d, bus)
  length_read := by simp [DiskCall.absentAnswer]

structure RecordingDisk where
  names : List String
  readCount : Option Word := none

def RecordingDisk.fixedAnswer (d : RecordingDisk) : (c : DiskCall) → c.Answer
  | .openFile .. => (3 : Word)
  | .read _ size =>
    (d.readCount.getD (Int32.ofNat size), (List.range size).map fun i => UInt8.ofNat (i + 1))
  | .write _ data => Int32.ofNat data.length
  | .seek _ offset _ => offset
  | .tell _ => (77 : Word)
  | .atEnd handle => handle % 2 != 0
  | .getByte _ => (-1 : Word)
  | .putByte byte _ => byte
  | .changeDirectory name | .makeDirectory name | .delete name => name.length % 2 == 1
  | .count => d.names.length
  | .list start size => (d.names.drop start).take size
  | .close _ | .rewind _ | .dispose => ()

instance : Disk RecordingDisk where
  answer c d bus := (d.fixedAnswer c, d, bus.note (.call (.disk c)))
  length_read := by simp [RecordingDisk.fixedAnswer]

/-- Plays a list of key presses; an entry without a key interrupts. -/
structure ScriptedKeyboard where
  keys : List (Option Word)
  map : KeyMap := {}

namespace ScriptedKeyboard

def next (k : ScriptedKeyboard) : Except DeviceFailure Word × ScriptedKeyboard :=
  match k.keys with
  | some key :: rest => (.ok key, { k with keys := rest })
  | none :: rest => (.error .interrupted, { k with keys := rest })
  | [] => (.error (.host "OUT OF KEYS"), k)

def answer : (c : KeyCall) → ScriptedKeyboard → Bus → c.Answer × ScriptedKeyboard × Bus
  | .getChar, k, bus | .rawKey, k, bus =>
    let (key, k) := k.next
    (key, k, bus)
  | .inkey, k, bus =>
    match k.next with
    | (.ok key, k) => (key, k, bus)
    | (.error _, k) => ((0 : Word), k, bus)
  | .check key, k, bus => (key, k, bus.note (.call (.key (.check key))))
  | .release key, k, bus => ((), k, bus.note (.call (.key (.release key))))

end ScriptedKeyboard

instance : Keyboard ScriptedKeyboard where
  keyMap k := k.map
  answer := ScriptedKeyboard.answer
  supply k := k.keys.length
  supply_rawKey := by
    intro k k' bus bus' key h
    rcases k with ⟨_ | ⟨_ | key', rest⟩, map⟩ <;>
      simp_all [ScriptedKeyboard.answer, ScriptedKeyboard.next]
    simp [← h.2.1]

end LavMachine
