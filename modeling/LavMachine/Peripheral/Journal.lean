import LavMachine.Control
import LavMachine.Peripheral.Call
set_option autoImplicit false

namespace LavMachine

inductive LogLevel where
  | warn
  | info
  | debug
  | trace
  deriving DecidableEq, Repr

namespace LogLevel

def verbosity : LogLevel → Nat
  | .warn => 0
  | .info => 1
  | .debug => 2
  | .trace => 3

def label : LogLevel → String
  | .warn => " WARN"
  | .info => " INFO"
  | .debug => "DEBUG"
  | .trace => "TRACE"

end LogLevel

inductive PeripheralCall where
  | display (c : DisplayCall)
  | text (c : TextCall)
  | key (c : KeyCall)
  | disk (c : DiskCall)
  deriving DecidableEq, Repr

inductive JournalEntry where
  | output (text : String)
  | log (level : LogLevel) (text : String)
  | call (c : PeripheralCall)
  deriving DecidableEq, Repr

structure Journal where
  level : Option LogLevel
  newest : List JournalEntry

namespace Journal

def quiet : Journal := ⟨none, []⟩

def entries (j : Journal) : List JournalEntry := j.newest.reverse

def add (j : Journal) (e : JournalEntry) : Journal := { j with newest := e :: j.newest }

def keeps (j : Journal) (level : LogLevel) : Bool :=
  match j.level with
  | some most => level.verbosity ≤ most.verbosity
  | none => false

/-- The text is only built for levels that are kept. -/
def log (j : Journal) (level : LogLevel) (text : Unit → String) : Journal :=
  if j.keeps level then j.add (.log level (text ())) else j

end Journal

structure Bus where
  control : Control
  journal : Journal

def Bus.note (b : Bus) (e : JournalEntry) : Bus := { b with journal := b.journal.add e }

def Bus.log (b : Bus) (level : LogLevel) (text : Unit → String) : Bus :=
  { b with journal := b.journal.log level text }

end LavMachine
