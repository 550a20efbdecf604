import LavMachine.CommandLine.Arguments
import LavMachine.Disk.Hosted
import LavMachine.Keyboard.Sequence
import LavMachine.Machine.Session
set_option autoImplicit false

namespace LavMachine.CommandLine

def versionText : String := "gvm 0.3.0\n"

abbrev TerminalMachine := Machine TerminalKeyboard HostedDisk

def level (args : Arguments) : LogLevel :=
  match args.verbose with
  | 0 => .warn
  | 1 => .info
  | 2 => .debug
  | _ => .trace

def hostFault (detail : String) : Fault := { kind := .hostIo, detail }

def image (args : Arguments) (data : Except String (Array UInt8)) : Except Fault Image :=
  match data with
  | .ok data => Image.ofBytes args.program data
  | .error e => .error (hostFault (args.program ++ ": " ++ e))

def prepare (args : Arguments) (data : Except String (Array UInt8))
    (disk : Except String HostedDisk) (events : List TerminalEvent) (clock : Clock) :
    Except Fault TerminalMachine := do
  let image ← image args data
  let config : Config := { stackSize := args.stackSize }
  let screen : Panel := { width := config.screenWidth, height := config.screenHeight }
  let disk ← disk.mapError hostFault
  let machine ← Machine.create config (.screen screen) (.console {})
      { events : TerminalKeyboard } disk
    ⟨some (level args), []⟩ clock
  return machine.load image

def failure? : Outcome → Option Fault
  | .fault f => if f.kind.family = .interrupted then none else some f
  | .running | .ended | .suspended => none

def report (f : Fault) : String := "\x1b[1m" ++ f.message ++ "\x1b[0m\n"

structure Result where
  exitCode : Nat
  output : String
  errors : String
  tree : Tree

def outputText (entries : List JournalEntry) : String :=
  String.join (entries.filterMap fun
    | .output text => some text
    | _ => none)

def logText (entries : List JournalEntry) : String :=
  String.join (entries.filterMap fun
    | .log level text => some (level.label ++ " " ++ text ++ "\n")
    | _ => none)

def Result.ofMachine (m : TerminalMachine) (failure : Option Fault) : Result :=
  let entries := m.world.bus.journal.entries
  { exitCode := if failure.isSome then 1 else 0
    output := outputText entries
    errors := logText entries ++ (failure.map report).getD ""
    tree := m.world.disk.tree }

/-- Runs a program from a tree, with all that is typed given beforehand. -/
def run (args : Arguments) (tree : Tree) (typed : String) (clock : Clock) (batches : Nat) :
    Result :=
  let data := (tree.readFile args.program).mapError HostError.message
  let disk := (HostedDisk.mount tree args.root).mapError HostError.message
  match prepare args data disk (TerminalEvent.ofTyped typed) clock with
  | .error f => { exitCode := 1, output := "", errors := report f, tree }
  | .ok machine =>
    let (outcome, machine) := machine.run batchSize batches
    .ofMachine machine.dispose (failure? outcome)

end LavMachine.CommandLine
