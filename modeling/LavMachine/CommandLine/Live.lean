import LavMachine.CommandLine.Run
set_option autoImplicit false

namespace LavMachine.CommandLine

inductive Need where
  | nothing
  | keys
  | keyPress
  | clock
  | pause (milliseconds : Nat)
  deriving DecidableEq, Repr

def nextCall? (m : TerminalMachine) : Option SystemCall := do
  let image ← m.image
  let instruction ← Instruction.ofByte? (← image.bytes[image.cursor]?)
  match instruction.opcode with
  | .call c => some c
  | _ => none

def need (m : TerminalMachine) : Need :=
  match nextCall? m with
  | some .getChar | some .getWord | some .pickFile => .keyPress
  | some .inkey | some .checkKey => .keys
  | some .ticks | some .getTime => .clock
  | some .delay =>
    match m.stack.last 1 with
    | [w] => .pause (SystemCall.delayTime w)
    | _ => .nothing
  | _ => .nothing

def tell (m : TerminalMachine) (events : List TerminalEvent) : TerminalMachine :=
  let keyboard := m.world.keyboard
  { m with world :=
    { m.world with keyboard := { keyboard with events := keyboard.events ++ events } } }

def setTime (m : TerminalMachine) (now : Moment) : TerminalMachine :=
  { m with world := { m.world with clock := { reading := fun _ => now } } }

/-- The step would have to wait for a key. -/
def starved : Outcome → Bool
  | .fault f => f.kind == .hostIo && f.detail == TerminalKeyboard.endOfInput
  | .running | .ended | .suspended => false

def takeEntries (m : TerminalMachine) : List JournalEntry × TerminalMachine :=
  let bus := m.world.bus
  (bus.journal.entries,
    { m with world :=
      { m.world with bus := { bus with journal := { bus.journal with newest := [] } } } })

def UsageError.message : UsageError → String
  | .missingRequiredArgument => "the program is missing"
  | .unknownArgument => "there is an unknown argument"
  | .valueValidation => "the stack size is not a number"
  | .invalidValue => "a value is missing"
  | .argumentConflict => "an option is given twice"
  | .tooManyValues => "a flag takes no value"
  | .displayVersion | .displayHelp => ""

def usageText : String := "Usage: gvm [OPTIONS] <PROGRAM>\n"

def helpText : String :=
  usageText
    ++ "\nOptions:\n"
    ++ "      --root <DIR>      directory the program sees as its disk [default: .]\n"
    ++ "      --stack-size <N>  operand stack capacity in words [default: 1024]\n"
    ++ "  -v, --verbose         more logging on the error output; repeat for more\n"
    ++ "  -h, --help            this text\n"
    ++ "  -V, --version         the version\n"

end LavMachine.CommandLine
