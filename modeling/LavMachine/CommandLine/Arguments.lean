import LavMachine.Config
set_option autoImplicit false

/-!
The arguments of the command: a program, the directory it sees as its disk, the size of the stack
and how much to log. An option's value follows it, or stands behind `=`. What is read is accepted
when the next argument is, so of two mistakes the earlier one is reported, except that an unknown
argument comes first.
-/
namespace LavMachine.CommandLine

structure Arguments where
  program : String
  root : String := "."
  stackSize : Nat := ({} : Config).stackSize
  verbose : Nat := 0
  deriving DecidableEq, Repr

inductive UsageError where
  | missingRequiredArgument
  | unknownArgument
  | valueValidation
  | invalidValue
  | argumentConflict
  | tooManyValues
  | displayVersion
  | displayHelp
  deriving DecidableEq, Repr

inductive Slot where
  | program
  | root
  | stackSize
  deriving DecidableEq, Repr

structure Draft where
  program : Option String := none
  root : Option String := none
  stackSize : Option Nat := none
  verbose : Nat := 0
  /-- Read and not yet accepted, perhaps still without its value. -/
  pending : Option (Slot × Option String) := none
  named : Bool := false
  trailing : Bool := false

def parseSize? (text : String) : Option Nat :=
  let digits := match text.toList with
    | '+' :: rest => rest
    | all => all
  if digits.isEmpty || !digits.all Char.isDigit then none
  else
    let n := digits.foldl (fun n d => 10 * n + (d.toNat - '0'.toNat)) 0
    if n < UInt64.size then some n else none

namespace Draft

def name (text : String) : Except UsageError String :=
  if text.isEmpty then .error .invalidValue else .ok text

/-- Accepts a value. An option is given once at most. -/
def accept (d : Draft) : Slot → String → Except UsageError Draft
  | .program, text => do
    return { d with program := some (← name text) }
  | .root, text => do
    if d.root.isSome then throw .argumentConflict
    return { d with root := some (← name text) }
  | .stackSize, text => do
    if d.stackSize.isSome then throw .argumentConflict
    match parseSize? text with
    | some n => return { d with stackSize := some n }
    | none => throw .valueValidation

def settle (d : Draft) : Except UsageError Draft :=
  match d.pending with
  | none => .ok d
  | some (_, none) => .error .invalidValue
  | some (slot, some text) => { d with pending := none }.accept slot text

def more (d : Draft) : Draft := { d with verbose := min (d.verbose + 1) 255 }

def short (d : Draft) (letter : Char) : Except UsageError Draft :=
  if letter == 'v' then return (← d.settle).more
  else if letter == 'h' then do
    let _ ← d.settle
    throw .displayHelp
  else if letter == 'V' then do
    let _ ← d.settle
    throw .displayVersion
  else throw .unknownArgument

def option (d : Draft) (slot : Slot) : Option String → Except UsageError Draft
  | some value => do (← d.settle).accept slot value
  | none => do return { ← d.settle with pending := some (slot, none) }

def flag (d : Draft) (value : Option String) (run : Draft → Except UsageError Draft) :
    Except UsageError Draft := do
  if value.isSome then throw .tooManyValues
  run (← d.settle)

def long (d : Draft) (name : String) (value : Option String) : Except UsageError Draft :=
  if name == "root" then d.option .root value
  else if name == "stack-size" then d.option .stackSize value
  else if name == "verbose" then d.flag value fun d => return d.more
  else if name == "help" then d.flag value fun _ => throw .displayHelp
  else if name == "version" then d.flag value fun _ => throw .displayVersion
  else throw .unknownArgument

def positional (d : Draft) (text : String) : Except UsageError Draft := do
  if d.named then throw .unknownArgument
  return { ← d.settle with pending := some (.program, some text), named := true }

def read (d : Draft) (arg : String) : Except UsageError Draft :=
  if d.trailing then d.positional arg
  else match arg.toList with
    | ['-', '-'] => return { d with trailing := true }
    | '-' :: '-' :: rest =>
      let name := rest.takeWhile (· != '=')
      let value := match rest.dropWhile (· != '=') with
        | [] => none
        | _ :: value => some (String.ofList value)
      d.long (String.ofList name) value
    | '-' :: letter :: letters => (letter :: letters).foldlM short d
    | _ =>
      match d.pending with
      | some (slot, none) => return { d with pending := some (slot, some arg) }
      | _ => d.positional arg

def finish (d : Draft) : Except UsageError Arguments := do
  let d ← d.settle
  match d.program with
  | some program =>
    return { program, root := d.root.getD ".", stackSize := d.stackSize.getD ({} : Config).stackSize
             verbose := d.verbose }
  | none => throw .missingRequiredArgument

end Draft

def parse (argv : List String) : Except UsageError Arguments := do
  (← argv.foldlM Draft.read {}).finish

end LavMachine.CommandLine
