import LavMachine.CommandLine.Live
import LavMachine.Disk.Change
import Std.Time.Zoned
set_option autoImplicit false

namespace LavMachine.CommandLine

def hostText : IO.Error → String
  | .noFileOrDirectory .. => HostError.notFound.message
  | .inappropriateType _ code _ =>
    (if code == 21 then HostError.isDirectory else HostError.notDirectory).message
  | .invalidArgument .. => HostError.nameTooLong.message
  | e => toString e

partial def loadBelow (dir : String) (p : Path) (start : Tree) : IO Tree := do
  let mut tree := start
  for entry in ← (← IO.FS.realPath dir).readDir do
    let here := p ++ [entry.fileName]
    if ← entry.path.isDir then
      tree ← loadBelow entry.path.toString here (tree.addDirectory here)
    else
      tree := (tree.addFile here (← IO.FS.readBinFile entry.path).data).1
  return tree

def loadDisk (root : String) : IO HostedDisk := do
  match ← (IO.FS.readBinFile root).toBaseIO with
  | .ok content => return { tree := (Tree.empty.addFile [root] content.data).1, root := [root] }
  | .error e =>
    if hostText e == HostError.isDirectory.message then
      return { tree := ← loadBelow root [] .empty, root := [] }
    else throw e

def attemptHost {α : Type} (act : IO α) : IO (Except String α) := do
  match ← act.toBaseIO with
  | .ok a => return .ok a
  | .error e => return .error (hostText e)

def makeChange (root : String) : Change → IO Unit
  | .removeFile p => IO.FS.removeFile (root ++ "/" ++ p.text)
  | .makeDirectory p => IO.FS.createDir (root ++ "/" ++ p.text)
  | .writeFile p data => IO.FS.writeBinFile (root ++ "/" ++ p.text) ⟨data⟩

def now : IO Moment := do
  let t ← Std.Time.PlainDateTime.now
  return {
    year := t.year.toInt.toNat
    month := t.month.val.toNat - 1
    day := t.day.val.toNat
    hour := t.hour.val.toNat
    minute := t.minute.val.toNat
    second := t.second.val.toNat
    millisecond := t.millisecond.val.toNat
    weekday := t.weekday.toOrdinal.val.toNat % 7 + 1 }

structure Line where
  reading : Option (Task (Except IO.Error ByteArray)) := none
  closed : Bool := false

def opensKey (b : UInt8) : Bool := b == 0x1b || b ≥ 0x80

/-- Adds the bytes that have come to those taken before. A read that has just begun gets time to
end; what has come is taken up to the end of a key. -/
partial def collect (line : IO.Ref Line) (taken : ByteArray) : IO ByteArray := do
  let state ← line.get
  if state.closed then return taken
  let reading ← match state.reading with
    | some reading => pure reading
    | none =>
      let reading ← IO.asTask (do (← IO.getStdin).read 1) .dedicated
      IO.sleep 10
      pure reading
  if ← IO.hasFinished reading then
    let bytes := match reading.get with
      | .ok bytes => bytes
      | .error _ => .empty
    line.set { closed := bytes.isEmpty }
    let taken := taken ++ bytes
    if taken.toList.any opensKey then collect line taken else return taken
  else
    line.set { reading := some reading }
    return taken

def takeEvents (line : IO.Ref Line) : IO (List TerminalEvent) := do
  return TerminalEvent.ofTyped ((String.fromUTF8? (← collect line .empty)).getD "")

def emitEntries (entries : List JournalEntry) : IO Unit := do
  if !entries.isEmpty then
    let out ← IO.getStdout
    out.putStr (outputText entries)
    out.flush
    (← IO.getStderr).putStr (logText entries)

def bring (line : IO.Ref Line) (m : TerminalMachine) : IO TerminalMachine := do
  match need m with
  | .keys | .keyPress => return tell m (← takeEvents line)
  | .clock => return setTime m (← now)
  | .pause milliseconds =>
    IO.sleep milliseconds.toUInt32
    return m
  | .nothing => return m

/-- Runs the machine until it stops. While a step waits for a key the machine from before it is
kept, and the step is taken again when keys have come. -/
partial def drive (line : IO.Ref Line) (machine : TerminalMachine) :
    IO (Outcome × TerminalMachine) := do
  let (entries, m) := takeEntries machine
  emitEntries entries
  let waits := need m == .keyPress
  let m ← bring line m
  if waits then
    match m.execute 1 with
    | (.running, after) => drive line after
    | (outcome, after) =>
      if starved outcome && !(← line.get).closed then
        IO.sleep 20
        drive line m
      else
        return (outcome, after)
  else
    match m.execute 1 with
    | (.running, after) => drive line after
    | finished => return finished

def fail (f : Fault) : IO UInt32 := do
  (← IO.getStderr).putStr (report f)
  return 1

def runProgram (args : Arguments) : IO UInt32 := do
  let program ← attemptHost (return (← IO.FS.readBinFile args.program).data)
  let disk ← attemptHost (loadDisk args.root)
  let moment ← now
  match prepare args program disk [] { reading := fun _ => moment } with
  | .error f => fail f
  | .ok machine =>
    let line ← IO.mkRef ({} : Line)
    let before := machine.world.disk.tree
    let (outcome, after) ← drive line machine
    let (entries, after) := takeEntries after.dispose
    emitEntries entries
    for change in before.changes after.world.disk.tree do
      makeChange args.root change
    match failure? outcome with
    | some f => fail f
    | none => return 0

end LavMachine.CommandLine

open LavMachine.CommandLine

def main (argv : List String) : IO UInt32 := do
  match parse argv with
  | .ok args => runProgram args
  | .error .displayVersion =>
    IO.print versionText
    return 0
  | .error .displayHelp =>
    IO.print helpText
    return 0
  | .error e =>
    IO.eprint ("error: " ++ e.message ++ "\n\n" ++ usageText)
    return 2
