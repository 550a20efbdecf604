set_option autoImplicit false

namespace LavMachine

def hex (width n : Nat) : String :=
  let digits := (Nat.toDigits 16 n).map Char.toUpper
  String.ofList (List.replicate (width - digits.length) '0' ++ digits)

inductive FaultKind where
  | badImage
  | unsupportedVersion
  | notLoaded
  | programEnded
  | illegalOpcode
  | unimplemented
  | endOfImage
  | windowOverlap
  | stackOverflow
  | stackUnderflow
  | interrupted
  | hostIo
  deriving DecidableEq, Repr

inductive FaultClass where
  | load
  | step
  | stack
  | interrupted
  | host
  deriving DecidableEq, Repr

def FaultKind.code : FaultKind → Nat
  | .badImage => 1
  | .unsupportedVersion => 2
  | .notLoaded => 10
  | .programEnded => 11
  | .illegalOpcode => 12
  | .unimplemented => 13
  | .endOfImage => 14
  | .windowOverlap => 20
  | .stackOverflow => 30
  | .stackUnderflow => 31
  | .interrupted => 40
  | .hostIo => 50

def FaultKind.text : FaultKind → String
  | .badImage => "BAD PROGRAM IMAGE"
  | .unsupportedVersion => "UNSUPPORTED VERSION"
  | .notLoaded => "NO PROGRAM LOADED"
  | .programEnded => "PROGRAM ENDED"
  | .illegalOpcode => "ILLEGAL OPCODE"
  | .unimplemented => "UNIMPLEMENTED OPCODE"
  | .endOfImage => "FETCH PAST END OF IMAGE"
  | .windowOverlap => "WINDOW OVERLAP"
  | .stackOverflow => "STACK OVERFLOW"
  | .stackUnderflow => "STACK UNDERFLOW"
  | .interrupted => "INTERRUPTED"
  | .hostIo => "HOST I/O ERROR"

def FaultKind.family : FaultKind → FaultClass
  | .badImage | .unsupportedVersion | .windowOverlap => .load
  | .stackOverflow | .stackUnderflow => .stack
  | .interrupted => .interrupted
  | .hostIo => .host
  | .notLoaded | .programEnded | .illegalOpcode | .unimplemented | .endOfImage => .step

structure Fault where
  kind : FaultKind
  offset : Option Nat := none
  detail : String := ""
  deriving DecidableEq, Repr

namespace Fault

def interrupted (f : Fault) : Bool := f.kind == .interrupted

/-- Keeps the offset a fault already has. -/
def locate (f : Fault) (offset : Nat) : Fault :=
  match f.offset with
  | some _ => f
  | none => { f with offset := some offset }

def message (f : Fault) : String :=
  let place := match f.offset with
    | some offset => " AT 0x" ++ hex 6 offset
    | none => ""
  let detail := if f.detail.isEmpty then "" else "; " ++ f.detail
  f.kind.text ++ place ++ detail

def inspect (f : Fault) : String := "Error \x7b " ++ f.message ++ " \x7d"

end Fault

/-- The two ways a peripheral can fail: the session was interrupted, or the host refused. -/
inductive DeviceFailure where
  | interrupted
  | host (detail : String)
  deriving DecidableEq, Repr

def DeviceFailure.fault : DeviceFailure → Fault
  | .interrupted => { kind := .interrupted }
  | .host detail => { kind := .hostIo, detail }

end LavMachine
