import LavMachine.Machine.Session
set_option autoImplicit false

namespace LavMachine

def recordText (name : String) (fields : List (String × String)) : String :=
  name ++ " \x7b " ++ String.intercalate ", "
    (fields.map fun (field, value) => field ++ ": " ++ value)
    ++ " \x7d"

def listText (items : List String) : String := "[" ++ String.intercalate ", " items ++ "]"

def Stack.inspect (s : Stack) : String := listText (s.toList.map fun w => toString w.toInt)

def Window.inspect (w : Window) : String := s!"Window({w.size} bytes)"

def Region.inspect (r : Region) : String :=
  recordText "Region" [("start", toString r.start), ("end", toString r.limit)]

def Memory.inspect (m : Memory) : String :=
  recordText "Memory" [
    ("region", m.region.inspect),
    ("strings", toString m.pool.count),
    ("windows", listText (m.mappings.map fun w =>
      s!"({w.base}..{m.mappingLimit w}, {Window.inspect (m.window w.slot)})"))]

def Phase.inspect : Phase → String
  | .unloaded => "Unloaded"
  | .ready => "Ready"
  | .running => "Running"
  | .ended => "Ended"

def Machine.inspect {κ φ : Type} (m : Machine κ φ) : String :=
  recordText "Runtime" [
    ("state", m.phase.inspect),
    ("stack", m.stack.inspect),
    ("memory", m.world.memory.inspect)]

end LavMachine
