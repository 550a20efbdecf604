import LavMachine.Fault
set_option autoImplicit false

/-!
The switch between a running machine and whoever drives it. A step that has begun always finishes;
the switch is looked at between steps. Cancelling is final until a reset and wins over pausing.
-/
namespace LavMachine

inductive Control where
  | running
  | paused
  | cancelled
  deriving DecidableEq, Repr

namespace Control

def isPaused (c : Control) : Bool := c == .paused

def isCancelled (c : Control) : Bool := c == .cancelled

def pause : Control → Control
  | .cancelled => .cancelled
  | .running | .paused => .paused

def resume : Control → Control
  | .cancelled => .cancelled
  | .running | .paused => .running

def cancel (_ : Control) : Control := .cancelled

def reset (_ : Control) : Control := .running

def checkpoint : Control → Except DeviceFailure Unit
  | .cancelled => .error .interrupted
  | .running | .paused => .ok ()

/-- Waits for some time, which passes also while paused. -/
def sleep : Control → Except DeviceFailure Unit
  | .cancelled => .error .interrupted
  | .running | .paused => .ok ()

end Control
end LavMachine
