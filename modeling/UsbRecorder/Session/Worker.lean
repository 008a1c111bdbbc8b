import UsbRecorder.Refusal
/-! # Worker — how a worker ends, and how it is asked to -/
namespace UsbRecorder

/-- How a worker ended. -/
inductive Worker.Ending (α : Type) where
  | returned (result : α)
  | failed (reason : String)
  /-- it broke off, with a text if it gave one -/
  | broke (reason : Option String)
  deriving DecidableEq, Repr, Inhabited

namespace Worker

/-- Wait for a worker that is known by a name. -/
def join {α : Type} (name : String) : Ending α → Except Refusal α
  | .returned result => .ok result
  | .failed reason => .error (.workerFailed name reason)
  | .broke reason => .error (.workerBroke name (reason.getD "<No panic message>"))

/-- A line on which a worker is asked to stop. -/
inductive StopLine where
  /-- nothing was asked, and somebody could still ask -/
  | quiet
  /-- a stop was asked for -/
  | asked
  /-- nobody is left to ask -/
  | dead
  deriving DecidableEq, Repr, Inhabited

namespace StopLine

def send : StopLine → StopLine
  | quiet => asked
  | line => line

def release : StopLine → StopLine
  | quiet => dead
  | line => line

/-- Whether the worker has to stop: it was asked to, or nobody is left to ask. -/
def poll : StopLine → Bool × StopLine
  | quiet => (false, quiet)
  | asked | dead => (true, dead)

end StopLine
end Worker
end UsbRecorder
