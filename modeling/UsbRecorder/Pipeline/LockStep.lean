import UsbRecorder.Monitor.Trace
import UsbRecorder.Pipeline.Basic
/-! # LockStep — a pipeline whose two clocks tick together, one tick of each in turn -/
namespace UsbRecorder

/-- A pipeline in lock step, with what its reader has taken. -/
structure LockStep where
  pipeline : Pipeline
  output : Array Beat := #[]
  /-- the reader takes data; one that does not backs the queue up -/
  ready : Bool := true
  latest : Sample := {}
  deriving Inhabited

namespace LockStep

def create (settings : Settings) (controls : Controls) : Except Refusal LockStep :=
  (Pipeline.create settings controls).map fun pipeline => { pipeline }

/-- One tick of both clocks, the sampling clock first. -/
def tick (a : LockStep) (s : Sample) : LockStep :=
  let (b, pipeline) := (a.pipeline.sample s).report a.ready
  { a with
    pipeline
    output := match b with
      | some b => a.output.push b
      | none => a.output
    latest := s }

def status (a : LockStep) : Status := a.pipeline.samples.status

def run (a : LockStep) (samples : List Sample) : LockStep := samples.foldl tick a

/-- Everything has been read: the sender's view of the queue is late, so it reads empty only once the receiver has
taken everything. -/
def isQuiet (a : LockStep) : Bool :=
  let p := a.pipeline
  p.samples.isHandedOver && p.queue.senderLevel == 0 && p.reports.isIdle p.queue

/-- Feed one sample until everything is read, for so many ticks at most; the answer is whether it was. -/
def drainOn (quiet : Sample) : Nat → LockStep → Bool × LockStep
  | 0, a => (a.isQuiet, a)
  | n + 1, a => if a.isQuiet then (true, a) else drainOn quiet n (a.tick quiet)

/-- Hold the bus quiet until everything is read. -/
def drain (a : LockStep) (limit : Nat) : Bool × LockStep := drainOn a.latest.quieted limit a

/-- Drop what was handed over and is not read; a record that the reader has begun is still delivered in full. -/
def discardUnread (a : LockStep) : LockStep := { a with pipeline := a.pipeline.discardSent }

def take (a : LockStep) : List Beat × LockStep := (a.output.toList, { a with output := #[] })

/-- Put how a monitor stands in front of notices, newest first, where it differs from the last of them. -/
def noteBus (log : List Notice) (tick : Nat) (m : Monitor) : List Notice :=
  match log with
  | n :: _ => if m.notice n.tick none = n then log else m.notice tick none :: log
  | [] => [m.notice tick none]

/-- A run with the statuses and the bus phases it showed, both where they differ from the tick before. -/
def trace (a : LockStep) (samples : List Sample) : List (Nat × Status) × List Notice × LockStep :=
  let (_, statuses, bus, a) := samples.foldl (fun (tick, statuses, bus, a) s =>
    let a := a.tick s
    (tick + 1, Status.note statuses tick a.status, noteBus bus tick a.pipeline.samples.monitor, a))
    (0, ([] : List (Nat × Status)), ([] : List Notice), a)
  (statuses.reverse, bus.reverse, a)

/-! ## Histories -/

/-- What can happen to a pipeline in lock step. -/
inductive Action where
  | tick (s : Sample)
  | ready (on : Bool)
  | request (r : Controls.Request)
  | discard
  | take
  | drain (limit : Nat)
  deriving Repr

def step (a : LockStep) : Action → LockStep
  | .tick s => a.tick s
  | .ready ready => { a with ready }
  | .request r => { a with pipeline := (a.pipeline.request r).2 }
  | .discard => a.discardUnread
  | .take => a.take.2
  | .drain limit => (a.drain limit).2

def after (a : LockStep) (actions : List Action) : LockStep := actions.foldl step a

/-- The beats that actions take out. -/
def taken : LockStep → List Action → List Beat
  | _, [] => []
  | a, .take :: rest => a.take.1 ++ a.take.2.taken rest
  | a, x :: rest => (a.step x).taken rest

end LockStep
end UsbRecorder
