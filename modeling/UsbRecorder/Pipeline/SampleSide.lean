import UsbRecorder.Control.Register
import UsbRecorder.Control.Settings
import UsbRecorder.Crossing.Queue
import UsbRecorder.Monitor.Step
import UsbRecorder.Recorder.Tick
/-!
# SampleSide — what runs on the sampling clock

Each tick applies the state register, classifies the bus, records, and hands one byte over to the queue; a byte that
the queue refuses stays in the ring.
-/
namespace UsbRecorder

/-- The sampling side. -/
structure SampleSide where
  monitor : Monitor
  recorder : Recorder
  /-- the register as last applied -/
  applied : Option Register := none
  status : Status := {}
  ticks : Nat := 0
  deriving Inhabited

namespace SampleSide

/-- The sampling side of a configuration, at the speed that the register asks for. -/
def create (settings : Settings) (register : Register) : Except Refusal SampleSide := do
  let recorder ← Recorder.create settings.ringSize settings.captureEvents
  return { monitor := { thresholds := settings.thresholds, mode := register.speed }, recorder }

/-- Take the register over where it has changed; a change of speed restarts the classification. -/
def obey (s : SampleSide) (register : Register) : SampleSide :=
  if s.applied = some register then s
  else
    let s := if s.applied.map (·.speed) = some register.speed then s else
      { s with monitor := s.monitor.withMode register.speed, recorder.speed := register.speed }
    { s with recorder.enabled := register.enabled, applied := some register }

/-- Hand a byte over to the queue. -/
def handOver (s : SampleSide) (q : Crossing) : SampleSide × Crossing :=
  match s.recorder.ring.offered with
  | none => (s, q)
  | some b =>
    match q.push b with
    | (true, q) => ({ s with recorder := s.recorder.take.2 }, q)
    | (false, q) => (s, q)

/-- One tick of the sampling clock.  A discard asks the receiver to drop what was handed over of the capture, and what
is still left of a record handed over in part. -/
def tick (s : SampleSide) (q : Crossing) (register : Register) (sample : Sample) : SampleSide × Crossing :=
  let s := s.obey register
  let q := q.senderTick
  let (event, monitor) := s.monitor.step sample
  let (status, recorder) := s.recorder.tick sample event
  let q := if status.discarding then q.markStale recorder.retained else q
  { s with monitor, recorder, status, ticks := s.ticks + 1 }.handOver q

def isHandedOver (s : SampleSide) : Bool := s.recorder.ring.isEmpty

end SampleSide
end UsbRecorder
