import UsbRecorder.Report.Feed
import UsbRecorder.Session.Dispatcher
import UsbRecorder.Session.Worker
/-!
# Setup — a configured recorder, and a session of it from start to stop

A session has two workers, one that samples and one that dispatches, and a reader of the reports.  Where the queue is
deeper than all that is captured their relative speed decides nothing, and they take turns here.
-/
namespace UsbRecorder

/-- How a source of samples goes on after its samples. -/
inductive Source.After where
  | ends
  | repeats
  /-- it breaks the worker that reads it -/
  | breaks (reason : String)
  deriving DecidableEq, Repr, Inhabited

/-- A source of samples. -/
structure Source where
  samples : List Sample
  after : Source.After := .ends
  deriving Repr, Inhabited

/-- A running capture. -/
structure Session where
  settings : Settings
  pipeline : Pipeline
  /-- samples still to come -/
  source : Source
  latest : Sample := {}
  /-- how the sampling worker ended, if it has -/
  sampler : Option (Worker.Ending Unit) := none
  dispatcher : Dispatcher
  dispatching : Option (Worker.Ending Unit) := none
  stream : ReportFeed
  deriving Inhabited

/-- A configured recorder and its registers. -/
structure Setup where
  settings : Settings
  controls : Controls := .standard
  deriving Inhabited

namespace Session

/-- The sampling worker ends, and with it the sending side of the queue. -/
def endSampler (s : Session) (ending : Worker.Ending Unit) : Session :=
  { s with sampler := some ending, pipeline := s.pipeline.drop }

/-- The dispatching worker ends, and with it the sending side of the channel. -/
def endDispatcher (s : Session) (ending : Worker.Ending Unit) : Session :=
  { s with dispatching := some ending, stream := s.stream.close }

end Session

namespace Setup

def create (layers : List Layer) : Except Refusal Setup :=
  (Settings.resolve layers).map fun settings => { settings }

/-- Build the workers and the stream of a session. -/
def openSession (settings : Settings) (controls : Controls) (source : Source) : Except Refusal Session :=
  (Pipeline.create settings controls).map fun pipeline =>
    let session (dispatcher : Dispatcher) : Session :=
      { settings, pipeline, source, dispatcher, stream := { decoder := { clock := settings.clock } } }
    match Dispatcher.create settings.batch with
    | .ok dispatcher => session dispatcher
    | .error reason => (session default).endDispatcher (.broke (some reason))

/-- Start a capture at a speed: the register is set first, then the session is built. -/
def start (c : Setup) (speed : Speed) (source : Source) : Except Refusal Session × Setup :=
  match c.controls.start speed with
  | .error e => (.error e, c)
  | .ok controls => (openSession c.settings controls source, { c with controls })

end Setup

namespace Session

def feed (s : Session) (sample : Sample) : Session :=
  { s with pipeline := s.pipeline.sample sample, latest := sample }

/-- One turn of the sampling worker; after the samples it holds the bus quiet until all is handed over. -/
def sampleTurn (s : Session) : Session :=
  match s.sampler, s.source.samples, s.source.after with
  | some _, _, _ => s
  | none, sample :: rest, _ => { s with source.samples := rest }.feed sample
  | none, [], .repeats => s.feed s.latest
  | none, [], .breaks reason => s.endSampler (.broke (some reason))
  | none, [], .ends =>
    if s.pipeline.samples.isHandedOver then s.endSampler (.returned ()) else s.feed s.latest.quieted

def dispatchTurn (s : Session) : Session :=
  if s.dispatching.isSome then s
  else
    let (buffer, dispatcher, pipeline) := s.dispatcher.turn s.pipeline true
    let stream := match buffer with
      | some bytes => s.stream.send bytes
      | none => s.stream
    let s := { s with dispatcher, pipeline, stream }
    if dispatcher.finished then s.endDispatcher (.returned ()) else s

def turn (s : Session) : Session := s.sampleTurn.dispatchTurn

def isOver (s : Session) : Bool := s.sampler.isSome && s.dispatching.isSome

/-- Turns, so many at most, until both workers have ended. -/
def complete : Nat → Session → Session
  | 0, s => s
  | n + 1, s => if s.isOver then s else complete n s.turn

/-- Turns after which a session has dispatched everything.  What is still to be dispatched is what was sent so far, at
most one byte more for each sample to come, and what the ring holds after them; each byte passes through the memory in
two bursts of its own at worst, and waits a turn for its batch to be sent.  A steady bus reports its last event when
its longest threshold is over. -/
def budget (s : Session) : Nat :=
  let t := s.settings.thresholds
  let steady := t.reset.toNat + t.vbusDebounce.toNat + t.settle.toNat + t.hostChirp.toNat + t.suspend.toNat +
    t.deviceChirp.toNat + t.resume.toNat
  let perByte := match s.settings.store with
    | some store => 2 * (store.latency + store.recovery + 8)
    | none => 4
  (s.pipeline.queue.sender.pushed + s.source.samples.length + s.settings.ringSize + steady + 64) * perByte

abbrev Outcome := ReportFeed.Outcome

/-- Read reports, so many at most if a number is given, until there are no more.  A reader that polls does not hear of
a record cut off at the end, but notes the end. -/
def read (polls : Bool) : Nat → Option Nat → Session → Except Decoder.Fault (List Outcome × Session)
  | 0, _, s => .ok ([], s)
  | _, some 0, s => .ok ([], s)
  | fuel + 1, wanted, s => do
    let (outcome, stream) ← if polls then s.stream.poll else s.stream.next
    let s := { s with stream }
    match outcome with
    | .waiting => read polls fuel wanted s.turn
    | .ended => return (if polls then [.ended] else [], s)
    | outcome =>
      let (outcomes, s) ← read polls fuel (wanted.map (· - 1)) s
      return (outcome :: outcomes, s)

/-- How the workers ended, the sampling one first, and the statistics they leave. -/
def join (s : Session) : Except Refusal Statistics := do
  match s.sampler with
  | some ending => Worker.join "Producer" ending
  | none => pure ()
  match s.dispatching with
  | some ending => Worker.join "Consumer" ending
  | none => pure ()
  return s.pipeline.statistics

/-- Wait until all that the source has to give is dispatched. -/
def finish (s : Session) : Except Refusal Statistics := (complete s.budget s).join

/-- Stop the workers; those of a source that comes to an end have come to theirs. -/
def stop (s : Session) : Except Refusal Statistics :=
  match s.source.after with
  | .repeats => s.join
  | _ => s.finish

end Session
end UsbRecorder
