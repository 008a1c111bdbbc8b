import UsbRecorder.Pipeline.ReportSide
import UsbRecorder.Pipeline.SampleSide
/-!
# Pipeline — the two sides, the queue between them and the registers, under any interleaving

Each side runs on a clock of its own, so a history of the pipeline is a list of actions in any order.
-/
namespace UsbRecorder

/-- A recorder from its registers to its reader. -/
structure Pipeline where
  controls : Controls
  samples : SampleSide
  queue : Crossing
  reports : ReportSide
  deriving Inhabited

/-- Statistics of a capture. -/
structure Statistics where
  recorder : Recorder.Counts
  pushed : Nat
  refused : Nat
  popped : Nat
  resets : Nat
  resetBytes : Nat
  store : Option Spill.Counts
  discarded : Nat
  ticks : Nat
  deriving DecidableEq, Repr, Inhabited

namespace Pipeline

/-- The pipeline of a configuration: first the queue is built, then the sampling side, then the reporting side. -/
def create (settings : Settings) (controls : Controls) : Except Refusal Pipeline := do
  let queue ← Crossing.create settings.queueDepth
  let samples ← SampleSide.create settings controls.state
  let reports ← ReportSide.create settings
  return { controls, samples, queue, reports }

/-- A tick of the sampling clock. -/
def sample (p : Pipeline) (s : Sample) : Pipeline :=
  let (samples, queue) := p.samples.tick p.queue p.controls.state s
  { p with samples, queue }

/-- A tick of the reporting clock. -/
def report (p : Pipeline) (ready : Bool) : Option Beat × Pipeline :=
  let (b, reports, queue) := p.reports.tick p.queue ready
  (b, { p with reports, queue })

/-- Have all that was handed over dropped, to the end of the record being handed over. -/
def discardSent (p : Pipeline) : Pipeline :=
  { p with queue := p.queue.markStale p.samples.recorder.ring.restOfBegun }

def drop (p : Pipeline) : Pipeline := { p with queue := p.queue.close }

def request (p : Pipeline) (r : Controls.Request) : Except Refusal (Option UInt8) × Pipeline :=
  let (answer, controls) := p.controls.perform r
  (answer, { p with controls })

def statistics (p : Pipeline) : Statistics where
  recorder := p.samples.recorder.counts
  pushed := p.queue.sender.pushed
  refused := p.queue.sender.refused
  popped := p.queue.receiver.popped
  resets := p.queue.receiver.resets
  resetBytes := p.queue.receiver.resetBytes
  store := p.reports.store.map (·.counts)
  discarded := p.reports.discarded
  ticks := p.samples.ticks

/-! ## Interleavings -/

/-- What can happen to a pipeline. -/
inductive Action where
  | sample (s : Sample)
  | report (ready : Bool)
  | discard
  | request (r : Controls.Request)
  | drop
  deriving Repr

/-- One action, with the byte that it delivers, if any; nothing is sampled once the sampling side has gone. -/
def step (p : Pipeline) : Action → Option Beat × Pipeline
  | .sample s => (none, if p.queue.closed then p else p.sample s)
  | .report ready => p.report ready
  | .discard => (none, if p.queue.closed then p else p.discardSent)
  | .request r => (none, (p.request r).2)
  | .drop => (none, p.drop)

def after (p : Pipeline) (actions : List Action) : Pipeline := actions.foldl (fun p a => (p.step a).2) p

def delivered : Pipeline → List Action → List Beat
  | _, [] => []
  | p, a :: rest => (p.step a).1.toList ++ (p.step a).2.delivered rest

theorem after_append (p : Pipeline) (a b : List Action) : p.after (a ++ b) = (p.after a).after b := by
  simp [after]

theorem delivered_append (p : Pipeline) (a b : List Action) :
    p.delivered (a ++ b) = p.delivered a ++ (p.after a).delivered b := by
  induction a generalizing p with
  | nil => rfl
  | cons x a ih => simp [delivered, after, ih]

/-! ## Scheduled runs -/

/-- A run, with the statuses it showed and the bytes it delivered, both newest first. -/
structure Run where
  pipeline : Pipeline
  tick : Nat := 0
  statuses : List (Nat × Status) := []
  read : List Beat := []
  deriving Inhabited

def Run.reports (ready : Bool) : Nat → Run → Run
  | 0, r => r
  | n + 1, r =>
    let (b, pipeline) := r.pipeline.report ready
    Run.reports ready n { r with pipeline, read := b.toList ++ r.read }

/-- A tick of the sampling clock, and after every `every`-th of them so many ticks of the reporting clock. -/
def Run.sample (every reports : Nat) (ready : Bool) (r : Run) (s : Sample) : Run :=
  let pipeline := r.pipeline.sample s
  let r := { r with
    pipeline
    tick := r.tick + 1
    statuses := Status.note r.statuses r.tick pipeline.samples.status }
  if r.tick % every = 0 then r.reports ready reports else r

/-- Samples, with ticks of the reporting clock among them. -/
def run (p : Pipeline) (every reports : Nat) (ready : Bool) (samples : List Sample) : Run :=
  samples.foldl (Run.sample every reports ready) { pipeline := p }

end Pipeline
end UsbRecorder
