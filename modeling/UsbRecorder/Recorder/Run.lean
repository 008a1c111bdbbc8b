import UsbRecorder.Recorder.Tick
/-! # Run — a recorder fed with samples and events while a reader takes bytes from its ring -/
namespace UsbRecorder
namespace Recorder

/-- A run, with the statuses it showed and the bytes read from it, both newest first. -/
structure Run where
  recorder : Recorder
  tick : Nat := 0
  statuses : List (Nat × Status) := []
  read : List Beat := []
  deriving Inhabited

def Run.take : Nat → Run → Run
  | 0, r => r
  | n + 1, r =>
    match r.recorder.take with
    | (some b, recorder) => Run.take n { r with recorder, read := b :: r.read }
    | (none, recorder) => { r with recorder }

/-- A tick with the event of that tick, after which at most so many bytes are taken. -/
def Run.feed (events : Nat → Option BusEvent) (taken : Nat) (r : Run) (s : Sample) : Run :=
  let (status, recorder) := r.recorder.tick s (events r.tick)
  let r := { r with recorder, tick := r.tick + 1, statuses := Status.note r.statuses r.tick status }
  r.take taken

def run (r : Recorder) (events : Nat → Option BusEvent) (taken : Nat) (samples : List Sample) : Run :=
  samples.foldl (Run.feed events taken) { recorder := r }

/-! ## Histories -/

/-- What can happen to a recorder. -/
inductive Action where
  | enable (on : Bool)
  | setSpeed (s : Speed)
  | tick (s : Sample) (event : Option BusEvent)
  | take
  deriving Repr

def step (r : Recorder) : Action → Recorder
  | .enable on => { r with enabled := on }
  | .setSpeed speed => { r with speed }
  | .tick s event => (r.tick s event).2
  | .take => r.take.2

def after (r : Recorder) (actions : List Action) : Recorder := actions.foldl step r

/-- What actions frame, in order. -/
def framings : Recorder → List Action → List Framing
  | _, [] => []
  | r, .tick s event :: rest => (r.tick s event).2.framed.reverse ++ (r.tick s event).2.framings rest
  | r, a :: rest => (r.step a).framings rest

theorem after_append (r : Recorder) (a b : List Action) : r.after (a ++ b) = (r.after a).after b := by
  simp [after]

theorem framings_append (r : Recorder) (a b : List Action) :
    r.framings (a ++ b) = r.framings a ++ (r.after a).framings b := by
  induction a generalizing r with
  | nil => rfl
  | cons x a ih => cases x <;> simp [framings, after, step, ih]

end Recorder
end UsbRecorder
