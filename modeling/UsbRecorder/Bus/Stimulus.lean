import UsbRecorder.Bus.Sample
/-!
# Stimulus — bus activity written as actions, and the samples it amounts to

`samples_append`: the actions of one list after those of another go on from the levels where the first left off.
`expand_runs`: the grouped form of a list of samples is that list.
-/
namespace UsbRecorder
namespace Stimulus

/-- A step of bus activity. -/
inductive Action where
  | supply (present : Bool)
  | drive (line : Line) (ticks : Nat)
  | rest (ticks : Nat)
  /-- receive a packet, one byte a tick, and rest for the tick on which reception ends -/
  | packet (bytes : List UInt8)
  /-- a given sample, many times; the levels in force stay as they are -/
  | hold (sample : Sample) (ticks : Nat)
  deriving Repr

/-- The levels in force between two actions. -/
structure Levels where
  line : Line := .dPlus
  vbus : Bool := true
  deriving DecidableEq, Repr, Inhabited

def Levels.after (l : Levels) : Action → Levels
  | .supply present => { l with vbus := present }
  | .drive line _ => { l with line }
  | _ => l

def Action.samples (l : Levels) : Action → List Sample
  | .supply _ => []
  | .drive line ticks => List.replicate ticks (.rest line l.vbus)
  | .rest ticks => List.replicate ticks (.rest l.line l.vbus)
  | .packet bytes => bytes.map (.carrying l.line l.vbus) ++ [.rest l.line l.vbus]
  | .hold sample ticks => List.replicate ticks sample

/-- The samples of a list of actions, from the given levels: by default full-speed idle with power. -/
def samples (actions : List Action) (l : Levels := {}) : List Sample :=
  match actions with
  | [] => []
  | a :: rest => a.samples l ++ samples rest (l.after a)

theorem samples_append (a b : List Action) (l : Levels) :
    samples (a ++ b) l = samples a l ++ samples b (a.foldl Levels.after l) := by
  induction a generalizing l with
  | nil => rfl
  | cons x a ih => simp [samples, ih]

/-- Put a sample in front of grouped ones. -/
def consRun (s : Sample) : List (Sample × Nat) → List (Sample × Nat)
  | (t, n) :: rest => if s = t then (t, n + 1) :: rest else (s, 1) :: (t, n) :: rest
  | [] => [(s, 1)]

/-- Equal neighbours grouped, each group with its length. -/
def runs (samples : List Sample) : List (Sample × Nat) := samples.foldr consRun []

def expand (groups : List (Sample × Nat)) : List Sample := groups.flatMap fun g => List.replicate g.2 g.1

theorem expand_consRun (s : Sample) (groups : List (Sample × Nat)) : expand (consRun s groups) = s :: expand groups := by
  unfold consRun
  split
  · split
    · subst_vars
      simp [expand, List.replicate_succ]
    · simp [expand]
  · simp [expand]

theorem expand_runs (samples : List Sample) : expand (runs samples) = samples := by
  unfold runs
  induction samples with
  | nil => rfl
  | cons s rest ih => rw [List.foldr_cons, expand_consRun, ih]

end Stimulus
end UsbRecorder
