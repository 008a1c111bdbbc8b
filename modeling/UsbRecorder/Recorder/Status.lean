/-! # Status — where a recorder stands, and the flags it shows on each tick -/
namespace UsbRecorder

/-- What a recorder is doing. -/
inductive Recorder.Phase where
  /-- disabled, or waiting for a packet in progress to end -/
  | stopped
  /-- armed, between packets -/
  | waiting
  | capturing
  | overrun
  | babble
  deriving DecidableEq, Repr, Inhabited

/-- The flags of a tick. -/
structure Status where
  idle : Bool := false
  stopped : Bool := false
  capturing : Bool := false
  overrun : Bool := false
  babble : Bool := false
  /-- buffered data was dropped on this tick -/
  discarding : Bool := false
  deriving DecidableEq, Repr, Inhabited

namespace Status

def ofPhase (phase : Recorder.Phase) (discarding : Bool) : Status where
  idle := phase == .stopped || phase == .waiting
  stopped := phase == .stopped || phase == .overrun || phase == .babble
  capturing := phase == .capturing
  overrun := phase == .overrun
  babble := phase == .babble
  discarding

def names (s : Status) : String :=
  " ".intercalate ([("idle", s.idle), ("stopped", s.stopped), ("capturing", s.capturing), ("overrun", s.overrun),
    ("babble", s.babble), ("discarding", s.discarding)].filterMap fun f => if f.2 then some f.1 else none)

/-- Statuses by tick, newest first, where each differs from the one before; the first is always noted. -/
def note (log : List (Nat × Status)) (tick : Nat) (s : Status) : List (Nat × Status) :=
  match log with
  | (_, before) :: _ => if s = before then log else (tick, s) :: log
  | [] => [(tick, s)]

end Status
end UsbRecorder
