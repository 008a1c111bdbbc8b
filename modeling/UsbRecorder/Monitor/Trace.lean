import UsbRecorder.Monitor.Step
/-! # Trace — the ticks of a run on which something is reported or changes -/
namespace UsbRecorder

/-- A tick worth noting, with how things stand after it. -/
structure Notice where
  tick : Nat
  event : Option BusEvent
  phase : BusPhase
  detected : Speed
  phy : Speed
  deriving DecidableEq, Repr

namespace Monitor

def notice (m : Monitor) (tick : Nat) (event : Option BusEvent) : Notice := ⟨tick, event, m.phase, m.detected, m.phy⟩

/-- Whether a notice would show a difference between two monitors. -/
def differs (a b : Monitor) : Bool := a.phase != b.phase || a.detected != b.detected || a.phy != b.phy

/-- A run, with the ticks on which an event is reported or the phase or a speed changes. -/
def trace (m : Monitor) (samples : List Sample) : List Notice × Monitor :=
  let (notices, _, m) := samples.foldl (fun (notices, tick, m) s =>
    let (event, m') := m.step s
    (if event.isSome || differs m m' then m'.notice tick event :: notices else notices, tick + 1, m'))
    (([] : List Notice), 0, m)
  (notices.reverse, m)

end Monitor
end UsbRecorder
