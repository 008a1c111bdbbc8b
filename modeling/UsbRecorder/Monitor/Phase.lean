/-! # Phase — where the classification of the bus stands -/
namespace UsbRecorder

/-- A phase of the bus; `low`, `full` and `high` phases belong to a device at that speed. -/
inductive BusPhase where
  | initial
  | unpowered
  | detached
  | lowActive | lowReset | lowSuspended | lowResuming
  | fullActive | fullReset | fullSuspended | fullResuming
  | highActive
  /-- high speed is fixed: only the supply voltage is watched -/
  | highListening
  /-- after a full-speed reset, before the device's chirp -/
  | deviceChirpDue
  | deviceChirping
  | hostKDue | hostK | hostJDue | hostJ
  /-- the handshake is complete -/
  | highFound
  /-- the handshake has timed out -/
  | highDenied
  /-- after high-speed squelch, before it is known whether this is a suspend or a reset -/
  | squelched
  deriving DecidableEq, Repr, Inhabited

namespace BusPhase

/-- Whether a loss of power is reported from here. -/
def watchesPower : BusPhase → Bool
  | initial | unpowered | highFound => false
  | _ => true

end BusPhase
end UsbRecorder
