import UsbRecorder.Bus.Line
/-! # Sample — what the transceiver reports on one tick of the sampling clock -/
namespace UsbRecorder

/-- One tick of the bus. -/
structure Sample where
  line : Line := .se0
  byte : UInt8 := 0
  /-- `byte` was received on this tick -/
  valid : Bool := false
  active : Bool := false
  vbus : Bool := false
  deriving DecidableEq, Repr, Inhabited

namespace Sample

def rest (line : Line) (vbus : Bool) : Sample := { line, vbus }

def carrying (line : Line) (vbus : Bool) (byte : UInt8) : Sample := ⟨line, byte, true, true, vbus⟩

/-- The same tick with no reception going on. -/
def quieted (s : Sample) : Sample := { s with valid := false, active := false }

@[simp] theorem quieted_quieted (s : Sample) : s.quieted.quieted = s.quieted := rfl

end Sample
end UsbRecorder
