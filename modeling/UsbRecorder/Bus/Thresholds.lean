import UsbRecorder.Refusal
/-!
# Thresholds — how long the bus must hold a state for it to count

The nominal thresholds are given for a sampling clock of 60 MHz; `scaled_nominal` states that scaling to that
clock changes none of them.
-/
namespace UsbRecorder

/-- Thresholds in ticks of the sampling clock. -/
structure Thresholds where
  /-- shortest SE0 that is a keep-alive or ends a resume -/
  pulseMin : UInt32 := 40
  /-- longest SE0 that is a keep-alive or ends a resume -/
  pulseMax : UInt32 := 90
  /-- shortest reset, attach or chirp -/
  reset : UInt32 := 150
  /-- how long power must be present to be valid -/
  vbusDebounce : UInt32 := 3000
  /-- the wait after high-speed squelch before the bus is read -/
  settle : UInt32 := 12000
  /-- the budget of the host's chirps -/
  hostChirp : UInt32 := 150000
  /-- the idle time that is a suspend -/
  suspend : UInt32 := 180000
  /-- the budget of the device's chirp -/
  deviceChirp : UInt32 := 420000
  /-- shortest resume at a fixed speed -/
  resume : UInt32 := 1200000
  deriving DecidableEq, Repr, Inhabited

namespace Thresholds

/-- The clock rate for which the nominal thresholds are given. -/
def nominalClock : UInt32 := 60000000

def nominal : Thresholds := {}

/-- A number of ticks of the nominal clock in ticks of another: to the nearest, a half upwards, and at least one. -/
def scale (clock : UInt32) (ticks : UInt32) : UInt32 :=
  let nearest := (ticks.toNat * clock.toNat + nominalClock.toNat / 2) / nominalClock.toNat
  UInt32.ofNat (min (max nearest 1) (UInt32.size - 1))

/-- The thresholds at a clock rate. -/
def scaled (clock : UInt32) : Thresholds where
  pulseMin     := scale clock nominal.pulseMin
  pulseMax     := scale clock nominal.pulseMax
  reset        := scale clock nominal.reset
  vbusDebounce := scale clock nominal.vbusDebounce
  settle       := scale clock nominal.settle
  hostChirp    := scale clock nominal.hostChirp
  suspend      := scale clock nominal.suspend
  deviceChirp  := scale clock nominal.deviceChirp
  resume       := scale clock nominal.resume

theorem scaled_nominal : scaled nominalClock = nominal := by decide

def ofClock (clock : UInt32) : Except Refusal Thresholds :=
  if clock = 0 then .error .stoppedClock else .ok (scaled clock)

/-- Whether an SE0 of the given length is a keep-alive or ends a resume. -/
def inPulseRange (t : Thresholds) (ticks : Nat) : Bool := t.pulseMin.toNat ≤ ticks && ticks ≤ t.pulseMax.toNat

end Thresholds
end UsbRecorder
