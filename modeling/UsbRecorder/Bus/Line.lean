import UsbRecorder.Bus.Event
/-!
# Line — the two single-ended line levels and what they mean at each signalling

Which level is J and which is K depends on the speed in use: `levelJ_low` and `levelJ_full` state that low speed swaps
them.
-/
namespace UsbRecorder

/-- The pair of single-ended levels on the bus. -/
inductive Line where
  | se0
  /-- D+ high: J at full speed, K at low speed -/
  | dPlus
  /-- D- high: K at full speed, J at low speed -/
  | dMinus
  | se1
  deriving DecidableEq, Repr, Inhabited

namespace Line

/-- The two bits of a level pair: D+ in the lower one. -/
def code : Line → UInt8
  | se0    => 0
  | dPlus  => 1
  | dMinus => 2
  | se1    => 3

/-- The level pair with a number; numbers above three mean `se0`. -/
def ofCode (n : UInt8) : Line :=
  if n = 1 then dPlus else if n = 2 then dMinus else if n = 3 then se1 else se0

/-- The level pair in the two low bits of a transceiver register. -/
def ofBits (bits : UInt8) : Line := ofCode (bits &&& 3)

@[simp] theorem ofCode_code (l : Line) : ofCode l.code = l := by cases l <;> rfl

@[simp] theorem ofBits_code (l : Line) : ofBits l.code = l := by cases l <;> rfl

end Line

/-- The signalling under which line levels are read; `chirp` is the high-speed handshake, at full-speed levels. -/
inductive Signalling where
  | low | full | chirp
  deriving DecidableEq, Repr, Inhabited

namespace Signalling

def levelJ : Signalling → Line
  | low => .dMinus
  | full | chirp => .dPlus

def levelK : Signalling → Line
  | low => .dPlus
  | full | chirp => .dMinus

/-- The event that reports a change to the given levels. -/
def report : Signalling → Line → BusEvent
  | _,     .se0    => .lineSe0
  | low,   .dPlus  => .lowK
  | low,   .dMinus => .lowJ
  | full,  .dPlus  => .fullJ
  | full,  .dMinus => .fullK
  | chirp, .dPlus  => .chirpJ
  | chirp, .dMinus => .chirpK
  | chirp, .se1    => .chirpSe1
  | _,     .se1    => .lineSe1

theorem levelJ_low : low.levelJ = full.levelK := rfl

theorem levelJ_full : full.levelJ = low.levelK := rfl

end Signalling
end UsbRecorder
