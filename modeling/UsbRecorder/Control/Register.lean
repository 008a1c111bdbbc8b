import UsbRecorder.Refusal
/-!
# Register — the state register through which a host drives a capture

Bit zero enables the capture, bits one and two hold the speed setting; the other bits are kept as they are written.
-/
namespace UsbRecorder

/-- The state register. -/
structure Register where
  raw : UInt8
  deriving DecidableEq, Repr, Inhabited

namespace Register

def enabled (r : Register) : Bool := r.raw &&& 1 != 0

def speed (r : Register) : Speed := .ofCode ((r.raw >>> (1 : UInt8)) &&& 3)

def setEnabled (r : Register) (on : Bool) : Register := ⟨(r.raw &&& 0xFE) ||| (if on then 1 else 0)⟩

def setSpeed (r : Register) (s : Speed) : Register := ⟨(r.raw &&& (0xF9 : UInt8)) ||| (s.code <<< (1 : UInt8))⟩

def capturing (s : Speed) : Register := (Register.setSpeed ⟨0⟩ s).setEnabled true

def initial : Register := Register.setSpeed ⟨0⟩ .auto

@[simp] theorem enabled_setEnabled (r : Register) (on : Bool) : (r.setEnabled on).enabled = on := by
  obtain ⟨⟨raw⟩⟩ := r
  have key : ∀ (raw : BitVec 8) (on : Bool), (setEnabled ⟨⟨raw⟩⟩ on).enabled = on := by decide +kernel
  exact key raw on

@[simp] theorem speed_setSpeed (r : Register) (s : Speed) : (r.setSpeed s).speed = s := by
  obtain ⟨⟨raw⟩⟩ := r
  have key : ∀ raw : BitVec 8, (setSpeed ⟨⟨raw⟩⟩ s).speed = s := by cases s <;> decide +kernel
  exact key raw

@[simp] theorem speed_setEnabled (r : Register) (on : Bool) : (r.setEnabled on).speed = r.speed := by
  obtain ⟨⟨raw⟩⟩ := r
  have key : ∀ (raw : BitVec 8) (on : Bool), (setEnabled ⟨⟨raw⟩⟩ on).speed = (Register.mk ⟨raw⟩).speed := by
    decide +kernel
  exact key raw on

end Register

/-- The registers of a recorder: its state, and the mask of the speeds it offers. -/
structure Controls where
  state : Register := .initial
  offered : UInt8
  deriving DecidableEq, Repr, Inhabited

namespace Controls

def offering (speeds : List Speed) : Controls := { offered := Speed.toMask speeds }

def standard : Controls := offering Speed.all

def speeds (c : Controls) : List Speed := Speed.ofMask c.offered

def supports (c : Controls) (s : Speed) : Bool := Speed.inMask c.offered s

def start (c : Controls) (s : Speed) : Except Refusal Controls :=
  if c.supports s then .ok { c with state := .capturing s } else .error (.unsupportedSpeed s)

def stop (c : Controls) : Controls := { c with state := c.state.setEnabled false }

/-- Answer a request by its number: 0 reads the state, 1 writes it, 2 reads the speeds offered. -/
def handle (c : Controls) (request : UInt8) (value : UInt16) : Except Refusal (Option UInt8 × Controls) :=
  match request with
  | 0 => .ok (some c.state.raw, c)
  | 1 =>
    if 256 ≤ value.toNat then .error .wideState
    else
      let state : Register := ⟨value.toUInt8⟩
      if c.supports state.speed then .ok (none, { c with state }) else .error (.unsupportedSpeed state.speed)
  | 2 => .ok (some c.offered, c)
  | _ => .error (.unknownRequest request)

/-- A request to the registers. -/
inductive Request where
  | vendor (number : UInt8) (value : UInt16)
  | start (speed : Speed)
  | stop
  | write (raw : UInt8)
  deriving DecidableEq, Repr

def perform (c : Controls) (r : Request) : Except Refusal (Option UInt8) × Controls :=
  match r with
  | .vendor number value =>
    match c.handle number value with
    | .ok (answer, c) => (.ok answer, c)
    | .error e => (.error e, c)
  | .start speed =>
    match c.start speed with
    | .ok c => (.ok none, c)
    | .error e => (.error e, c)
  | .stop => (.ok none, c.stop)
  | .write raw => (.ok none, { c with state := ⟨raw⟩ })

end Controls
end UsbRecorder
