import UsbRecorder.Bus.Speed
/-!
# Event — what happens on the bus and to a capture, with its code on the wire

`ofCode?_code`: the codes tell the events apart.  `reportable?` leaves out the placeholder, which only carries time.
-/
namespace UsbRecorder

/-- Why a capture stopped. -/
inductive StopCause where
  | requested
  | full
  | error
  deriving DecidableEq, Repr, Inhabited

/-- An event of the bus or of the capture itself. -/
inductive BusEvent where
  /-- carries elapsed time only -/
  | placeholder
  | stopped (cause : StopCause)
  | started (setting : Speed)
  | detected (speed : Speed)
  | lineSe0 | chirpJ | chirpK | chirpSe1 | lowJ | lowK | fullJ | fullK | lineSe1
  | vbusInvalid | vbusValid | lowAttach | fullAttach | reset | deviceChirp | hostChirp | suspend | resume | keepalive
  deriving DecidableEq, Repr, Inhabited

namespace BusEvent

def code : BusEvent → UInt8
  | placeholder        => 0
  | stopped .requested => 1
  | stopped .full      => 2
  | stopped .error     => 3
  | started s          => 4 + s.code
  | detected s         => 8 + s.code
  | lineSe0            => 12
  | chirpJ             => 13
  | chirpK             => 14
  | chirpSe1           => 15
  | lowJ               => 16
  | lowK               => 17
  | fullJ              => 18
  | fullK              => 19
  | lineSe1            => 20
  | vbusInvalid        => 21
  | vbusValid          => 22
  | lowAttach          => 23
  | fullAttach         => 24
  | reset              => 25
  | deviceChirp        => 26
  | hostChirp          => 27
  | suspend            => 28
  | resume             => 29
  | keepalive          => 30

def all : List BusEvent :=
  [placeholder, stopped .requested, stopped .full, stopped .error,
   started .high, started .full, started .low, started .auto,
   detected .high, detected .full, detected .low, detected .auto,
   lineSe0, chirpJ, chirpK, chirpSe1, lowJ, lowK, fullJ, fullK, lineSe1,
   vbusInvalid, vbusValid, lowAttach, fullAttach, reset, deviceChirp, hostChirp, suspend, resume, keepalive]

/-- The event with a code, the placeholder included. -/
def ofCode? (code : UInt8) : Option BusEvent := all[code.toNat]?

/-- The event to report for a code: none for the placeholder and for unknown codes. -/
def reportable? (code : UInt8) : Option BusEvent :=
  if code = 0 then none else ofCode? code

@[simp] theorem ofCode?_code (e : BusEvent) : ofCode? e.code = some e := by
  cases e with
  | stopped c => cases c <;> rfl
  | started s => cases s <;> rfl
  | detected s => cases s <;> rfl
  | _ => rfl

theorem code_injective {a b : BusEvent} (h : a.code = b.code) : a = b := by
  have := congrArg ofCode? h
  simpa using this

def description : BusEvent → String
  | placeholder        => "Timestamp placeholder"
  | stopped .requested => "Capture stopped"
  | stopped .full      => "Capture stopped: buffer full"
  | stopped .error     => "Capture stopped: error"
  | started .high      => "Capture started at High Speed"
  | started .full      => "Capture started at Full Speed"
  | started .low       => "Capture started at Low Speed"
  | started .auto      => "Capture started with automatic speed detection"
  | detected .high     => "High Speed detected"
  | detected .full     => "Full Speed detected"
  | detected .low      => "Low Speed detected"
  | detected .auto     => "Speed unknown"
  | lineSe0            => "Line state SE0"
  | chirpJ             => "Line state Chirp J"
  | chirpK             => "Line state Chirp K"
  | chirpSe1           => "Line state Chirp SE1"
  | lowJ               => "Line state LS J"
  | lowK               => "Line state LS K"
  | fullJ              => "Line state FS J"
  | fullK              => "Line state FS K"
  | lineSe1            => "Line state SE1"
  | vbusInvalid        => "VBUS invalid"
  | vbusValid          => "VBUS valid"
  | lowAttach          => "Low Speed device attached"
  | fullAttach         => "Full Speed device attached"
  | reset              => "Bus reset"
  | deviceChirp        => "Device chirp"
  | hostChirp          => "Host chirp"
  | suspend            => "Suspend"
  | resume             => "Resume"
  | keepalive          => "Low Speed keep-alive"

end BusEvent
end UsbRecorder
