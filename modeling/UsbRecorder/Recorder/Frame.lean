import UsbRecorder.Memory.Ring
import UsbRecorder.Recorder.Status
import UsbRecorder.Stream.Record
/-!
# Frame — a recorder, and how it frames records into its ring

Every framed item restarts the time base: the time of an item is the number of whole ticks strictly between the item
before it and itself.  With capture events on, room for one stop record is kept free, so that a stop is never lost for
want of room.
-/
namespace UsbRecorder

/-- Statistics of a recorder. -/
structure Recorder.Counts where
  packets : Nat := 0
  events : Nat := 0
  placeholders : Nat := 0
  overruns : Nat := 0
  babbles : Nat := 0
  dropped : Nat := 0
  deriving DecidableEq, Repr, Inhabited

/-- A record put into the ring, with the tick it stands for. -/
structure Recorder.Framing where
  bytes : List UInt8
  tick : Nat
  deriving DecidableEq, Repr, Inhabited

/-- A recorder of packets and events. -/
structure Recorder where
  ring : Ring
  /-- start and stop records are framed around each capture -/
  captureEvents : Bool
  phase : Recorder.Phase := .stopped
  enabled : Bool := false
  /-- the setting shown in start records -/
  speed : Speed := .auto
  now : Nat := 0
  /-- the tick of the item framed last -/
  base : Nat := 0
  /-- where the header of the packet in progress is written when its length is known -/
  headerAt : Nat := 0
  length : Nat := 0
  time : UInt16 := 0
  /-- events that wait for the packet in progress to end, with their ticks -/
  held : List (BusEvent × Nat) := []
  /-- bytes that the last discard left in the ring: the rest of a record already partly read -/
  retained : Nat := 0
  /-- what the last tick has framed, newest first -/
  framed : List Recorder.Framing := []
  counts : Recorder.Counts := {}
  deriving Inhabited

namespace Recorder

/-- Ticks from an item to the placeholder after it. -/
def span : Nat := Record.maxTime + 1

/-- Bytes kept free for a stop record. -/
def reserveFor (captureEvents : Bool) : Nat := if captureEvents then Record.eventSize else 0

/-- A disabled recorder over an empty ring, which has to have room for the smallest packet. -/
def create (ringSize : Nat) (captureEvents : Bool) : Except Refusal Recorder := do
  let ring ← Ring.create ringSize
  if ringSize < Record.headerSize + 2 + reserveFor captureEvents then throw (.ringTooSmall ringSize)
  return { ring, captureEvents }

def reserve (r : Recorder) : Nat := reserveFor r.captureEvents

/-- The time of an item at a tick, at most the greatest that a record can carry. -/
def gapBefore (r : Recorder) (tick : Nat) : UInt16 := UInt16.ofNat (min (tick - r.base - 1) Record.maxTime)

def forgetHeld (r : Recorder) : Recorder :=
  { r with counts.dropped := r.counts.dropped + r.held.length, held := [] }

/-- Put an event record into the ring and restart the time base. -/
def frame (r : Recorder) (event : BusEvent) (tick : Nat) : Recorder :=
  let bytes := (Record.event (r.gapBefore tick) event.code).toBytes
  { r with ring := r.ring.append bytes, base := tick, framed := ⟨bytes, tick⟩ :: r.framed }

/-- Frame a stop record, for which the reserve may be used. -/
def logStop (r : Recorder) (cause : StopCause) : Recorder :=
  if !r.captureEvents then r
  else if r.ring.fits Record.eventSize then
    { r.frame (.stopped cause) r.now with counts.events := r.counts.events + 1 }
  else { r with counts.dropped := r.counts.dropped + 1 }

/-- Give up the packet in progress and the held events, and stop in a phase. -/
def giveUp (r : Recorder) (phase : Phase) (cause : StopCause) : Recorder :=
  { { r with ring := r.ring.abandon }.forgetHeld with phase }.logStop cause

/-- The ring has no room for what is to be framed. -/
def overflow (r : Recorder) : Recorder :=
  { r with counts.overruns := r.counts.overruns + 1 }.giveUp .overrun .full

/-- The packet in progress is longer than any packet may be. -/
def overlong (r : Recorder) : Recorder :=
  { r with counts.babbles := r.counts.babbles + 1 }.giveUp .babble .error

/-- Frame an event, with the reserve left free. -/
def log (r : Recorder) (event : BusEvent) (tick : Nat) : Recorder :=
  if r.ring.fits (Record.eventSize + r.reserve) then
    let framed := r.frame event tick
    if event = .placeholder then { framed with counts.placeholders := r.counts.placeholders + 1 }
    else { framed with counts.events := r.counts.events + 1 }
  else r.overflow

/-- Frame a placeholder at the last tick that a time can reach. -/
def markTime (r : Recorder) : Recorder := r.log .placeholder (r.base + span)

end Recorder
end UsbRecorder
