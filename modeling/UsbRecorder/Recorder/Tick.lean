import UsbRecorder.Bus.Sample
import UsbRecorder.Recorder.Frame
/-!
# Tick — what a recorder does on each tick

A packet is captured while reception goes on, and becomes a record when it ends.  Events that come during a packet are
held and framed after it; placeholders keep the times of all items in range.
-/
namespace UsbRecorder
namespace Recorder

/-! ## Events -/

/-- Events held beyond this number are dropped. -/
def maxHeld : Nat := 64

/-- Take an event in, to be framed after the packet in progress; a recorder that is not capturing drops it. -/
def defer (r : Recorder) (event : BusEvent) : Recorder :=
  if (r.phase = .waiting ∨ r.phase = .capturing) ∧ r.held.length < maxHeld then
    { r with held := r.held ++ [(event, r.now)] }
  else { r with counts.dropped := r.counts.dropped + 1 }

/-- Frame placeholders, so many as long as there is room. -/
def bridge (r : Recorder) : Nat → Recorder
  | 0 => r
  | n + 1 => if r.phase = .waiting then r.markTime.bridge n else r

/-- The placeholders needed before an item at a tick, to bring it in range. -/
def gaps (r : Recorder) (tick : Nat) : Nat := (tick - r.base - 1) / span

/-- Frame the held events, at most `n` of them; an overrun on the way drops those that are left. -/
def flush (r : Recorder) : Nat → Recorder
  | 0 => r
  | n + 1 =>
    match r.phase, r.held with
    | .waiting, (_, tick) :: _ =>
      let r := r.bridge (r.gaps tick)
      match r.held with
      | (event, tick) :: rest => ({ r with held := rest }.log event tick).flush n
      | [] => r
    | _, _ => r

def flushHeld (r : Recorder) : Recorder := r.flush r.held.length

/-- Frame a placeholder where the time since the last item has reached its limit. -/
def keepTime (r : Recorder) : Recorder :=
  if r.phase = .waiting ∧ r.base + span ≤ r.now then r.markTime else r

/-- Frame what is due between packets. -/
def catchUp (r : Recorder) : Recorder :=
  if r.phase = .waiting then r.flushHeld.keepTime else r

/-! ## Packets -/

/-- One byte more of the packet in progress; it needs room for itself, for its padding were it the last, and for the
reserve. -/
def addByte (r : Recorder) (byte : UInt8) : Recorder :=
  if r.length = Record.maxPacket then r.overlong
  else if r.ring.fits (1 + (r.length + 1) % 2 + r.reserve) then
    { r with ring := r.ring.push byte, length := r.length + 1 }
  else r.overflow

/-- Begin a packet, with its header left blank. -/
def openPacket (r : Recorder) (s : Sample) : Recorder :=
  if r.ring.fits (Record.headerSize + r.reserve) then
    let r := { r with
      time := r.gapBefore r.now
      base := r.now
      headerAt := r.ring.writeAt
      ring := r.ring.pushAll (List.replicate Record.headerSize 0)
      length := 0
      phase := .capturing }
    if s.valid then r.addByte s.byte else r
  else r.overflow

/-- End the packet in progress: pad it, write its header, and make it a record. -/
def closePacket (r : Recorder) : Recorder :=
  let padded := r.ring.pushAll (Record.padding r.length)
  let ring := padded.fill r.headerAt (Record.header (UInt16.ofNat r.length) r.time)
  { r with
    ring := ring.commit
    framed := ⟨ring.tailBytes, r.base⟩ :: r.framed
    counts.packets := r.counts.packets + 1
    phase := .waiting }

/-! ## Captures -/

/-- Drop what the ring holds, but for the rest of a record that the reader has begun. -/
def discard (r : Recorder) : Recorder :=
  let ring := r.ring.discard
  { r with ring, retained := ring.committed }.forgetHeld

def beginCapture (r : Recorder) : Recorder :=
  let r := { r with base := r.now, phase := .waiting }
  if r.captureEvents then r.log (.started r.speed) r.now else r

/-- End a capture; what it has framed can still be read. -/
def endCapture (r : Recorder) : Recorder := { r.logStop .requested with phase := .stopped }

/-- The part of a tick that the phase and the sample decide; the answer is whether buffered data was dropped. -/
def act (r : Recorder) (s : Sample) : Bool × Recorder :=
  match r.phase with
  | .stopped =>
    -- never replay what an earlier capture left behind
    if r.enabled then (true, if s.active then r.discard else r.discard.beginCapture) else (false, r)
  | .waiting => (false, if !r.enabled then r.endCapture else if s.active then r.openPacket s else r)
  | .capturing => (false, if !s.active then r.closePacket else if s.valid then r.addByte s.byte else r)
  | .overrun | .babble => if r.enabled then (false, r) else (true, { r.discard with phase := .stopped })

/-- One tick, with the event classified on it, if any. -/
def tick (r : Recorder) (s : Sample) (event : Option BusEvent) : Status × Recorder :=
  let (discarding, r) := { r with framed := [] }.act s
  let r := match event with
    | some e => r.defer e
    | none => r
  let r := r.catchUp
  (.ofPhase r.phase discarding, { r with now := r.now + 1 })

def take (r : Recorder) : Option Beat × Recorder :=
  let (b, ring) := r.ring.take
  (b, { r with ring })

instance : BeatSource Recorder := ⟨fun r => r.ring.offered, Recorder.take⟩

end Recorder
end UsbRecorder
