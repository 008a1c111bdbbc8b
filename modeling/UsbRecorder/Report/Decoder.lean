import UsbRecorder.Bus.Thresholds
import UsbRecorder.Stream.Record
/-!
# Decoder — records read back as packets and events at a time in nanoseconds

The time of a record is the sum of the times of all records up to it, those that are not reported included, in
nanoseconds rounded down.
-/
namespace UsbRecorder

/-- A packet or an event with its time in nanoseconds. -/
inductive Report where
  | packet (ns : Nat) (payload : List UInt8)
  | event (ns : Nat) (event : BusEvent)
  deriving DecidableEq, Repr, Inhabited

namespace Report

def ns : Report → Nat
  | packet ns _ => ns
  | event ns _ => ns

/-- Nanoseconds of a number of ticks of the nominal clock: three ticks take fifty. -/
def nominalNs (ticks : Nat) : Nat :=
  ticks / 3 * 50 + (if ticks % 3 = 0 then 0 else if ticks % 3 = 1 then 16 else 33)

/-- Nanoseconds of a number of ticks of a clock, as a number of 64 bits. -/
def nsOf (clock : UInt32) (ticks : Nat) : Nat :=
  if clock = Thresholds.nominalClock then nominalNs ticks % UInt64.size
  else ticks * 1000000000 / clock.toNat % UInt64.size

/-- The report of a record at a time, if it is one that is reported. -/
def ofRecord? (ns : Nat) : Record → Option Report
  | .packet _ payload => some (packet ns payload)
  | .event _ code => (BusEvent.reportable? code).map (event ns)

end Report

/-- A decoder of the byte stream. -/
structure Decoder where
  clock : UInt32
  buffer : List UInt8 := []
  /-- ticks up to the last record decoded, a count without bound where a counter of 64 bits would wrap; it takes more
  than 2^48 records to get there, and with their time within 64 bits of nanoseconds a clock above 1 GHz -/
  ticks : Nat := 0
  deriving DecidableEq, Repr, Inhabited

namespace Decoder

/-- What keeps a record from being decoded. -/
inductive Fault where
  /-- the times of a clock that does not run are not defined -/
  | stoppedClock
  deriving DecidableEq, Repr

def push (d : Decoder) (bytes : List UInt8) : Decoder := { d with buffer := d.buffer ++ bytes }

def pending (d : Decoder) : Nat := d.buffer.length

/-- Drop the bytes not decoded; the answer is how many they were. -/
def discardRest (d : Decoder) : Nat × Decoder := (d.pending, { d with buffer := [] })

/-- The first record of the buffer, its time, and the decoder after it. -/
def record? (d : Decoder) : Option (Nat × Record × Decoder) :=
  (Record.decode? d.buffer).map fun (r, rest) =>
    let ticks := d.ticks + r.time.toNat
    (Report.nsOf d.clock ticks, r, { d with buffer := rest, ticks })

theorem length_lt_of_record? {d d' : Decoder} {ns : Nat} {r : Record} (h : d.record? = some (ns, r, d')) :
    d'.buffer.length < d.buffer.length := by
  unfold record? at h
  cases hd : Record.decode? d.buffer with
  | none => simp [hd] at h
  | some p =>
    simp only [hd, Option.map_some, Option.some.injEq, Prod.mk.injEq] at h
    obtain ⟨-, -, rfl⟩ := h
    exact Record.length_lt_of_decode? hd

/-- The next report of the buffer, records that are not reported skipped. -/
def advance (d : Decoder) : Option Report × Decoder :=
  match _h : d.record? with
  | none => (none, d)
  | some (ns, r, d') =>
    match Report.ofRecord? ns r with
    | some report => (some report, d')
    | none => d'.advance
termination_by d.buffer.length
decreasing_by exact length_lt_of_record? _h

/-- The next report, if the buffer holds one; a clock that does not run is found out at the first complete record. -/
def next (d : Decoder) : Except Fault (Option Report × Decoder) :=
  if d.clock = 0 ∧ d.record?.isSome then .error .stoppedClock else .ok d.advance

/-- Every report of the buffer. -/
def drain (d : Decoder) : List Report × Decoder :=
  match _h : d.record? with
  | none => ([], d)
  | some (ns, r, d') =>
    let (reports, last) := d'.drain
    ((Report.ofRecord? ns r).toList ++ reports, last)
termination_by d.buffer.length
decreasing_by exact length_lt_of_record? _h

/-- Every report of the buffer, unless the clock does not run. -/
def all (d : Decoder) : Except Fault (List Report × Decoder) :=
  if d.clock = 0 ∧ d.record?.isSome then .error .stoppedClock else .ok d.drain

end Decoder
end UsbRecorder
