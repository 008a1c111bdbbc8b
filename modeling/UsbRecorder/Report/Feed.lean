import UsbRecorder.Refusal
import UsbRecorder.Report.Decoder
/-!
# Feed — reports read from a channel of byte buffers

Buffers may cut records anywhere.  When the sender has gone, a record that was cut off is reported once, as an error.
-/
namespace UsbRecorder

/-- A stream of reports over a channel. -/
structure ReportFeed where
  decoder : Decoder
  /-- buffers sent and not received, oldest first -/
  channel : List (List UInt8) := []
  closed : Bool := false
  deriving Inhabited

namespace ReportFeed

/-- What a read gives. -/
inductive Outcome where
  | report (r : Report)
  | error (e : Refusal)
  | waiting
  | ended
  deriving DecidableEq, Repr

def send (s : ReportFeed) (bytes : List UInt8) : ReportFeed := { s with channel := s.channel ++ [bytes] }

def close (s : ReportFeed) : ReportFeed := { s with closed := true }

/-- Decode, receiving buffers until there is a report or the channel is empty. -/
def receive (d : Decoder) : List (List UInt8) → Except Decoder.Fault (Option Report × Decoder × List (List UInt8))
  | [] => d.next.map fun (r, d) => (r, d, [])
  | buffer :: rest => do
    match ← d.next with
    | (some r, d) => return (some r, d, buffer :: rest)
    | (none, d) => receive (d.push buffer) rest

/-- Wait a while for the next report. -/
def poll (s : ReportFeed) : Except Decoder.Fault (Outcome × ReportFeed) := do
  let (r, decoder, channel) ← receive s.decoder s.channel
  let s := { s with decoder, channel }
  return match r with
    | some r => (.report r, s)
    | none => (if s.closed then .ended else .waiting, s)

/-- Wait for the next report or the end; bytes left over at the end are an error, once. -/
def next (s : ReportFeed) : Except Decoder.Fault (Outcome × ReportFeed) := do
  let (outcome, s) ← s.poll
  match outcome with
  | .ended =>
    let (left, decoder) := s.decoder.discardRest
    return (if left = 0 then .ended else .error (.cutRecord left), { s with decoder })
  | _ => return (outcome, s)

end ReportFeed
end UsbRecorder
