import UsbRecorder.Pipeline.Basic
/-!
# Dispatcher — the worker that reads a pipeline and sends its bytes on in batches

While a batch waits for room in the channel the reader is not ready, which backs the pipeline up behind it.
-/
namespace UsbRecorder

/-- The reading worker. -/
structure Dispatcher where
  /-- bytes of a full batch -/
  batchSize : Nat
  /-- bytes read and not yet sent, newest first -/
  batch : List UInt8 := []
  finished : Bool := false
  deriving DecidableEq, Repr, Inhabited

namespace Dispatcher

/-- The longest batch that memory can hold: an object's size is a signed number of 64 bits. -/
def maxBatch : Nat := UInt64.size / 2 - 1

/-- A worker that has read nothing yet; one that would need more memory than there can be breaks off instead. -/
def create (batchSize : Nat) : Except String Dispatcher :=
  if batchSize ≤ maxBatch then .ok { batchSize } else .error "capacity overflow"

def isReady (d : Dispatcher) : Bool := d.batch.length < d.batchSize

/-- One turn; `room` is whether the channel would take a buffer.  The answer is the buffer sent, if any.  A batch is
sent when it is full, when nothing more has come, and when nothing more will come. -/
def turn (d : Dispatcher) (p : Pipeline) (room : Bool) : Option (List UInt8) × Dispatcher × Pipeline :=
  let ready := d.isReady
  let (b, p) := p.report ready
  let batch := (b.map (·.payload)).toList ++ d.batch
  let ended := p.reports.isOver p.queue
  if !batch.isEmpty && (!ready || b.isNone || ended) then
    if room then (some batch.reverse, { d with batch := [] }, p) else (none, { d with batch }, p)
  else (none, { d with batch, finished := ended }, p)

end Dispatcher
end UsbRecorder
