import UsbRecorder.Control.Settings
import UsbRecorder.Crossing.Queue
import UsbRecorder.Overflow.Spill
/-!
# ReportSide — what runs on the reporting clock

Each tick takes at most one byte from the queue, through the overflow store if there is one.  Bytes before the
position that the sender marked belong to a discarded capture and are dropped, all at once where nothing else is held,
else one by one; a record that the reader has begun is delivered to its end first.
-/
namespace UsbRecorder

/-- The reporting side. -/
structure ReportSide where
  store : Option Spill := none
  /-- bytes delivered or dropped; they go in the order in which they were sent -/
  passed : Nat := 0
  /-- bytes before this position belong to a discarded capture -/
  staleBelow : Nat := 0
  /-- the reader has part of a record -/
  inRecord : Bool := false
  /-- bytes dropped for belonging to a discarded capture -/
  discarded : Nat := 0
  deriving Inhabited

namespace ReportSide

def createStore (s : StoreSettings) : Except Refusal Spill :=
  Spill.create { depth := s.words, latency := s.latency, recovery := s.recovery } s.outputDepth s.readThreshold

def create (settings : Settings) : Except Refusal ReportSide :=
  match settings.store with
  | none => .ok {}
  | some s => (createStore s).map fun store => { store := some store }

def stored (r : ReportSide) : Nat := (r.store.map Spill.held).getD 0

/-- The next byte is to be dropped. -/
def skipping (r : ReportSide) : Bool := r.passed < r.staleBelow && !r.inRecord

/-- Clear the store and reset the queue if all that they show is stale. -/
def dropStale (r : ReportSide) (q : Crossing) : ReportSide × Crossing :=
  let visible := r.stored + q.receiverLevel
  if visible = 0 ∨ r.staleBelow - r.passed < visible then (r, q)
  else
    ({ r with
        store := r.store.map fun s => s.clear.2
        passed := r.passed + visible
        discarded := r.discarded + visible },
      if 0 < q.receiverLevel then q.reset.2 else q)

/-- Move the store on, and take a byte where one is wanted. -/
def fetch (r : ReportSide) (q : Crossing) (wanted : Bool) : Option Beat × ReportSide × Crossing :=
  match r.store with
  | none =>
    if wanted then
      let (b, q) := q.take
      (b, r, q)
    else (none, r, q)
  | some s =>
    let (s, q) := s.tick q
    if wanted then
      let (b, s) := s.take
      (b, { r with store := some s }, q)
    else (none, { r with store := some s }, q)

/-- Count a byte as delivered, or drop it. -/
def deliver (r : ReportSide) (skipping : Bool) (b : Beat) : Option Beat × ReportSide :=
  let r := { r with passed := r.passed + 1 }
  if skipping then (none, { r with discarded := r.discarded + 1 })
  else (some b, { r with inRecord := !b.last })

def hear (r : ReportSide) (mark : Nat) : ReportSide := { r with staleBelow := max r.staleBelow mark }

/-- One tick of the reporting clock; `ready` is whether the reader takes a byte.  Stale bytes are dropped whether or
not it does. -/
def tick (r : ReportSide) (q : Crossing) (ready : Bool) : Option Beat × ReportSide × Crossing :=
  let q := q.receiverTick
  let r := r.hear q.mark
  let (r, q) := if r.skipping then r.dropStale q else (r, q)
  let skipping := r.skipping
  match r.fetch q (ready || skipping) with
  | (none, r, q) => (none, r, q)
  | (some b, r, q) => let (b, r) := r.deliver skipping b; (b, r, q)

def storeIsEmpty (r : ReportSide) : Bool := (r.store.map Spill.isEmpty).getD true

def isIdle (r : ReportSide) (q : Crossing) : Bool := q.isEmpty && r.storeIsEmpty

/-- The sender has gone and all that it sent has been read. -/
def isOver (r : ReportSide) (q : Crossing) : Bool := q.isOver && r.storeIsEmpty

end ReportSide
end UsbRecorder
