import UsbRecorder.Bus.Thresholds
import UsbRecorder.Refusal
/-!
# Settings — what is configured, in layers, and what comes of it

A layer leaves open what it does not set; the first layer that sets a value decides it, and the defaults come last.
-/
namespace UsbRecorder

/-- A layer of configuration. -/
structure Layer where
  ringSize : Option Nat := none
  clock : Option UInt32 := none
  speed : Option Speed := none
  captureEvents : Option Bool := none
  queueDepth : Option Nat := none
  store : Option Bool := none
  storeWords : Option Nat := none
  memoryLatency : Option Nat := none
  memoryRecovery : Option Nat := none
  outputDepth : Option Nat := none
  readThreshold : Option Nat := none
  channelDepth : Option Nat := none
  batch : Option Nat := none
  deriving DecidableEq, Repr, Inhabited

/-- How the overflow store is built. -/
structure StoreSettings where
  words : Nat
  latency : Nat
  recovery : Nat
  outputDepth : Nat
  readThreshold : Option Nat
  deriving DecidableEq, Repr, Inhabited

/-- A configuration with nothing left open. -/
structure Settings where
  ringSize : Nat := 65536
  clock : UInt32 := Thresholds.nominalClock
  thresholds : Thresholds := .nominal
  speed : Speed := .auto
  captureEvents : Bool := false
  queueDepth : Nat := 1024
  store : Option StoreSettings := none
  /-- batches that may wait for the reader -/
  channelDepth : Nat := 16
  /-- bytes of a batch -/
  batch : Nat := 512
  deriving DecidableEq, Repr, Inhabited

namespace Layer

/-- What the first layer sets, and where it sets nothing, what the second sets. -/
def orElse (a b : Layer) : Layer where
  ringSize := a.ringSize <|> b.ringSize
  clock := a.clock <|> b.clock
  speed := a.speed <|> b.speed
  captureEvents := a.captureEvents <|> b.captureEvents
  queueDepth := a.queueDepth <|> b.queueDepth
  store := a.store <|> b.store
  storeWords := a.storeWords <|> b.storeWords
  memoryLatency := a.memoryLatency <|> b.memoryLatency
  memoryRecovery := a.memoryRecovery <|> b.memoryRecovery
  outputDepth := a.outputDepth <|> b.outputDepth
  readThreshold := a.readThreshold <|> b.readThreshold
  channelDepth := a.channelDepth <|> b.channelDepth
  batch := a.batch <|> b.batch

/-- The store that a layer asks for, with defaults for what it leaves open; the output buffer holds two words at
least. -/
def storeSettings (l : Layer) : Option StoreSettings :=
  if l.store.getD false then
    some {
      words := l.storeWords.getD (4 * 1024 * 1024)
      latency := l.memoryLatency.getD 7
      recovery := l.memoryRecovery.getD 3
      outputDepth := max (l.outputDepth.getD 2) 2
      readThreshold := l.readThreshold }
  else none

/-- The settings of a layer, with defaults for what it leaves open. -/
def settings (l : Layer) : Except Refusal Settings := do
  let defaults : Settings := {}
  let clock := l.clock.getD defaults.clock
  let thresholds ← Thresholds.ofClock clock
  return {
    ringSize := l.ringSize.getD defaults.ringSize
    clock, thresholds
    speed := l.speed.getD defaults.speed
    captureEvents := l.captureEvents.getD defaults.captureEvents
    queueDepth := l.queueDepth.getD defaults.queueDepth
    store := l.storeSettings
    channelDepth := l.channelDepth.getD defaults.channelDepth
    batch := l.batch.getD defaults.batch }

end Layer

def StoreSettings.check (s : StoreSettings) : Except Refusal Unit := do
  if s.words < 2 then throw .storeTooSmall
  match s.readThreshold with
  | some t => if t = 0 ∨ s.outputDepth ≤ t then throw (.thresholdSetting t (s.outputDepth - 1))
  | none => pure ()

/-- Whether a recorder can be configured so; the first fault found is the one reported. -/
def Settings.check (s : Settings) : Except Refusal Unit := do
  if ¬ s.ringSize.isPowerOfTwo then throw (.ringSize s.ringSize)
  if ¬ (s.queueDepth.isPowerOfTwo ∧ 2 ≤ s.queueDepth) then throw (.queueDepth s.queueDepth)
  match s.store with
  | some store => store.check
  | none => pure ()
  if s.channelDepth = 0 ∨ s.batch = 0 then throw .reportSizes

def Settings.resolve (layers : List Layer) : Except Refusal Settings := do
  let settings ← (layers.foldl Layer.orElse {}).settings
  settings.check
  return settings

end UsbRecorder
