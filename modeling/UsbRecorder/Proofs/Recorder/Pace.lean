import Mathlib.Data.List.Infix
import UsbRecorder.Proofs.Recorder.Room
/-!
# Pace — what a recorder records does not depend on how fast it is read

`sameCapture_of_create`: two recorders that are built and used alike, but read at different times, show the same and
frame the same records on every tick, as long as neither ring runs full.  A ring is asked for room and for nothing
else, and an answer that matters is a yes in both.
-/
namespace UsbRecorder
namespace Recorder

/-- Two recorders that differ in what their rings hold, and in nothing else that a later tick shows. -/
def Alike (r q : Recorder) : Prop := ∃ ring headerAt retained, q = { r with ring, headerAt, retained }

variable {r q : Recorder} {recs recs' : List (List UInt8)} {payload : List UInt8}

namespace Alike

theorem refl (r : Recorder) : Alike r r := ⟨r.ring, r.headerAt, r.retained, rfl⟩

theorem phase (h : Alike r q) : q.phase = r.phase := by
  obtain ⟨_, _, _, rfl⟩ := h
  rfl

theorem held (h : Alike r q) : q.held = r.held := by
  obtain ⟨_, _, _, rfl⟩ := h
  rfl

theorem enabled (h : Alike r q) : q.enabled = r.enabled := by
  obtain ⟨_, _, _, rfl⟩ := h
  rfl

/-! ## Between packets -/

/-- A record that both rings have room for. -/
theorem frame (h : Alike r q) (event : BusEvent) (tick : Nat) : Alike (r.frame event tick) (q.frame event tick) := by
  obtain ⟨ring, headerAt, retained, rfl⟩ := h
  exact ⟨_, _, _, rfl⟩

theorem log (h : Alike r q) (event : BusEvent) (tick : Nat) (hr : (r.log event tick).phase ≠ .overrun)
    (hq : (q.log event tick).phase ≠ .overrun) : Alike (r.log event tick) (q.log event tick) := by
  have hroom : r.ring.fits (Record.eventSize + r.reserve) = true := by
    by_contra hfull
    exact hr (by rw [Recorder.log, if_neg hfull, phase_overflow])
  have hroom' : q.ring.fits (Record.eventSize + q.reserve) = true := by
    by_contra hfull
    exact hq (by rw [Recorder.log, if_neg hfull, phase_overflow])
  obtain ⟨ring, headerAt, retained, rfl⟩ := h
  unfold Recorder.log
  rw [if_pos hroom, if_pos hroom']
  dsimp only
  split
  · exact ⟨_, _, _, rfl⟩
  · exact ⟨_, _, _, rfl⟩

theorem markTime (h : Alike r q) (hr : r.markTime.phase ≠ .overrun) (hq : q.markTime.phase ≠ .overrun) :
    Alike r.markTime q.markTime := by
  have hbase : q.base = r.base := by
    obtain ⟨_, _, _, rfl⟩ := h
    rfl
  unfold Recorder.markTime at hr hq ⊢
  rw [hbase] at hq ⊢
  exact h.log _ _ hr hq

end Alike

theorem LogsOn.ne_overrun {a b : Recorder} (h : LogsOn a b) (hover : b.phase ≠ .overrun) : a.phase ≠ .overrun := by
  rcases h.2 with hphase | hphase
  · rwa [← hphase]
  · exact absurd hphase hover

theorem logsOn_flush_bridge {event : BusEvent} {tick : Nat} {rest : List (BusEvent × Nat)} (hphase : r.phase = .waiting)
    (hheld : r.held = (event, tick) :: rest) (n : Nat) : LogsOn (r.bridge (r.gaps tick)) (r.flush (n + 1)) := by
  cases hnext : (r.bridge (r.gaps tick)).held with
  | nil =>
    rw [flush_of_bridge_nil hphase hheld hnext]
    exact .refl _
  | cons x rest' =>
    rw [flush_of_held hphase hheld hnext]
    have hbook := (Logs.refl (r.bridge (r.gaps tick))).bookkeeping (r.bridge (r.gaps tick)).phase
      (r.bridge (r.gaps tick)).base rest' (r.bridge (r.gaps tick)).counts
    exact (LogsOn.trans ⟨hbook, .inl rfl⟩ (logsOn_log _ x.1 x.2)).trans (logsOn_flush _ n)

namespace Alike

theorem bridge (n : Nat) (h : Alike r q) (hr : (r.bridge n).phase ≠ .overrun) (hq : (q.bridge n).phase ≠ .overrun) :
    Alike (r.bridge n) (q.bridge n) := by
  induction n generalizing r q with
  | zero => exact h
  | succ n ih =>
    unfold Recorder.bridge at hr hq ⊢
    rw [h.phase] at hq ⊢
    split_ifs at hr hq ⊢
    · exact ih (h.markTime ((logsOn_bridge _ n).ne_overrun hr) ((logsOn_bridge _ n).ne_overrun hq)) hr hq
    · exact h

theorem flush (n : Nat) (h : Alike r q) (hr : (r.flush n).phase ≠ .overrun) (hq : (q.flush n).phase ≠ .overrun) :
    Alike (r.flush n) (q.flush n) := by
  induction n generalizing r q with
  | zero => exact h
  | succ n ih =>
    by_cases hphase : r.phase = .waiting
    · have hphase' : q.phase = .waiting := h.phase.trans hphase
      cases hheld : r.held with
      | nil =>
        have hheld' : q.held = [] := h.held.trans hheld
        rw [Recorder.flush, hphase, hheld, Recorder.flush, hphase', hheld']
        exact h
      | cons x rest =>
        obtain ⟨event, tick⟩ := x
        have hheld' : q.held = (event, tick) :: rest := h.held.trans hheld
        have hgaps : q.gaps tick = r.gaps tick := by
          obtain ⟨_, _, _, rfl⟩ := h
          rfl
        have hbridge : Alike (r.bridge (r.gaps tick)) (q.bridge (q.gaps tick)) := by
          have hr' := (logsOn_flush_bridge hphase hheld n).ne_overrun hr
          have hq' := (logsOn_flush_bridge hphase' hheld' n).ne_overrun hq
          rw [hgaps] at hq' ⊢
          exact h.bridge _ hr' hq'
        cases hnext : (r.bridge (r.gaps tick)).held with
        | nil =>
          rw [flush_of_bridge_nil hphase hheld hnext, flush_of_bridge_nil hphase' hheld' (hbridge.held.trans hnext)]
          exact hbridge
        | cons y rest' =>
          obtain ⟨event', tick'⟩ := y
          rw [flush_of_held hphase hheld hnext] at hr ⊢
          rw [flush_of_held hphase' hheld' (hbridge.held.trans hnext)] at hq ⊢
          have hafter : Alike { r.bridge (r.gaps tick) with held := rest' }
              { q.bridge (q.gaps tick) with held := rest' } := by
            obtain ⟨ring, headerAt, retained, heq⟩ := hbridge
            rw [heq]
            exact ⟨_, _, _, rfl⟩
          exact ih (hafter.log _ _ ((logsOn_flush _ n).ne_overrun hr) ((logsOn_flush _ n).ne_overrun hq)) hr hq
    · have hphase' : q.phase ≠ .waiting := h.phase ▸ hphase
      rw [flush_of_ne_waiting hphase, flush_of_ne_waiting hphase']
      exact h

theorem keepTime (h : Alike r q) (hr : r.keepTime.phase ≠ .overrun) (hq : q.keepTime.phase ≠ .overrun) :
    Alike r.keepTime q.keepTime := by
  have hdue : (q.phase = .waiting ∧ q.base + span ≤ q.now) ↔ (r.phase = .waiting ∧ r.base + span ≤ r.now) := by
    obtain ⟨_, _, _, rfl⟩ := h
    rfl
  unfold Recorder.keepTime at hr hq ⊢
  simp only [hdue] at hq ⊢
  split_ifs at hr hq ⊢
  · exact h.markTime hr hq
  · exact h

theorem catchUp (h : Alike r q) (hr : r.catchUp.phase ≠ .overrun) (hq : q.catchUp.phase ≠ .overrun) :
    Alike r.catchUp q.catchUp := by
  have hcount : q.flushHeld = q.flush r.held.length := by rw [flushHeld, h.held]
  unfold Recorder.catchUp at hr hq ⊢
  rw [h.phase, hcount] at hq ⊢
  split_ifs at hr hq ⊢
  · exact (h.flush _ ((logsOn_keepTime _).ne_overrun hr) ((logsOn_keepTime _).ne_overrun hq)).keepTime hr hq
  · exact h

theorem takeIn (h : Alike r q) (event : Option BusEvent) : Alike (r.takeIn event) (q.takeIn event) := by
  obtain ⟨ring, headerAt, retained, rfl⟩ := h
  cases event with
  | none => exact ⟨_, _, _, rfl⟩
  | some e =>
    unfold Recorder.takeIn defer
    dsimp only
    split
    · exact ⟨_, _, _, rfl⟩
    · exact ⟨_, _, _, rfl⟩

/-! ## The end of a capture -/

/-- A stop record that both rings have room for. -/
theorem logStop (h : Alike r q) (hr : r.captureEvents = true → r.ring.fits Record.eventSize = true)
    (hq : q.captureEvents = true → q.ring.fits Record.eventSize = true) (cause : StopCause) :
    Alike (r.logStop cause) (q.logStop cause) := by
  obtain ⟨ring, headerAt, retained, rfl⟩ := h
  unfold Recorder.logStop
  by_cases hon : r.captureEvents = true
  · rw [if_neg (by simp [hon]), if_pos (hr hon), if_neg (by simp [hon]), if_pos (hq hon)]
    exact ⟨_, _, _, rfl⟩
  · rw [if_pos (by simp [hon]), if_pos (by simp [hon])]
    exact ⟨_, _, _, rfl⟩

theorem overlong (h : Alike r q) (hr : r.Spare) (hq : q.Spare) : Alike r.overlong q.overlong := by
  have hgiven : Alike
      { r.withdrawn.forgetHeld with phase := .babble, counts.babbles := r.counts.babbles + 1 }
      { q.withdrawn.forgetHeld with phase := .babble, counts.babbles := q.counts.babbles + 1 } := by
    obtain ⟨ring, headerAt, retained, rfl⟩ := h
    exact ⟨_, _, _, rfl⟩
  exact hgiven.logStop (fun hon => fits_of_spare (r := r.withdrawn) hon hr rfl)
    (fun hon => fits_of_spare (r := q.withdrawn) hon hq rfl) .error

theorem endCapture (h : Alike r q) (hphase : r.phase = .waiting) (hr : r.Roomy) (hq : q.Roomy) :
    Alike r.endCapture q.endCapture := by
  obtain ⟨hpending, hspare⟩ := hr.waiting hphase
  obtain ⟨hpending', hspare'⟩ := hq.waiting (h.phase.trans hphase)
  obtain ⟨_, _, _, hstop⟩ := h.logStop (fun hon => fits_of_spare hon hspare hpending)
    (fun hon => fits_of_spare hon hspare' hpending') .requested
  unfold Recorder.endCapture
  rw [hstop]
  exact ⟨_, _, _, rfl⟩

/-! ## Packets -/

theorem addByte (h : Alike r q) (hr : r.Spare) (hq : q.Spare) (byte : UInt8)
    (hover : (r.addByte byte).phase ≠ .overrun) (hover' : (q.addByte byte).phase ≠ .overrun) :
    Alike (r.addByte byte) (q.addByte byte) := by
  have hlength : q.length = r.length := by
    obtain ⟨_, _, _, rfl⟩ := h
    rfl
  unfold Recorder.addByte at hover hover' ⊢
  rw [hlength] at hover' ⊢
  split_ifs at hover hover' ⊢
  · exact h.overlong hr hq
  · obtain ⟨ring, headerAt, retained, rfl⟩ := h
    exact ⟨_, _, _, rfl⟩
  · exact absurd (phase_overflow q) hover'
  · exact absurd (phase_overflow r) hover
  · exact absurd (phase_overflow r) hover

theorem openPacket (h : Alike r q) (hphase : r.phase = .waiting) (hr : r.Roomy) (hq : q.Roomy)
    (hholds : r.ring.Holds recs []) (hholds' : q.ring.Holds recs' []) (s : Sample)
    (hover : (r.openPacket s).phase ≠ .overrun) (hover' : (q.openPacket s).phase ≠ .overrun) :
    Alike (r.openPacket s) (q.openPacket s) := by
  have hroom : r.HasRoom 0 := by
    by_contra hfull
    exact hover (by rw [openPacket_of_not_hasRoom hholds hfull, phase_overflow])
  have hroom' : q.HasRoom 0 := by
    by_contra hfull
    exact hover' (by rw [openPacket_of_not_hasRoom hholds' hfull, phase_overflow])
  have hopened : Alike r.opened q.opened := by
    obtain ⟨ring, headerAt, retained, rfl⟩ := h
    exact ⟨_, _, _, rfl⟩
  have hspare := (hr.opened hphase hroom).spare (holds_opened hholds hroom) (.inr rfl)
  have hspare' := (hq.opened (h.phase.trans hphase) hroom').spare (holds_opened hholds' hroom') (.inr rfl)
  rw [openPacket_of_hasRoom hholds hroom] at hover ⊢
  rw [openPacket_of_hasRoom hholds' hroom'] at hover' ⊢
  split_ifs at hover hover' ⊢
  · exact hopened.addByte hspare hspare' s.byte hover hover'
  · exact hopened

/-- **A packet becomes the same record in both.** -/
theorem closePacket (h : Alike r q) (hphase : r.phase = .capturing) (hr : r.Holds recs payload)
    (hq : q.Holds recs' payload) : Alike r.closePacket q.closePacket := by
  have hframed := (holds_closePacket hr hphase).2
  have hframed' := (holds_closePacket hq (h.phase.trans hphase)).2
  obtain ⟨ring, headerAt, retained, rfl⟩ := h
  have hsame : closePacket { r with ring, headerAt, retained } =
      { r.closePacket with
        ring := (closePacket { r with ring, headerAt, retained }).ring, headerAt, retained
        framed := (closePacket { r with ring, headerAt, retained }).framed } := rfl
  have hpacket : packetFraming { r with ring, headerAt, retained } payload = r.packetFraming payload := rfl
  rw [hsame, hframed', hpacket, ← hframed]
  exact ⟨_, _, _, rfl⟩

/-! ## A tick -/

theorem discard (h : Alike r q) : Alike r.discard q.discard := by
  obtain ⟨ring, headerAt, retained, rfl⟩ := h
  exact ⟨_, _, _, rfl⟩

theorem beginCapture (h : Alike r q) (hover : r.beginCapture.phase ≠ .overrun)
    (hover' : q.beginCapture.phase ≠ .overrun) : Alike r.beginCapture q.beginCapture := by
  obtain ⟨ring, headerAt, retained, rfl⟩ := h
  unfold Recorder.beginCapture at hover hover' ⊢
  dsimp only at hover hover' ⊢
  have hbegun : Alike { r with base := r.now, phase := .waiting }
      { r with ring, headerAt, retained, base := r.now, phase := .waiting } := ⟨_, _, _, rfl⟩
  split_ifs at hover hover' ⊢
  · exact hbegun.log _ _ hover hover'
  · exact hbegun

theorem act_ended (h : Alike r q) (hphase : r.phase = .overrun ∨ r.phase = .babble) (s : Sample) :
    (q.act s).1 = (r.act s).1 ∧ Alike (r.act s).2 (q.act s).2 := by
  rw [Recorder.act_ended hphase, Recorder.act_ended (by rwa [h.phase]), h.enabled]
  split_ifs
  · exact ⟨rfl, h⟩
  · obtain ⟨ring, headerAt, retained, hdiscard⟩ := h.discard
    rw [hdiscard]
    exact ⟨rfl, _, _, _, rfl⟩

theorem act (h : Alike r q) (hr : r.Roomy) (hq : q.Roomy) (hholds : r.Holds recs payload)
    (hholds' : q.Holds recs' payload) (s : Sample) (hover : (r.act s).2.phase ≠ .overrun)
    (hover' : (q.act s).2.phase ≠ .overrun) : (q.act s).1 = (r.act s).1 ∧ Alike (r.act s).2 (q.act s).2 := by
  cases hphase : r.phase with
  | stopped =>
    rw [act_stopped hphase] at hover ⊢
    rw [act_stopped (h.phase.trans hphase), h.enabled] at hover' ⊢
    split_ifs at hover hover' ⊢
    · exact ⟨rfl, h.discard⟩
    · exact ⟨rfl, h.discard.beginCapture hover hover'⟩
    · exact ⟨rfl, h⟩
  | waiting =>
    rw [act_waiting hphase] at hover ⊢
    rw [act_waiting (h.phase.trans hphase), h.enabled] at hover' ⊢
    split_ifs at hover hover' ⊢
    · exact ⟨rfl, h.endCapture hphase hr hq⟩
    · have hne : r.phase ≠ .capturing := by rw [hphase]; decide
      exact ⟨rfl, h.openPacket hphase hr hq (hholds.between hne) (hholds'.between (h.phase ▸ hne)) s hover hover'⟩
    · exact ⟨rfl, h⟩
  | capturing =>
    have hspare := hr.spare hholds (.inr hphase)
    have hspare' := hq.spare hholds' (.inr (h.phase.trans hphase))
    rw [act_capturing hphase] at hover ⊢
    rw [act_capturing (h.phase.trans hphase)] at hover' ⊢
    split_ifs at hover hover' ⊢
    · exact ⟨rfl, h.closePacket hphase hholds hholds'⟩
    · exact ⟨rfl, h.addByte hspare hspare' s.byte hover hover'⟩
    · exact ⟨rfl, h⟩
  | overrun => exact h.act_ended (.inl hphase) s
  | babble => exact h.act_ended (.inr hphase) s

theorem status_tick (r : Recorder) (s : Sample) (event : Option BusEvent) :
    (r.tick s event).1 = .ofPhase (r.tick s event).2.phase ({ r with framed := [] }.act s).1 := rfl

/-- **A tick shows the same in both, and frames the same.** -/
theorem tick (h : Alike r q) (hr : r.Roomy) (hq : q.Roomy) (hholds : r.Holds recs payload)
    (hholds' : q.Holds recs' payload) (s : Sample) (event : Option BusEvent)
    (hover : (r.tick s event).2.phase ≠ .overrun) (hover' : (q.tick s event).2.phase ≠ .overrun) :
    (q.tick s event).1 = (r.tick s event).1 ∧ Alike (r.tick s event).2 (q.tick s event).2 := by
  have hstart : Alike { r with framed := [] } { q with framed := [] } := by
    obtain ⟨ring, headerAt, retained, rfl⟩ := h
    exact ⟨_, _, _, rfl⟩
  have hturned : ∀ {a : Recorder}, (a.finish event).phase ≠ .overrun → (a.takeIn event).phase ≠ .overrun := by
    intro a hover
    exact (logsOn_catchUp (a.takeIn event)).ne_overrun hover
  obtain ⟨hdiscarding, hact⟩ := hstart.act hr.fresh hq.fresh hholds.fresh hholds'.fresh s
    (phase_takeIn _ event ▸ hturned hover) (phase_takeIn _ event ▸ hturned hover')
  have hfinish := (hact.takeIn event).catchUp hover hover'
  obtain ⟨ring, headerAt, retained, hsame⟩ := hfinish
  have hticked : (q.tick s event).2 = { (r.tick s event).2 with ring, headerAt, retained } :=
    congrArg (fun a : Recorder => { a with now := a.now + 1 }) hsame
  refine ⟨?_, _, _, _, hticked⟩
  rw [status_tick, status_tick, hticked, hdiscarding]

end Alike

/-! ## Two runs -/

/-- What a recorder shows of a tick, with the records that it has framed on it. -/
structure Showing where
  status : Status
  phase : Phase
  counts : Counts
  framed : List Framing
  deriving DecidableEq, Repr

def Showing.ofTick (ticked : Status × Recorder) : Showing :=
  ⟨ticked.1, ticked.2.phase, ticked.2.counts, ticked.2.framed.reverse⟩

/-- What the ticks among actions show, in order. -/
def shown : Recorder → List Action → List Showing
  | _, [] => []
  | r, .tick s event :: rest => .ofTick (r.tick s event) :: (r.tick s event).2.shown rest
  | r, a :: rest => (r.step a).shown rest

def Action.isTake : Action → Bool
  | .take => true
  | _ => false

/-- Actions without those of the reader. -/
def calls (actions : List Action) : List Action := actions.filter fun a => !a.isTake

def NeverOverruns (r : Recorder) (actions : List Action) : Prop :=
  ∀ before, before <+: actions → (r.after before).phase ≠ .overrun

instance (r : Recorder) (actions : List Action) : Decidable (r.NeverOverruns actions) :=
  decidable_of_iff (∀ before ∈ actions.inits, (r.after before).phase ≠ .overrun) (by simp only [List.mem_inits]; rfl)

theorem shown_append (r : Recorder) (a b : List Action) : r.shown (a ++ b) = r.shown a ++ (r.after a).shown b := by
  induction a generalizing r with
  | nil => rfl
  | cons x a ih => cases x <;> simp [shown, after, step, ih]

theorem framings_eq_flatMap (r : Recorder) (actions : List Action) :
    r.framings actions = (r.shown actions).flatMap Showing.framed := by
  induction actions generalizing r with
  | nil => rfl
  | cons x actions ih => cases x <;> simp [shown, framings, Showing.ofTick, ih]

theorem sampled_calls (actions : List Action) : sampled (calls actions) = sampled actions := by
  unfold sampled calls
  rw [List.filterMap_filter]
  refine List.filterMap_congr fun a _ => ?_
  cases a <;> rfl

namespace Alike

theorem take (h : Alike r q) : Alike r.take.2 q ∧ Alike r q.take.2 := by
  obtain ⟨ring, headerAt, retained, rfl⟩ := h
  exact ⟨⟨ring, headerAt, retained, rfl⟩, ⟨_, headerAt, retained, rfl⟩⟩

/-- The reader's part of a run leaves the other recorder alike, and shows nothing. -/
theorem after_takes (h : Alike r q) {actions : List Action} (htakes : ∀ a ∈ actions, a.isTake = true) :
    Alike r (q.after actions) ∧ q.shown actions = [] := by
  induction actions generalizing q with
  | nil => exact ⟨h, rfl⟩
  | cons a actions ih =>
    obtain ⟨ha, hrest⟩ := List.forall_mem_cons.1 htakes
    cases a with
    | take => exact ih h.take.2 hrest
    | _ => cases ha

/-- **A call makes the same of both.** -/
theorem step (h : Alike r q) (hr : r.Roomy) (hq : q.Roomy) (hholds : r.Holds recs payload)
    (hholds' : q.Holds recs' payload) {a : Action} (hcall : a.isTake = false)
    (hover : (r.step a).phase ≠ .overrun) (hover' : (q.step a).phase ≠ .overrun) :
    Alike (r.step a) (q.step a) ∧ r.shown [a] = q.shown [a] := by
  cases a with
  | tick s event =>
    obtain ⟨hstatus, halike⟩ := h.tick hr hq hholds hholds' s event hover hover'
    refine ⟨halike, ?_⟩
    obtain ⟨ring, headerAt, retained, hsame⟩ := halike
    show [Showing.ofTick (r.tick s event)] = [Showing.ofTick (q.tick s event)]
    rw [Showing.ofTick, Showing.ofTick, hstatus, hsame]
  | take => cases hcall
  | enable on =>
    obtain ⟨ring, headerAt, retained, rfl⟩ := h
    exact ⟨⟨_, _, _, rfl⟩, rfl⟩
  | setSpeed speed =>
    obtain ⟨ring, headerAt, retained, rfl⟩ := h
    exact ⟨⟨_, _, _, rfl⟩, rfl⟩

end Alike

variable {size : Nat} {captureEvents : Bool} {r₀ : Recorder} {a b : List Action}

theorem NeverOverruns.of_append (h : r₀.NeverOverruns (a ++ b)) : r₀.NeverOverruns a :=
  fun before hbefore => h before (hbefore.trans (List.prefix_append a b))

/-- One call more in both of two runs with the same calls so far. -/
theorem alike_concat (h : create size captureEvents = .ok r₀) (halike : Alike (r₀.after a) (r₀.after b))
    (hcalls : calls a = calls b) {x : Action} (hx : x.isTake = false) (hover : (r₀.after (a ++ [x])).phase ≠ .overrun)
    (hover' : (r₀.after (b ++ [x])).phase ≠ .overrun) :
    Alike (r₀.after (a ++ [x])) (r₀.after (b ++ [x])) ∧ (r₀.after a).shown [x] = (r₀.after b).shown [x] := by
  obtain ⟨hstart, -, -⟩ := tracked_create h
  obtain ⟨recs, hholds⟩ := (hstart.after a).holds
  obtain ⟨recs', hholds'⟩ := (hstart.after b).holds
  -- both have seen the same samples, so that both hold the same packet so far
  have hsampled : sampled b = sampled a := by rw [← sampled_calls b, ← hcalls, sampled_calls]
  have hbase : (r₀.after b).base = (r₀.after a).base := by
    obtain ⟨_, _, _, hsame⟩ := halike
    rw [hsame]
  rw [hsampled, hbase] at hholds'
  rw [after_concat] at hover hover' ⊢
  rw [after_concat]
  exact halike.step (roomy_after h a) (roomy_after h b) hholds hholds' hx hover hover'

/-- **Runs with the same calls stay alike.** -/
theorem alike_of_calls (h : create size captureEvents = .ok r₀) (hcalls : calls a = calls b)
    (ha : r₀.NeverOverruns a) (hb : r₀.NeverOverruns b) :
    Alike (r₀.after a) (r₀.after b) ∧ r₀.shown a = r₀.shown b := by
  induction a using List.reverseRecOn generalizing b with
  | nil =>
    have htakes : ∀ x ∈ b, x.isTake = true := by
      simpa [calls] using List.filter_eq_nil_iff.1 hcalls.symm
    obtain ⟨halike, hshown⟩ := (Alike.refl r₀).after_takes htakes
    exact ⟨halike, hshown.symm⟩
  | append_singleton a x ih =>
    cases hx : x.isTake with
    | true =>
      have hcalls' : calls a = calls b := by
        rw [← hcalls]
        simp [calls, hx]
      obtain ⟨halike, hshown⟩ := ih hcalls' ha.of_append hb
      cases x with
      | take =>
        rw [after_concat, shown_append, hshown]
        exact ⟨halike.take.1, List.append_nil _⟩
      | _ => cases hx
    | false =>
      -- the other run makes the same call, with takes before and after it
      have hsplit : calls b = calls a ++ [x] := by
        rw [← hcalls]
        simp [calls, hx]
      obtain ⟨before, late, rfl, hbefore, hlate⟩ := List.filter_eq_append_iff.1 hsplit
      obtain ⟨early, takes, rfl, hearly, -, htakes⟩ := List.filter_eq_cons_iff.1 hlate
      have hcalls' : calls a = calls (before ++ early) := by
        have hnone : calls early = [] := List.filter_eq_nil_iff.2 hearly
        rw [calls, calls, List.filter_append]
        show _ = _ ++ calls early
        rw [hnone, List.append_nil, hbefore]
        rfl
      rw [show before ++ (early ++ x :: takes) = (before ++ early ++ [x]) ++ takes by simp] at hb ⊢
      obtain ⟨halike, hshown⟩ := ih hcalls' ha.of_append hb.of_append.of_append
      obtain ⟨hnext, hshown'⟩ := alike_concat h halike hcalls' hx (ha _ List.prefix_rfl)
        (hb.of_append _ List.prefix_rfl)
      have hreader : ∀ y ∈ takes, y.isTake = true := by simpa [calls] using List.filter_eq_nil_iff.1 htakes
      obtain ⟨hlast, hnothing⟩ := hnext.after_takes hreader
      rw [after_append _ _ takes, shown_append _ _ takes, hnothing, List.append_nil, shown_append, hshown, hshown',
        ← shown_append]
      exact ⟨hlast, rfl⟩

/-- What two runs that make the same calls owe to each other. -/
structure SameCapture (r₀ : Recorder) (a b : List Action) : Prop where
  /-- on every tick the same status, phase and counts, and the same records framed -/
  shown : r₀.shown a = r₀.shown b
  framings : r₀.framings a = r₀.framings b

/-- **The reader's pace does not affect what is captured.** -/
theorem sameCapture_of_create (h : create size captureEvents = .ok r₀) (hcalls : calls a = calls b)
    (ha : r₀.NeverOverruns a) (hb : r₀.NeverOverruns b) : r₀.SameCapture a b := by
  have hshown := (alike_of_calls h hcalls ha hb).2
  refine ⟨hshown, ?_⟩
  rw [framings_eq_flatMap, framings_eq_flatMap, hshown]

/-- A capture of one packet, and the begin of the next capture; in between a reader may take bytes. -/
def restarted (takes : Nat) : List Action :=
  armed ++ [receiving 1, receiving 2, .tick {} (some .reset)] ++ List.replicate takes .take ++
    [.enable false, .tick {} none, .setSpeed .high, .enable true, .tick {} none]

/-- Two captures, unread or read in the middle of the packet: what is framed is the same, what is left in the ring is
not. -/
theorem sameCapture_restarted : ∃ r₀, create 64 true = .ok r₀ ∧ calls (restarted 0) = calls (restarted 5) ∧
    r₀.NeverOverruns (restarted 0) ∧ r₀.NeverOverruns (restarted 5) ∧ r₀.SameCapture (restarted 0) (restarted 5) ∧
    (r₀.framings (restarted 0)).length = 5 ∧ (r₀.after (restarted 0)).retained = 0 ∧
    (r₀.after (restarted 5)).retained = 5 := by
  have hcreate : create 64 true = .ok { ring := { size := 64 }, captureEvents := true } := rfl
  have hunread : NeverOverruns { ring := { size := 64 }, captureEvents := true } (restarted 0) := by decide +kernel
  have hread : NeverOverruns { ring := { size := 64 }, captureEvents := true } (restarted 5) := by decide +kernel
  exact ⟨_, hcreate, rfl, hunread, hread, sameCapture_of_create hcreate rfl hunread hread, by decide +kernel,
    by decide +kernel, by decide +kernel⟩

end Recorder
end UsbRecorder
