import UsbRecorder.Proofs.Recorder.Room
/-!
# Line — what becomes of the events that stand in line

An event that comes while a recorder captures joins the line of held events.  It is framed from there, or dropped and
counted, or lost: the event that leaves the line for its own record, and finds no room for it, is counted nowhere.
`Divided` tells these fates apart where the ring runs full, and `Finish` puts them behind the packet that the line has
waited for.  A packet that is given up takes the whole line with it.
-/
namespace UsbRecorder
namespace Recorder

/-- The events that are dropped or in line. -/
def unframed (r : Recorder) : Nat := r.counts.dropped + r.held.length

/-- **How a line is divided where the ring runs full**: behind an item of the tick `base` its first events are framed.
The next one is lost if it is in range of the item framed last, so that its own record was due and not a placeholder;
the others are left to be dropped. -/
structure Divided (line : List (BusEvent × Nat)) (base : Nat) (framed : List Entry) (lost : Option (BusEvent × Nat))
    (left : List (BusEvent × Nat)) : Prop where
  line : line = framed.filterMap Entry.heard? ++ (lost.toList ++ left)
  range : ∀ x ∈ (lost.toList ++ left).head?, lost.isSome = true ↔ x.2 ≤ framed.getLast?.elim base Entry.tick + span

/-- **How a packet in progress ends on a tick, and what becomes of the line behind it**, which the event of the tick
joins if there is a place for it: `lost` is the event that is lost, if there is one, and `left` are those that are
dropped.  No event stays in line. -/
inductive Finish (r : Recorder) (s : Sample) (event : Option BusEvent) (r' : Recorder) :
    List Entry → Option (BusEvent × Nat) → List (BusEvent × Nat) → Prop where
  /-- the packet is framed, and the whole line behind it -/
  | complete {payload : List UInt8} {framed : List Entry} (quiet : s.active = false) (phase : r'.phase = .waiting)
      (events : Entry.OfEvents framed) (line : framed.filterMap Entry.heard? = r.held ++ r.accepted event)
      (held : r'.held = []) (dropped : r'.counts.dropped = r.counts.dropped + r.refused event) :
      Finish r s event r' (⟨.packet payload, r.base, r.time⟩ :: framed) none []
  /-- the packet is framed, and the ring runs full on the way along the line, or right behind it -/
  | cut {payload : List UInt8} {framed : List Entry} {time : UInt16} {lost : Option (BusEvent × Nat)}
      {left : List (BusEvent × Nat)} (quiet : s.active = false) (phase : r'.phase = .overrun)
      (events : Entry.OfEvents framed) (line : Divided (r.held ++ r.accepted event) r.base framed lost left)
      (held : r'.held = []) (dropped : r'.counts.dropped = r.counts.dropped + r.refused event + left.length) :
      Finish r s event r' (⟨.packet payload, r.base, r.time⟩ :: framed ++ r.stopping .full time) lost left
  /-- the packet is given up, and nothing is framed but a stop record -/
  | abandoned {cause : StopCause} {time : UInt16} (active : s.active = true)
      (phase : r'.phase = .overrun ∧ cause = .full ∨ r'.phase = .babble ∧ cause = .error) (held : r'.held = [])
      (dropped : r'.counts.dropped = r.counts.dropped + (r.held.length + event.toList.length)) :
      Finish r s event r' (r.stopping cause time) none (r.held ++ event.toList.map fun e => (e, r.now))

variable {r r' a b : Recorder} {recs : List (List UInt8)} {payload : List UInt8} {s : Sample} {event : Option BusEvent}
  {es : List Entry}

/-! ## Dropping the line -/

/-- **A stop record is never counted as dropped**, for there is room for it. -/
theorem counts_logStop (hspare : r.Spare) (hpending : r.ring.pending = 0) (cause : StopCause) :
    (r.logStop cause).counts = { r.counts with events := r.counts.events + r.captureEvents.toNat } := by
  unfold logStop
  by_cases hcapture : r.captureEvents = true
  · rw [if_neg (by simp [hcapture]), if_pos (fits_of_spare hcapture hspare hpending), hcapture]
    rfl
  · rw [if_pos (by simp [hcapture]), Bool.eq_false_iff.2 hcapture]
    rfl

theorem counts_giveUp (hspare : r.Spare) (phase : Phase) (cause : StopCause) :
    (r.giveUp phase cause).counts = { r.counts with
      dropped := r.counts.dropped + r.held.length
      events := r.counts.events + r.captureEvents.toNat } :=
  counts_logStop (r := { r.withdrawn.forgetHeld with phase }) hspare rfl cause

theorem counts_overflow (hspare : r.Spare) : r.overflow.counts = { r.counts with
    overruns := r.counts.overruns + 1
    dropped := r.counts.dropped + r.held.length
    events := r.counts.events + r.captureEvents.toNat } :=
  counts_giveUp (r := { r with counts.overruns := r.counts.overruns + 1 }) hspare .overrun .full

theorem counts_overlong (hspare : r.Spare) : r.overlong.counts = { r.counts with
    babbles := r.counts.babbles + 1
    dropped := r.counts.dropped + r.held.length
    events := r.counts.events + r.captureEvents.toNat } :=
  counts_giveUp (r := { r with counts.babbles := r.counts.babbles + 1 }) hspare .babble .error

theorem held_overlong (r : Recorder) : r.overlong.held = [] := (giveUp_frame _ _ _).1

/-! ## Framing the line -/

theorem Divided.cons {item : Item} {tick : Nat} {held left : List (BusEvent × Nat)} {framed : List Entry}
    {lost : Option (BusEvent × Nat)} (due : r.Due item tick held) (h : Divided held tick framed lost left)
    (time : UInt16) : Divided r.held r.base (⟨item, tick, time⟩ :: framed) lost left := by
  obtain ⟨hline, hrange⟩ := h
  constructor
  · cases due with
    | start _ _ empty => exact empty.trans hline
    | gap => exact hline
    | event first => exact first.trans (congrArg (_ :: ·) hline)
  · intro x hx
    rw [hrange x hx, List.getLast?_cons]
    cases framed.getLast? <;> rfl

/-- Where there is no room for the record that is due, it is lost if it is one of an event. -/
theorem Due.divided {item : Item} {tick : Nat} {held : List (BusEvent × Nat)} (due : r.Due item tick held) :
    ∃ lost, Divided r.held r.base [] lost held := by
  cases due with
  | start _ _ empty => exact ⟨none, empty, nofun⟩
  | gap _ ahead =>
    refine ⟨none, rfl, fun x hx => ?_⟩
    have hfar := ahead x (List.mem_of_head? hx)
    simpa using hfar
  | @event e _ _ first near =>
    refine ⟨some (e, tick), first, fun x hx => ?_⟩
    cases hx
    simpa using near

namespace Frames

theorem counts_of_waiting (h : Frames a es b) (hphase : b.phase = .waiting) :
    b.counts.dropped = a.counts.dropped ∧ b.counts.overruns = a.counts.overruns := by
  induction h with
  | done => exact ⟨rfl, rfl⟩
  | frame _ _ _ _ _ ih =>
    obtain ⟨hdropped, hoverruns⟩ := ih hphase
    exact ⟨hdropped.trans (Counts.dropped_tally _ _), hoverruns.trans (Counts.overruns_tally _ _)⟩
  | full => cases (phase_overflow _).symm.trans hphase

/-- **Where the ring runs full the line is divided**, and what is left of it is dropped. -/
theorem divided (h : Frames a es b) (ha : a.Roomy) (hphase : a.phase = .waiting) (hover : b.phase ≠ .waiting) :
    ∃ framed time lost left, es = framed ++ a.stopping .full time ∧ Divided a.held a.base framed lost left ∧
      b.counts.dropped = a.counts.dropped + left.length ∧ b.counts.overruns = a.counts.overruns + 1 := by
  induction h with
  | done => exact absurd hphase hover
  | frame phase room _ due _ ih =>
    obtain ⟨framed, time, lost, left, rfl, hline, hdropped, hoverruns⟩ := ih (ha.frame phase room _ _ _ _) phase hover
    refine ⟨_ :: framed, time, lost, left, rfl, hline.cons due _, ?_, ?_⟩
    · rw [hdropped, Counts.dropped_tally]
    · rw [hoverruns, Counts.overruns_tally]
  | @full r _ _ held phase _ due =>
    obtain ⟨lost, hline⟩ := due.divided
    have hcounts := counts_overflow (r := { r with held }) (ha.waiting phase).2
    refine ⟨[], _, lost, held, stopEntries_withdrawn (ha.waiting phase).2 .full, hline, ?_, ?_⟩
    · rw [hcounts]
    · rw [hcounts]

/-- Where nothing is in line nothing is dropped. -/
theorem unframed_of_nil (h : Frames a es b) (ha : a.Roomy) (hphase : a.phase = .waiting) (hnone : a.held = []) :
    b.unframed = a.unframed ∧ a.counts.overruns ≤ b.counts.overruns := by
  unfold Recorder.unframed
  rw [(h.held_eq_nil hnone).2, hnone]
  by_cases hwait : b.phase = .waiting
  · obtain ⟨hdropped, hoverruns⟩ := h.counts_of_waiting hwait
    exact ⟨by rw [hdropped], Nat.le_of_eq hoverruns.symm⟩
  · obtain ⟨framed, time, lost, left, -, hline, hdropped, hoverruns⟩ := h.divided ha hphase hwait
    have hnil := hline.line
    rw [hnone, eq_comm, List.append_eq_nil_iff, List.append_eq_nil_iff] at hnil
    rw [hnil.2.2] at hdropped
    exact ⟨by rw [hdropped]; rfl, by omega⟩

end Frames

/-! ## Turns -/

/-- **A turn leaves the events in line, or drops them.** -/
theorem Turn.unframed (h : Turn r payload s es r') (hr : r.Roomy) (hholds : r.Holds recs payload) :
    r'.unframed = r.unframed ∧ r.counts.overruns ≤ r'.counts.overruns := by
  cases h with
  | cleared => exact ⟨rfl, Nat.le_refl _⟩
  | armed _ _ _ frames => exact frames.unframed_of_nil hr.begun rfl rfl
  | ended phase =>
    have hcounts := counts_logStop (hr.waiting phase).2 (hr.waiting phase).1 .requested
    unfold Recorder.unframed endCapture
    dsimp only
    rw [hcounts, (logStop_frame r .requested).1]
    exact ⟨rfl, Nat.le_refl _⟩
  | @refused a _ _ packet =>
    have hspare := hr.spare_of_refused hholds packet
    unfold Recorder.unframed
    obtain ⟨rfl, -⟩ | ⟨rfl, -⟩ := packet <;>
    · rw [counts_overflow hspare, held_overflow]
      exact ⟨rfl, Nat.le_succ _⟩
  | overlong phase =>
    unfold Recorder.unframed
    rw [counts_overlong (hr.spare hholds (.inr phase)), held_overlong]
    exact ⟨rfl, Nat.le_refl _⟩
  | _ => exact ⟨rfl, Nat.le_refl _⟩

/-- **After a turn, with the event of the tick taken in, the line is as it was, or dropped.** -/
theorem Turn.dropped_takeIn (h : Turn r payload s es r') (hr : r.Settled) (hroomy : r.Roomy)
    (hholds : r.Holds recs payload) (event : Option BusEvent) :
    (r'.takeIn event).counts.dropped = r.counts.dropped +
      if r'.phase = .waiting ∨ r'.phase = .capturing then r.refused event
      else r.held.length + event.toList.length := by
  obtain ⟨hunframed, -⟩ := h.unframed hroomy hholds
  have hheld := h.held hr
  unfold Recorder.unframed at hunframed
  rw [Recorder.dropped_takeIn]
  split_ifs with hgoes
  · rw [if_pos hgoes] at hheld
    rw [hheld] at hunframed
    rw [Recorder.refused, hheld, Nat.add_right_cancel hunframed, Recorder.refused]
  · rw [if_neg hgoes] at hheld
    rw [hheld, List.length_nil, Nat.add_zero] at hunframed
    rw [hunframed, Nat.add_assoc]

/-! ## Ticks on which no packet ends -/

/-- **While a packet is in progress only what there is no place for is dropped.** -/
theorem Ticked.defers (h : Ticked r payload s event es r') (hr : r.Settled) (hroomy : r.Roomy)
    (hholds : r.Holds recs payload) (hgoes : r'.phase = .capturing) :
    r'.counts.dropped = r.counts.dropped + r.refused event := by
  obtain ⟨a, b, turned, framed, hturn, hframes, rfl, rfl, -⟩ := h.flush
  have hdropped := hturn.dropped_takeIn hr.fresh hroomy.fresh hholds.fresh event
  obtain ⟨-, rfl⟩ := hframes.eq_of_capturing hgoes
  rwa [if_pos (.inr ((phase_takeIn a event).symm.trans hgoes))] at hdropped

/-- **On a tick that is not free all events are dropped**, unless a packet is in progress afterwards. -/
theorem Ticked.drops (h : Ticked r payload s event es r') (hr : r.Settled) (hroomy : r.Roomy)
    (hholds : r.Holds recs payload) (hbusy : ¬ r.Free s) (hends : r'.phase ≠ .capturing) :
    r'.counts.dropped = r.counts.dropped + (r.held.length + event.toList.length) := by
  obtain ⟨a, b, turned, framed, hturn, hframes, rfl, rfl, -⟩ := h.flush
  have hdropped := hturn.dropped_takeIn hr.fresh hroomy.fresh hholds.fresh event
  have hwaits : a.phase ≠ .waiting := fun hw => hbusy (hturn.free hw)
  obtain ⟨-, rfl⟩ := hframes.eq_of_ne_waiting (by rwa [phase_takeIn])
  rwa [if_neg (not_or.2 ⟨hwaits, fun hc => hends ((phase_takeIn a event).trans hc)⟩)] at hdropped

/-! ## The tick that ends a packet -/

/-- **Behind a packet that is framed the line is framed as far as there is room.** -/
theorem finish_closed (hclosed : a = closePacket { r with framed := [] }) (hroomy : (a.takeIn event).Roomy)
    (hquiet : s.active = false) (hframes : Frames (a.takeIn event) es b) (hheld : b.held = [])
    (payload : List UInt8) : ∃ lost left,
      Finish r s event { b with now := b.now + 1 } (⟨.packet payload, r.base, r.time⟩ :: es) lost left := by
  have hwaits : a.phase = .waiting := by rw [hclosed]; rfl
  have hline : (a.takeIn event).held = r.held ++ r.accepted event := by
    rw [held_takeIn, if_pos (.inl hwaits), hclosed]
    rfl
  have htaken : (a.takeIn event).counts.dropped = r.counts.dropped + r.refused event := by
    rw [dropped_takeIn, if_pos (.inl hwaits), hclosed]
    rfl
  rw [← phase_takeIn a event] at hwaits
  by_cases hphase : b.phase = .waiting
  · obtain ⟨hdropped, -⟩ := hframes.counts_of_waiting hphase
    have hall := hframes.heard hphase
    rw [hheld, List.append_nil, hline] at hall
    exact ⟨_, _, .complete hquiet hphase hframes.ofEvents hall hheld (hdropped.trans htaken)⟩
  · have hitems := hframes.ofEvents
    obtain ⟨framed, time, lost, left, rfl, hdivided, hdropped, -⟩ := hframes.divided hroomy hwaits hphase
    have hover : b.phase = .overrun := hframes.phase_cases.resolve_left fun hsame => hphase (hsame.trans hwaits)
    have hbase : (a.takeIn event).base = r.base := by
      rw [base_takeIn, hclosed]
      rfl
    have hstop : (a.takeIn event).stopping .full time = r.stopping .full time := by
      rw [takeIn_eq, hclosed]
      rfl
    rw [hline, hbase] at hdivided
    rw [htaken] at hdropped
    rw [hstop]
    exact ⟨lost, left, .cut hquiet hover (fun e he => hitems e (List.mem_append_left _ he)) hdivided hheld hdropped⟩

/-- **No event behind a packet stays in line when the packet ends.** -/
theorem Ticked.finish (h : Ticked r payload s event es r') (hr : r.Settled) (hroomy : r.Roomy)
    (hholds : r.Holds recs payload) (hphase : r.phase = .capturing) (hends : r'.phase ≠ .capturing) :
    ∃ lost left, Finish r s event r' es lost left := by
  have hidle := (h.settled hr).idle hends
  have hdropped (hactive : s.active = true) :=
    h.drops hr hroomy hholds (fun hfree => absurd (hactive.symm.trans hfree.1) (by decide)) hends
  obtain ⟨a, b, turned, framed, hturn, hframes, rfl, rfl, -⟩ := h.flush
  have ha := (hturn.roomy hroomy.fresh hholds.fresh).takeIn event
  have hgivenUp (hne : a.phase ≠ .waiting) : framed = [] ∧ b = a.takeIn event :=
    hframes.eq_of_ne_waiting (by rwa [phase_takeIn])
  cases hturn with
  | still goes => exact absurd hphase goes
  | cleared goes => exact absurd hphase goes
  | armed phase => cases phase.symm.trans hphase
  | ended phase => cases phase.symm.trans hphase
  | opened phase => cases phase.symm.trans hphase
  | extended phase =>
    have hsame : (received { r with framed := [] } s.data).phase = .capturing := hphase
    obtain ⟨-, rfl⟩ := hgivenUp (by rw [hsame]; decide)
    exact absurd ((phase_takeIn _ event).trans hsame) hends
  | closed _ quiet => exact finish_closed rfl ha quiet hframes hidle payload
  | refused active _ packet =>
    obtain ⟨rfl, rfl⟩ := hgivenUp (by rw [phase_overflow]; decide)
    obtain ⟨rfl, -⟩ | ⟨-, hwaits, -⟩ := packet
    · have hover := (phase_takeIn _ event).trans (phase_overflow { r with framed := [] })
      rw [List.append_nil, stopEntries_withdrawn (hroomy.fresh.spare hholds.fresh (.inr hphase))]
      exact ⟨_, _, .abandoned active (.inl ⟨hover, rfl⟩) hidle (hdropped active)⟩
    · cases hwaits.symm.trans hphase
  | overlong phase active =>
    obtain ⟨rfl, rfl⟩ := hgivenUp (by rw [phase_overlong]; decide)
    have hbabble := (phase_takeIn _ event).trans (phase_overlong { r with framed := [] })
    rw [List.append_nil, stopEntries_withdrawn (hroomy.fresh.spare hholds.fresh (.inr hphase))]
    exact ⟨_, _, .abandoned active (.inr ⟨hbabble, rfl⟩) hidle (hdropped active)⟩

/-! ## One event of the line -/

/-- The entries are a packet of the first tick `base` and events behind it, among them one that was passed in. -/
def FramedBehind (es : List Entry) (base : Nat) (x : BusEvent × Nat) : Prop :=
  ∃ payload time between time' later,
    es = ⟨.packet payload, base, time⟩ :: between ++ ⟨.heard x.1, x.2, time'⟩ :: later ∧
      Entry.OfEvents (between ++ later)

theorem ofEvents_stopping (r : Recorder) (cause : StopCause) (time : UInt16) :
    Entry.OfEvents (r.stopping cause time) := by
  unfold stopping
  split_ifs
  · exact List.forall_mem_singleton.2 ⟨_, rfl⟩
  · exact nofun

theorem framedBehind_of_heard {rest : List Entry} {base : Nat} {time : UInt16} {x : BusEvent × Nat}
    (hevents : Entry.OfEvents rest) (hheard : x ∈ rest.filterMap Entry.heard?) :
    FramedBehind (⟨.packet payload, base, time⟩ :: rest) base x := by
  obtain ⟨entry, hentry, hx⟩ := List.mem_filterMap.1 hheard
  obtain ⟨time', rfl⟩ : ∃ time', entry = ⟨.heard x.1, x.2, time'⟩ := by
    obtain ⟨item, tick, time'⟩ := entry
    cases item <;> cases hx
    exact ⟨time', rfl⟩
  obtain ⟨between, later, rfl⟩ := List.append_of_mem hentry
  refine ⟨payload, time, between, time', later, rfl, fun e he => hevents e ?_⟩
  rcases List.mem_append.1 he with he | he
  · exact List.mem_append_left _ he
  · exact List.mem_append_right _ (List.mem_cons_of_mem _ he)

/-- **An event of the line is framed behind the packet, lost or dropped.** -/
theorem Finish.fate {lost : Option (BusEvent × Nat)} {left : List (BusEvent × Nat)}
    (h : Finish r s event r' es lost left) {x : BusEvent × Nat} (hx : x ∈ r.held) :
    FramedBehind es r.base x ∨ lost = some x ∨ x ∈ left := by
  cases h with
  | complete _ _ events line => exact .inl (framedBehind_of_heard events (line ▸ List.mem_append_left _ hx))
  | @cut _ framed time _ _ _ _ events line =>
    have hmem := List.mem_append_left (r.accepted event) hx
    rw [line.line] at hmem
    rcases List.mem_append.1 hmem with hheard | hmem
    · have hmore : x ∈ (framed ++ r.stopping .full time).filterMap Entry.heard? := by
        rw [List.filterMap_append]
        exact List.mem_append_left _ hheard
      exact .inl (framedBehind_of_heard (List.forall_mem_append.2 ⟨events, ofEvents_stopping _ _ _⟩) hmore)
    · rcases List.mem_append.1 hmem with hlost | hleft
      · exact .inr (.inl (Option.mem_toList.1 hlost))
      · exact .inr (.inr hleft)
  | abandoned => exact .inr (.inr (List.mem_append_left _ hx))

end Recorder
end UsbRecorder
