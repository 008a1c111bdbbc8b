import UsbRecorder.Proofs.Recorder.Line
/-!
# Fates — every event that is passed to a recorder is framed, dropped, held or lost

A recorder that frames no start and stop records counts each event once: framed, dropped, or still held.  One event
escapes the count, that for whose own record the ring has no room: it has left the line of the held events by then, and
is not dropped with them.  `losesEvent` says on which ticks an event is lost, and `Tallied` that nothing else is.
-/
namespace UsbRecorder
namespace Recorder

/-- The events that are framed, dropped or held. -/
def accounted (r : Recorder) : Nat := r.counts.events + r.counts.dropped + r.held.length

/-- **A tick on which an event is lost**: nothing is received and the ring runs full, while the first event that is not
framed is in range of the item framed last, so that no placeholder is due before it. -/
def losesEvent (r : Recorder) (s : Sample) (event : Option BusEvent) : Bool :=
  let r' := (r.tick s event).2
  !s.active && r.phase != .overrun && r'.phase == .overrun &&
    ((r.held ++ r.accepted event).drop (r'.counts.events - r.counts.events)).head?.any (·.2 ≤ r'.base + span)

/-- The ticks of a run on which an event is lost. -/
def losses : Recorder → List Action → Nat
  | _, [] => 0
  | r, .tick s event :: rest => (r.losesEvent s event).toNat + (r.tick s event).2.losses rest
  | r, a :: rest => (r.step a).losses rest

variable {r r' a b : Recorder} {recs : List (List UInt8)} {payload : List UInt8} {s : Sample} {event : Option BusEvent}
  {es : List Entry}

/-! ## Recorders without start and stop records -/

namespace Frames

variable (h : Frames a es b) (hsilent : a.captureEvents = false)
include h hsilent

/-- **What is counted as framed are the classified events.** -/
theorem events_of_silent (ha : a.Roomy) (hclassified : ∀ x ∈ a.held, x.1 ≠ .placeholder) :
    b.counts.events = a.counts.events + (es.filterMap Entry.heard?).length := by
  induction h with
  | done => rfl
  | @frame r _ _ event _ _ es phase room isEvent due _ ih =>
    have hrest := ih hsilent (ha.frame phase room _ _ _ _)
    cases due with
    | start on => cases hsilent.symm.trans on
    | gap =>
      cases isEvent
      exact hrest hclassified
    | event first =>
      cases isEvent
      rw [first] at hclassified
      obtain ⟨hevent, hlater⟩ := List.forall_mem_cons.1 hclassified
      refine (hrest hlater).trans ?_
      show (r.counts.tally event).events + (es.filterMap Entry.heard?).length =
        r.counts.events + ((es.filterMap Entry.heard?).length + 1)
      rw [Counts.events_tally hevent, Nat.add_assoc, Nat.add_comm 1]
  | @full r _ _ held phase =>
    have hspare := (ha.waiting phase).2
    rw [counts_overflow (r := { r with held }) hspare, stopEntries_withdrawn hspare]
    simp [stopping, hsilent]

theorem base_of_silent : b.base = es.getLast?.elim a.base Entry.tick := by
  induction h with
  | done => rfl
  | @frame _ _ _ _ _ _ es _ _ _ _ _ ih =>
    rw [ih hsilent, List.getLast?_cons]
    cases es.getLast? <;> rfl
  | @full r _ _ held =>
    have hnone : r.withdrawn.stopEntries .full = [] := if_neg fun h => absurd (hsilent.symm.trans h.1) (by decide)
    have hsame : ({ r with held }.overflow).base = r.base := by
      unfold overflow giveUp logStop
      rw [if_pos (by simp [forgetHeld, hsilent])]
      rfl
    rw [hnone, hsame]
    rfl

/-- **Framing accounts for all that is held**, but for the event that is lost. -/
theorem balance (ha : a.Roomy) (hphase : a.phase = .waiting) (hclassified : ∀ x ∈ a.held, x.1 ≠ .placeholder)
    (hdone : b.phase = .waiting → b.held = []) :
    b.phase = .waiting ∧ b.accounted = a.accounted ∧ b.counts.overruns = a.counts.overruns ∨
      ∃ framed lost left, Divided a.held a.base framed lost left ∧ b.phase = .overrun ∧
        b.counts.events = a.counts.events + (framed.filterMap Entry.heard?).length ∧
        b.base = framed.getLast?.elim a.base Entry.tick ∧ b.accounted + lost.isSome.toNat = a.accounted ∧
        b.counts.overruns = a.counts.overruns + 1 := by
  have hevents := h.events_of_silent hsilent ha hclassified
  have hbase := h.base_of_silent hsilent
  unfold accounted
  rw [hevents]
  by_cases hwaits : b.phase = .waiting
  · obtain ⟨hdropped, hoverruns⟩ := h.counts_of_waiting hwaits
    have hall := h.heard hwaits
    rw [hdone hwaits, List.append_nil] at hall
    rw [hdone hwaits, hall, hdropped, List.length_nil]
    exact .inl ⟨hwaits, by omega, hoverruns⟩
  · have hover : b.phase = .overrun := h.phase_cases.resolve_left fun hsame => hwaits (hsame.trans hphase)
    obtain ⟨framed, time, lost, left, rfl, hline, hdropped, hoverruns⟩ := h.divided ha hphase hwaits
    have hstop : a.stopping .full time = [] := if_neg (by simp [hsilent])
    rw [hstop, List.append_nil] at hbase ⊢
    refine .inr ⟨framed, lost, left, hline, hover, rfl, hbase, ?_, hoverruns⟩
    have hlen := congrArg List.length hline.line
    rw [List.length_append, List.length_append] at hlen
    have hlost : lost.toList.length = lost.isSome.toNat := by cases lost <;> rfl
    rw [h.held_of_overrun hphase hwaits, hdropped, List.length_nil]
    omega

end Frames

namespace Turn

theorem events_of_silent (h : Turn r payload s es r') (hr : r.Roomy) (hholds : r.Holds recs payload)
    (hsilent : r.captureEvents = false) : r'.counts.events = r.counts.events := by
  cases h with
  | armed _ _ _ frames _ silent =>
    obtain ⟨rfl, hwaits⟩ := silent hsilent
    rw [frames.eq_of_nil hwaits]
    rfl
  | ended phase =>
    have hcounts := counts_logStop (hr.waiting phase).2 (hr.waiting phase).1 .requested
    unfold endCapture
    dsimp only
    rw [hcounts, hsilent]
    rfl
  | @refused a _ _ packet =>
    have hspare := hr.spare_of_refused hholds packet
    have hsilent' : a.captureEvents = false := by
      obtain ⟨rfl, -⟩ | ⟨rfl, -⟩ := packet <;> exact hsilent
    have hsame : a.counts = r.counts := by
      obtain ⟨rfl, -⟩ | ⟨rfl, -⟩ := packet <;> rfl
    rw [counts_overflow hspare, hsilent', hsame]
    rfl
  | overlong phase =>
    rw [counts_overlong (hr.spare hholds (.inr phase)), hsilent]
    rfl
  | _ => rfl

/-- Without reception no turn runs the ring full. -/
theorem active_of_overrun (h : Turn r payload s es r') (hsilent : r.captureEvents = false)
    (hover : r'.phase = .overrun) (hphase : r.phase ≠ .overrun) : s.active = true := by
  cases h with
  | still => exact absurd hover hphase
  | armed _ _ _ _ _ silent => cases hover.symm.trans (silent hsilent).2
  | extended phase => cases phase.symm.trans hover
  | refused active => exact active
  | overlong _ active => exact active
  | _ => cases hover

end Turn

theorem accounted_eq (r : Recorder) : r.accounted = r.counts.events + r.unframed := Nat.add_assoc _ _ _

/-- An event that is taken in is held, or dropped. -/
theorem accounted_takeIn (r : Recorder) (event : Option BusEvent) :
    (r.takeIn event).accounted = r.accounted + event.toList.length := by
  rw [takeIn_eq]
  unfold accounted accepted refused
  cases event <;> split_ifs <;> simp <;> omega

/-- **After a turn, with the event of the tick taken in, all events are counted.** -/
theorem Turn.accounted_takeIn (h : Turn r payload s es r') (hr : r.Roomy) (hholds : r.Holds recs payload)
    (hsilent : r.captureEvents = false) (event : Option BusEvent) :
    (r'.takeIn event).accounted = r.accounted + event.toList.length ∧
      (r'.takeIn event).counts.events = r.counts.events ∧
      r.counts.overruns ≤ (r'.takeIn event).counts.overruns := by
  obtain ⟨hunframed, hoverruns⟩ := h.unframed hr hholds
  have hevents := h.events_of_silent hr hholds hsilent
  refine ⟨?_, ?_, ?_⟩
  · rw [Recorder.accounted_takeIn, accounted_eq, hevents, hunframed, ← accounted_eq]
  · rw [takeIn_eq]
    exact hevents
  · rw [takeIn_eq]
    exact hoverruns

/-! ## One tick -/

/-- No event is lost where the ring does not run full, or while something is being received. -/
theorem losesEvent_eq_false
    (h : (r.tick s event).2.phase = .overrun → r.phase ≠ .overrun → s.active = true) :
    r.losesEvent s event = false := by
  unfold losesEvent
  by_cases hover : (r.tick s event).2.phase = .overrun
  · by_cases hphase : r.phase = .overrun
    · simp [hphase]
    · simp [h hover hphase]
  · simp [hover]

/-- An event is lost where the line is divided at one in range. -/
theorem losesEvent_of_divided {framed : List Entry} {lost : Option (BusEvent × Nat)} {left : List (BusEvent × Nat)}
    (hline : Divided (r.held ++ r.accepted event) r'.base framed lost left) (hquiet : s.active = false)
    (hphase : r.phase ≠ .overrun) (hover : (r.tick s event).2.phase = .overrun)
    (hevents : (r.tick s event).2.counts.events = r.counts.events + (framed.filterMap Entry.heard?).length)
    (hbase : (r.tick s event).2.base = framed.getLast?.elim r'.base Entry.tick) :
    r.losesEvent s event = lost.isSome := by
  have hrange := hline.range
  unfold losesEvent
  dsimp only
  rw [hline.line, hevents, Nat.add_sub_cancel_left, List.drop_left, hbase, hover, hquiet]
  cases hfirst : (lost.toList ++ left).head? with
  | none =>
    rw [List.head?_eq_none_iff, List.append_eq_nil_iff, Option.toList_eq_nil_iff] at hfirst
    simp [hfirst.1]
  | some x =>
    rw [Bool.eq_iff_iff, hrange x hfirst]
    simp [hphase]

/-- The events of a tick are accounted for: `lost` of them are lost, and the others are counted. -/
structure Balance (r : Recorder) (passed lost : Nat) (r' : Recorder) : Prop where
  accounted : r.accounted + passed = r'.accounted + lost
  overruns : r.counts.overruns + lost ≤ r'.counts.overruns

theorem event_of_accepted {x : BusEvent × Nat} (h : x ∈ r.accepted event) : x.1 ∈ event := by
  unfold accepted at h
  split_ifs at h
  · obtain ⟨e, he, rfl⟩ := List.mem_map.1 h
    exact Option.mem_toList.1 he
  · cases h

theorem classified_line (hheld : ∀ x ∈ r.held, x.1 ≠ .placeholder) (hevent : ∀ e ∈ event, e ≠ .placeholder) :
    ∀ x ∈ r.held ++ r.accepted event, x.1 ≠ .placeholder := by
  intro x hx
  rcases List.mem_append.1 hx with hx | hx
  · exact hheld x hx
  · exact hevent _ (event_of_accepted hx)

/-- **A tick accounts for its event and for those that were held**, but for the one that is lost. -/
theorem balance_tick (hholds : r.Holds recs payload) (hr : r.Roomy) (hsettled : r.Settled)
    (hsilent : r.captureEvents = false) (hheld : ∀ x ∈ r.held, x.1 ≠ .placeholder) (s : Sample)
    {event : Option BusEvent} (hevent : ∀ e ∈ event, e ≠ .placeholder) :
    Balance r event.toList.length (r.losesEvent s event).toNat (r.tick s event).2 := by
  obtain ⟨es, hticked⟩ := ticked hholds hsettled s event
  obtain ⟨a, b, turned, framed, hturn, hframes, -, htick, hdone⟩ := hticked.flush
  have hline := hturn.held_takeIn (hsettled.fresh) event
  obtain ⟨htaken, hevents, hoverruns⟩ := hturn.accounted_takeIn hr.fresh hholds.fresh hsilent event
  change _ = r.accounted + event.toList.length at htaken
  change r.counts.overruns ≤ _ at hoverruns
  by_cases hwaits : a.phase = .waiting
  · obtain ⟨hquiet, hgoes⟩ := hturn.free hwaits
    have hphase : r.phase ≠ .overrun := by
      rintro hover
      simp [hover] at hgoes
    rw [if_pos (.inl hwaits)] at hline
    have hclassified : ∀ x ∈ (a.takeIn event).held, x.1 ≠ .placeholder := hline ▸ classified_line hheld hevent
    have hroomy := (hturn.roomy hr.fresh hholds.fresh).takeIn event
    have hsilent' : (a.takeIn event).captureEvents = false := by
      rw [takeIn_eq]
      exact hturn.captureEvents.trans hsilent
    rw [← phase_takeIn a event] at hwaits
    obtain ⟨hwaits', hkept, hsame⟩ | ⟨framed, lost, left, hdivided, hover, hframed, hbase, hkept, hsome⟩ :=
      hframes.balance hsilent' hroomy hwaits hclassified hdone
    · have hlost : r.losesEvent s event = false := by
        refine losesEvent_eq_false fun hover => ?_
        rw [htick] at hover
        cases hwaits'.symm.trans hover
      rw [hlost, htick]
      exact ⟨(hkept.trans htaken).symm, hsame ▸ hoverruns⟩
    · rw [hline] at hdivided
      have hlost : r.losesEvent s event = lost.isSome := by
        refine losesEvent_of_divided hdivided hquiet hphase ?_ ?_ ?_
        · rw [htick]
          exact hover
        · rw [htick]
          exact hframed.trans (congrArg (· + _) hevents)
        · rw [htick]
          exact hbase
      rw [hlost, htick]
      refine ⟨(hkept.trans htaken).symm, ?_⟩
      show r.counts.overruns + _ ≤ b.counts.overruns
      have := Bool.toNat_le lost.isSome
      omega
  · obtain ⟨-, rfl⟩ := hframes.eq_of_ne_waiting (by rwa [phase_takeIn])
    have hlost : r.losesEvent s event = false := by
      refine losesEvent_eq_false fun hover => ?_
      rw [htick] at hover
      exact hturn.active_of_overrun hsilent ((phase_takeIn a event).symm.trans hover)
    rw [hlost, htick]
    exact ⟨htaken.symm, hoverruns⟩

/-! ## A whole run -/

theorem losses_append (r : Recorder) (before later : List Action) :
    r.losses (before ++ later) = r.losses before + (r.after before).losses later := by
  induction before generalizing r with
  | nil => exact (Nat.zero_add _).symm
  | cons a before ih =>
    cases a with
    | tick s event =>
      rw [List.cons_append, losses, losses, ih, Nat.add_assoc]
      rfl
    | _ => exact ih _

variable {size : Nat} {r₀ : Recorder}

/-- What is held was passed in. -/
theorem held_sublist_passed {captureEvents : Bool} (h : create size captureEvents = .ok r₀) (actions : List Action) :
    (r₀.after actions).held.Sublist (passed 0 actions) := by
  obtain ⟨entries, haccount, -, -⟩ := account_of_invariant h (P := fun _ _ _ => True) trivial (fun _ _ _ _ => trivial)
    (fun _ _ _ => trivial) actions
  have hnow : ∀ before, (r₀.after before).now = (sampled before).length := fun before => by
    simpa using ((tracked_create h).1.after before).now
  obtain ⟨ring, -, rfl⟩ := create_eq h
  exact (List.sublist_append_right _ _).trans (haccount.heard rfl hnow)

/-- **Every event that was passed in is framed, dropped, held or lost**, and an overrun loses at most one. -/
structure Tallied (r₀ : Recorder) (actions : List Action) : Prop where
  count : (passed 0 actions).length = (r₀.after actions).counts.events + (r₀.after actions).counts.dropped +
    (r₀.after actions).held.length + r₀.losses actions
  overruns : r₀.losses actions ≤ (r₀.after actions).counts.overruns

/-- An action that is no tick passes no event in and loses none. -/
theorem Tallied.other {before : List Action} {a : Action} (h : Tallied r₀ before) (noTick : a.sample? = none) :
    Tallied r₀ (before ++ [a]) := by
  obtain ⟨hcount, hoverruns⟩ := h
  obtain ⟨ring, enabled, speed, hstep⟩ := (r₀.after before).step_of_noTick noTick
  have hpassed (n : Nat) : passed n [a] = [] := by
    cases a with
    | tick => cases noTick
    | _ => rfl
  have hlosses (r : Recorder) : r.losses [a] = 0 := by
    cases a with
    | tick => cases noTick
    | _ => rfl
  constructor
  · rw [passed_append, hpassed, List.append_nil, losses_append, hlosses, after_concat, hstep]
    exact hcount
  · rw [losses_append, hlosses, after_concat, hstep]
    exact hoverruns

theorem Tallied.tick {before : List Action} {s : Sample} {event : Option BusEvent} (h : Tallied r₀ before)
    (hbalance : Balance (r₀.after before) event.toList.length ((r₀.after before).losesEvent s event).toNat
      ((r₀.after before).tick s event).2) : Tallied r₀ (before ++ [.tick s event]) := by
  obtain ⟨hcount, hoverruns⟩ := h
  obtain ⟨haccounted, hmore⟩ := hbalance
  have hpassed : ∀ n, (passed n [.tick s event]).length = event.toList.length := fun n => by simp [passed]
  have hlosses : (r₀.after before).losses [.tick s event] = ((r₀.after before).losesEvent s event).toNat := rfl
  have hnext : (r₀.after before).step (.tick s event) = ((r₀.after before).tick s event).2 := rfl
  unfold accounted at haccounted
  constructor
  · rw [passed_append, List.length_append, hpassed, losses_append, hlosses, after_concat, hnext]
    omega
  · rw [losses_append, hlosses, after_concat, hnext]
    omega

/-- **No event but the one that finds no room goes uncounted**, whatever the user, the bus and the reader do. -/
theorem tallied_of_create (h : create size false = .ok r₀) (actions : List Action)
    (hclassified : ∀ x ∈ passed 0 actions, x.1 ≠ .placeholder) : r₀.Tallied actions := by
  induction actions using List.reverseRecOn with
  | nil =>
    obtain ⟨ring, -, rfl⟩ := create_eq h
    exact ⟨rfl, Nat.le_refl 0⟩
  | append_singleton before a ih =>
    rw [passed_append] at hclassified
    obtain ⟨hbefore, hnew⟩ := List.forall_mem_append.1 hclassified
    cases ha : a.sample? with
    | none => exact (ih hbefore).other ha
    | some s =>
      cases a with
      | tick s event =>
        obtain ⟨htracked, -, hsilent⟩ := tracked_create h
        obtain ⟨recs, hholds⟩ := (htracked.after before).holds
        obtain ⟨recs₀, hholds₀⟩ := htracked.holds
        have hevent : ∀ e ∈ event, e ≠ .placeholder := fun e he =>
          hnew (e, (sampled before).length) (by simp [passed, Option.mem_def.1 he])
        exact (ih hbefore).tick (balance_tick hholds (roomy_after h before) (settled_after h before)
          ((built_after hholds₀ before).2.trans hsilent)
          (fun x hx => hbefore x ((held_sublist_passed h before).subset hx)) s hevent)
      | _ => cases ha

/-- An event while nothing is captured, three between packets, and one more. -/
def eventsOnly : List Action :=
  .tick {} (some .vbusValid) :: armed ++ [.tick {} (some .fullAttach), .tick {} (some .reset), .tick {} (some .suspend),
    .tick {} (some .resume)]

/-- A ring of eight bytes has room for two of them: the first and the last are dropped, and the one between is lost. -/
theorem tallied_eventsOnly : ∃ r₀, create 8 false = .ok r₀ ∧ r₀.Tallied eventsOnly ∧
    (∀ x ∈ passed 0 eventsOnly, x.1 ≠ .placeholder) ∧ (passed 0 eventsOnly).length = 5 ∧
    (r₀.after eventsOnly).counts = { events := 2, overruns := 1, dropped := 2 } ∧ r₀.losses eventsOnly = 1 := by
  have hcreate : create 8 false = .ok { ring := { size := 8 }, captureEvents := false } := rfl
  have hclassified : ∀ x ∈ passed 0 eventsOnly, x.1 ≠ .placeholder := by decide
  exact ⟨_, hcreate, tallied_of_create hcreate eventsOnly hclassified, hclassified, by decide +kernel⟩

/-- **An event for whose record there is no room is counted nowhere**: two of three are framed, and none is dropped. -/
theorem uncounted_third : ∃ r₀, create 8 false = .ok r₀ ∧ ∃ actions,
    actions = armed ++ [.tick {} (some .reset), .tick {} (some .suspend), .tick {} (some .resume)] ∧
    (passed 0 actions).length ≠ (r₀.after actions).counts.events + (r₀.after actions).counts.dropped +
      (r₀.after actions).held.length := by
  refine ⟨{ ring := { size := 8 }, captureEvents := false }, rfl, _, rfl, ?_⟩
  decide +kernel

end Recorder
end UsbRecorder
