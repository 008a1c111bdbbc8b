import Mathlib.Data.List.Induction
import UsbRecorder.Proofs.Recorder.Reception
import UsbRecorder.Proofs.Recorder.Turns
/-!
# Account — the entries of a run, in the order in which they were framed

`Adds` says what the entries of one tick stand for: the records that were framed, the stretch of reception of a packet,
the events that were held or passed in.  `Account` puts the ticks of a run together, and `account_of_invariant` is the
induction over a run.
-/
namespace UsbRecorder
namespace Recorder

/-- The events passed in by actions, with their ticks; the first tick of the actions is `now`. -/
def passed (now : Nat) : List Action → List (BusEvent × Nat)
  | [] => []
  | .tick _ event :: rest => (event.toList.map fun e => (e, now)) ++ passed (now + 1) rest
  | _ :: rest => passed now rest

/-- **What a tick adds to the account of a recorder**, against the samples before the tick. -/
structure Adds (r : Recorder) (samples : List Sample) (s : Sample) (event : Option BusEvent) (es : List Entry)
    (r' : Recorder) : Prop where
  /-- the records of the entries are what was framed -/
  framed : r'.framed.reverse = es.filterMap Entry.framing?
  /-- a capture begins where the recorder was stopped and is enabled, and nothing is being received -/
  arming : es.filterMap Entry.arming? =
    if r.phase = .stopped ∧ r.enabled = true ∧ s.active = false then [r.now] else []
  boundary : ∀ e ∈ es, e.item.isBoundary = true → e.tick = r.now
  /-- a packet is a stretch of reception that ends now, and its tick is the first of the stretch -/
  packet : ∀ e ∈ es, ∀ payload, e.item = .packet payload → ∃ c : Reception, c.Whole (samples ++ [s]) ∧
    c.start = e.tick ∧ c.stop = r.now ∧ c.data (samples ++ [s]) = payload
  /-- the packet in progress comes first when it ends, and alone -/
  closes : r.phase = .capturing → s.active = false → ∃ payload rest,
    es = ⟨.packet payload, r.base, r.time⟩ :: rest ∧ Entry.OfEvents rest
  /-- of the held events the first ones are framed, in their order -/
  heard : es.filterMap Entry.heard? <+: r.held ++ r.accepted event
  /-- while a packet is in progress events are held, and nothing is framed -/
  goes : r'.phase = .capturing → es = [] ∧ r'.held = r.held ++ r.accepted event
  stays : r.phase = .capturing → r'.phase = .capturing → r'.base = r.base
  /-- when the recorder waits all of them have been framed -/
  waits : r'.phase = .waiting → es.filterMap Entry.heard? = r.held ++ r.accepted event
  free : r'.phase = .waiting → r.Free s
  /-- on a tick that is not free nothing is framed but a stop record, so no event behind a packet that is given up -/
  busy : ¬ r.Free s → ∀ e ∈ es, ∃ cause, e.item = .stopped cause
  idle : r'.phase ≠ .capturing → r'.held = []

/-- **The entries of a run**: those that its ticks add, one tick after the other. -/
inductive Account (r₀ : Recorder) : List Action → List Entry → Prop where
  | nil : Account r₀ [] []
  | tick {before : List Action} {entries es : List Entry} {s : Sample} {event : Option BusEvent}
      (account : Account r₀ before entries)
      (adds : Adds (r₀.after before) (sampled before) s event es ((r₀.after before).tick s event).2) :
      Account r₀ (before ++ [.tick s event]) (entries ++ es)
  | other {before : List Action} {entries : List Entry} {a : Action} (account : Account r₀ before entries)
      (noTick : a.sample? = none) : Account r₀ (before ++ [a]) entries

variable {r : Recorder} {payload : List UInt8} {s : Sample} {event : Option BusEvent} {es : List Entry} {r' : Recorder}
  {samples : List Sample}

/-! ## One tick -/

namespace Turn

/-- The entries are an arming and what is framed with it, a packet by itself, or events. -/
theorem entries (h : Turn r payload s es r') :
    (r.phase = .stopped ∧ r.enabled = true ∧ s.active = false) ∧
        (∃ rest, es = ⟨.armed, r.now, 0⟩ :: rest ∧ Entry.OfEvents rest) ∨
      (r.phase = .capturing ∧ s.active = false) ∧ es = [⟨.packet payload, r.base, r.time⟩] ∨
      (¬ (r.phase = .stopped ∧ r.enabled = true ∧ s.active = false) ∧ ¬ (r.phase = .capturing ∧ s.active = false)) ∧
        Entry.OfEvents es := by
  have hactive : s.active = true → ¬ (r.phase = .stopped ∧ r.enabled = true ∧ s.active = false) ∧
      ¬ (r.phase = .capturing ∧ s.active = false) := by
    rintro hactive
    simp [hactive]
  cases h with
  | still goes _ stopped =>
    refine .inr (.inr ⟨⟨fun ⟨hs, he, _⟩ => ?_, fun ⟨hc, _⟩ => goes hc⟩, nofun⟩)
    cases (stopped hs).symm.trans he
  | cleared goes _ quiet =>
    refine .inr (.inr ⟨⟨fun ⟨hs, _, ha⟩ => ?_, fun ⟨hc, _⟩ => goes hc⟩, nofun⟩)
    cases (quiet hs).symm.trans ha
  | armed phase enabled quiet frames => exact .inl ⟨⟨phase, enabled, quiet⟩, _, rfl, frames.ofEvents⟩
  | ended phase => exact .inr (.inr ⟨by simp [phase], ofEvents_stopEntries _ _⟩)
  | opened _ _ active => exact .inr (.inr ⟨hactive active, nofun⟩)
  | extended _ active => exact .inr (.inr ⟨hactive active, nofun⟩)
  | closed phase quiet => exact .inr (.inl ⟨⟨phase, quiet⟩, rfl⟩)
  | refused active => exact .inr (.inr ⟨hactive active, ofEvents_stopEntries _ _⟩)
  | overlong _ active => exact .inr (.inr ⟨hactive active, ofEvents_stopEntries _ _⟩)

theorem arming (h : Turn r payload s es r') : es.filterMap Entry.arming? =
    if r.phase = .stopped ∧ r.enabled = true ∧ s.active = false then [r.now] else [] := by
  rcases h.entries with ⟨hstarts, rest, rfl, hrest⟩ | ⟨⟨hphase, -⟩, rfl⟩ | ⟨⟨hstarts, -⟩, hevents⟩
  · have hfirst : (⟨.armed, r.now, 0⟩ :: rest).filterMap Entry.arming? = r.now :: rest.filterMap Entry.arming? :=
      List.filterMap_cons_some rfl
    rw [if_pos hstarts, hfirst, hrest.arming?_eq_nil]
  · rw [hphase]
    rfl
  · rw [if_neg hstarts, hevents.arming?_eq_nil]

theorem packet (h : Turn r payload s es r') {e : Entry} (he : e ∈ es) {data : List UInt8}
    (hitem : e.item = .packet data) :
    (r.phase = .capturing ∧ s.active = false) ∧ e = ⟨.packet payload, r.base, r.time⟩ := by
  rcases h.entries with ⟨-, rest, rfl, hrest⟩ | ⟨hcloses, rfl⟩ | ⟨-, hevents⟩
  · rcases List.mem_cons.1 he with rfl | he
    · cases hitem
    · exact absurd hitem (hrest.not_packet he data)
  · exact ⟨hcloses, List.mem_singleton.1 he⟩
  · exact absurd hitem (hevents.not_packet he data)

theorem eq_nil_of_capturing (h : Turn r payload s es r') (hphase : r'.phase = .capturing) : es = [] := by
  cases h with
  | armed _ _ _ frames =>
    obtain ⟨-, rfl⟩ := frames.eq_of_capturing hphase
    cases hphase
  | ended => cases hphase
  | closed => cases hphase
  | refused => cases (phase_overflow _).symm.trans hphase
  | overlong => cases (phase_overlong _).symm.trans hphase
  | _ => rfl

theorem base_of_capturing (h : Turn r payload s es r') (hphase : r.phase = .capturing)
    (hphase' : r'.phase = .capturing) : r'.base = r.base := by
  cases h with
  | still goes => exact absurd hphase goes
  | cleared => cases hphase'
  | armed phase => cases phase.symm.trans hphase
  | ended phase => cases phase.symm.trans hphase
  | opened phase => cases phase.symm.trans hphase
  | refused => cases (phase_overflow _).symm.trans hphase'
  | overlong => cases (phase_overlong _).symm.trans hphase'
  | _ => rfl

theorem boundary (h : Turn r payload s es r') : ∀ e ∈ es, e.item.isBoundary = true → e.tick = r.now := by
  cases h with
  | armed _ _ _ frames => exact List.forall_mem_cons.2 ⟨fun _ => rfl, frames.boundary⟩
  | closed => simp [Item.isBoundary]
  | ended =>
    intro e he _
    rw [mem_stopEntries he]
  | refused _ _ packet =>
    intro e he _
    rw [mem_stopEntries he]
    obtain ⟨rfl, -⟩ | ⟨rfl, -⟩ := packet
    · rfl
    · rfl
  | overlong =>
    intro e he _
    rw [mem_stopEntries he]
    rfl
  | _ => nofun

end Turn

namespace Ticked

/-- What is framed after a turn, taken together. -/
theorem flush (h : Ticked r payload s event es r') : ∃ a c turned framed,
    Turn { r with framed := [] } payload s turned a ∧ Frames (a.takeIn event) framed c ∧ es = turned ++ framed ∧
    r' = { c with now := c.now + 1 } ∧ (c.phase = .waiting → c.held = []) := by
  cases h with
  | tick turn flush done keep =>
    refine ⟨_, _, _, _, turn, flush.trans keep.frames, List.append_assoc _ _ _, rfl, fun hw => ?_⟩
    exact (keep.frames.held_eq_nil (done (keep.frames.waiting_of_waiting hw)).1).2

/-- **Where the events go**: they are held while a packet is in progress, and framed when the recorder waits. -/
theorem fate (h : Ticked r payload s event es r') (hr : r.Settled) :
    es.filterMap Entry.heard? <+: r.held ++ r.accepted event ∧
      (r'.phase = .capturing → r'.held = r.held ++ r.accepted event) ∧
      (r'.phase = .waiting → es.filterMap Entry.heard? = r.held ++ r.accepted event) ∧
      (r'.phase ≠ .capturing → r'.held = []) := by
  obtain ⟨a, c, turned, framed, hturn, hframes, rfl, rfl, hdone⟩ := h.flush
  have htaken := hturn.held_takeIn (hr.fresh) event
  have hfirst := hframes.heard_first
  rw [List.filterMap_append, hturn.heard, List.nil_append]
  refine ⟨?first, fun hc => ?goes, fun hw => ?waits, fun hne => ?idle⟩
  case first =>
    refine (List.prefix_append _ c.held).trans ?_
    rw [htaken] at hfirst
    split_ifs at hfirst
    · exact hfirst
    · exact hfirst.trans List.nil_prefix
  case goes =>
    obtain ⟨-, rfl⟩ := hframes.eq_of_capturing hc
    have hgoes : (a.takeIn event).phase = .capturing := hc
    rw [phase_takeIn] at hgoes
    exact htaken.trans (if_pos (.inr hgoes))
  case waits =>
    have hwait := hframes.waiting_of_waiting hw
    have hframed := hframes.heard hw
    rw [phase_takeIn] at hwait
    rw [hdone hw, List.append_nil, htaken, if_pos (.inl hwait)] at hframed
    exact hframed
  case idle =>
    by_cases hw : c.phase = .waiting
    · exact hdone hw
    · by_cases hwait : (a.takeIn event).phase = .waiting
      · exact hframes.held_of_overrun hwait hw
      · obtain ⟨-, rfl⟩ := hframes.eq_of_ne_waiting hwait
        have hgoes : (a.takeIn event).phase ≠ .capturing := hne
        rw [phase_takeIn] at hgoes hwait
        exact htaken.trans (if_neg (not_or.2 ⟨hwait, hgoes⟩))

theorem settled (h : Ticked r payload s event es r') (hr : r.Settled) : r'.Settled := by
  obtain ⟨-, -, -, hidle⟩ := h.fate hr
  obtain ⟨a, c, turned, framed, hturn, hframes, rfl, rfl, -⟩ := h.flush
  obtain ⟨hbase, hwithin, hsorted⟩ := hframes.lined ((hturn.lined (hr.fresh)).takeIn event)
  exact ⟨⟨Nat.le_succ_of_le hbase, fun x hx => ⟨(hwithin x hx).1, Nat.le_succ_of_le (hwithin x hx).2⟩, hsorted⟩, hidle⟩

/-- **A tick adds to the account what it frames.** -/
theorem adds (h : Ticked r ((samples.drop r.base).flatMap Sample.data) s event es r') (hr : r.Settled)
    (hnow : r.now = samples.length)
    (hunder : r.phase = .capturing → Reception.UnderWay ⟨r.base, samples.length⟩ samples) :
    Adds r samples s event es r' := by
  obtain ⟨hheard, hheld, hwaits, hidle⟩ := h.fate hr
  obtain ⟨a, c, turned, framed, hturn, hframes, rfl, rfl, -⟩ := h.flush
  have hitems := hframes.ofEvents
  have hfree (hw : c.phase = .waiting) : r.Free s := by
    refine hturn.free ?_
    rw [← phase_takeIn a event]
    exact hframes.waiting_of_waiting hw
  refine ⟨?framed, ?arming, ?boundary, ?packet, ?closes, hheard, fun hc => ⟨?goes, hheld hc⟩, ?stays, hwaits, hfree,
    ?busy, hidle⟩
  case framed =>
    show c.framed.reverse = _
    rw [hframes.framed, framed_takeIn, hturn.framed, List.append_nil, List.reverse_append, List.reverse_reverse,
      List.reverse_reverse, List.filterMap_append]
  case arming => rw [List.filterMap_append, hitems.arming?_eq_nil, List.append_nil, hturn.arming]
  case boundary =>
    intro e he hitem
    rcases List.mem_append.1 he with he | he
    · exact hturn.boundary e he hitem
    · rw [hframes.boundary e he hitem, now_takeIn, hturn.now]
  case packet =>
    intro e he data hitem
    rcases List.mem_append.1 he with he | he
    · obtain ⟨⟨hphase, hquiet⟩, rfl⟩ := hturn.packet he hitem
      cases hitem
      have hgoing := hunder hphase
      refine ⟨⟨r.base, samples.length⟩, hgoing.whole hquiet, rfl, hnow.symm, ?_⟩
      rw [Reception.data_append hgoing, Reception.data_of_stop_eq rfl]
    · exact absurd hitem (hitems.not_packet he data)
  case closes =>
    intro hphase hquiet
    rcases hturn.entries with ⟨⟨hstop, -⟩, -⟩ | ⟨-, rfl⟩ | ⟨⟨-, hgoes⟩, -⟩
    · cases hphase.symm.trans hstop
    · exact ⟨_, framed, rfl, hitems⟩
    · exact absurd ⟨hphase, hquiet⟩ hgoes
  case goes =>
    obtain ⟨rfl, rfl⟩ := hframes.eq_of_capturing hc
    have hgoes : (a.takeIn event).phase = .capturing := hc
    rw [phase_takeIn] at hgoes
    rw [hturn.eq_nil_of_capturing hgoes]
    rfl
  case stays =>
    intro hphase hc
    obtain ⟨-, rfl⟩ := hframes.eq_of_capturing hc
    have hgoes : (a.takeIn event).phase = .capturing := hc
    rw [phase_takeIn] at hgoes
    exact (base_takeIn a event).trans (hturn.base_of_capturing hphase hgoes)
  case busy =>
    intro hbusy
    obtain ⟨rfl, -⟩ := hframes.eq_of_ne_waiting fun hw => hbusy (hturn.free (by rwa [phase_takeIn] at hw))
    rw [List.append_nil]
    exact hturn.busy hbusy

end Ticked

/-! ## A whole run -/

theorem step_of_noTick (r : Recorder) {a : Action} (h : a.sample? = none) :
    ∃ ring enabled speed, r.step a = { r with ring, enabled, speed } := by
  cases a with
  | tick => cases h
  | enable on => exact ⟨r.ring, on, r.speed, rfl⟩
  | setSpeed speed => exact ⟨r.ring, r.enabled, speed, rfl⟩
  | take => exact ⟨r.ring.take.2, r.enabled, r.speed, rfl⟩

theorem after_concat (r : Recorder) (before : List Action) (a : Action) :
    r.after (before ++ [a]) = (r.after before).step a := after_append r before [a]

theorem sampled_concat (before : List Action) (a : Action) :
    sampled (before ++ [a]) = sampled before ++ a.sample?.toList := by
  rw [sampled, List.filterMap_append]
  cases a <;> rfl

theorem Tracked.ticked {framings : List Framing} (h : Tracked r samples framings) (hr : r.Settled) (s : Sample)
    (event : Option BusEvent) : ∃ es,
      Ticked r ((samples.drop r.base).flatMap Sample.data) s event es (r.tick s event).2 ∧
      Adds r samples s event es (r.tick s event).2 := by
  obtain ⟨recs, hholds⟩ := h.holds
  obtain ⟨es, hticked⟩ := Recorder.ticked hholds hr s event
  exact ⟨es, hticked, hticked.adds hr h.now h.capturing⟩

variable {size : Nat} {captureEvents : Bool} {r₀ : Recorder} {entries : List Entry}

/-- **The induction over a run**: it has an account, and keeps what its ticks keep. -/
theorem account_of_invariant (h : create size captureEvents = .ok r₀)
    {P : Recorder → List Sample → List Entry → Prop} (start : P r₀ [] [])
    (tick : ∀ {r samples framings entries s event es}, Tracked r samples framings → r.Settled →
      Ticked r ((samples.drop r.base).flatMap Sample.data) s event es (r.tick s event).2 → P r samples entries →
      P (r.tick s event).2 (samples ++ [s]) (entries ++ es))
    (other : ∀ {r samples entries} a, a.sample? = none → P r samples entries → P (r.step a) samples entries)
    (actions : List Action) : ∃ entries, Account r₀ actions entries ∧ (r₀.after actions).Settled ∧
      P (r₀.after actions) (sampled actions) entries := by
  obtain ⟨hstart, -, -⟩ := tracked_create h
  induction actions using List.reverseRecOn with
  | nil =>
    obtain ⟨ring, -, rfl⟩ := create_eq h
    exact ⟨[], .nil, ⟨lined_of_held_nil (Nat.le_refl 0) rfl, fun _ => rfl⟩, start⟩
  | append_singleton before a ih =>
    obtain ⟨entries, haccount, hsettled, hkept⟩ := ih
    have htracked := hstart.after before
    rw [List.nil_append, List.nil_append] at htracked
    rw [after_concat, sampled_concat]
    cases ha : a.sample? with
    | none =>
      have hnext := other a ha hkept
      obtain ⟨ring, enabled, speed, hstep⟩ := (r₀.after before).step_of_noTick ha
      rw [hstep] at hnext ⊢
      rw [Option.toList_none, List.append_nil]
      exact ⟨entries, .other haccount ha, hsettled.of_eq rfl rfl rfl rfl, hnext⟩
    | some s =>
      obtain ⟨event, rfl⟩ : ∃ event, a = .tick s event := by
        cases a with
        | tick s' event =>
          cases ha
          exact ⟨event, rfl⟩
        | _ => cases ha
      obtain ⟨es, hticked, hadds⟩ := htracked.ticked hsettled s event
      exact ⟨entries ++ es, .tick haccount hadds, hticked.settled hsettled, tick htracked hsettled hticked hkept⟩

theorem settled_after (h : create size captureEvents = .ok r₀) (actions : List Action) :
    (r₀.after actions).Settled := by
  obtain ⟨-, -, hsettled, -⟩ := account_of_invariant h (P := fun _ _ _ => True) trivial (fun _ _ _ _ => trivial)
    (fun _ _ _ => trivial) actions
  exact hsettled

theorem adds_of_create (h : create size captureEvents = .ok r₀) (before : List Action) (s : Sample)
    (event : Option BusEvent) :
    ∃ es, Adds (r₀.after before) (sampled before) s event es (r₀.after (before ++ [.tick s event])) := by
  obtain ⟨es, -, hadds⟩ := ((tracked_create h).1.after before).ticked (settled_after h before) s event
  rw [after_concat]
  exact ⟨es, hadds⟩

theorem Adds.framings (h : Adds r samples s event es (r.tick s event).2) :
    r.framings [.tick s event] = es.filterMap Entry.framing? := by
  rw [← h.framed, Recorder.framings, Recorder.framings, List.append_nil]

theorem Account.framings {actions : List Action} (h : Account r₀ actions entries) :
    r₀.framings actions = entries.filterMap Entry.framing? := by
  induction h with
  | nil => rfl
  | tick _ adds ih =>
    rw [framings_append, ih, List.filterMap_append, adds.framings]
  | @other before entries a _ noTick ih =>
    rw [framings_append, ih]
    cases a with
    | tick => cases noTick
    | _ => simp [Recorder.framings]

theorem passed_append (now : Nat) (before later : List Action) :
    passed now (before ++ later) = passed now before ++ passed (now + (sampled before).length) later := by
  induction before generalizing now with
  | nil => rfl
  | cons a before ih =>
    cases a with
    | tick s event =>
      have hlen : (sampled (.tick s event :: before)).length = 1 + (sampled before).length := by
        simp [sampled_cons, Action.sample?, Nat.add_comm]
      rw [List.cons_append, passed, ih, passed, hlen, List.append_assoc, Nat.add_assoc]
    | _ => exact ih now

theorem accepted_sublist (r : Recorder) (s : Sample) (event : Option BusEvent) :
    (r.accepted event).Sublist (passed r.now [.tick s event]) := by
  rw [passed, passed, List.append_nil]
  unfold accepted
  split_ifs
  · exact List.Sublist.refl _
  · exact List.nil_sublist _

/-- **The events that are framed or held were passed in, in that order.** -/
theorem Account.heard {actions : List Action} (h : Account r₀ actions entries) (hempty : r₀.held = [])
    (hnow : ∀ before, (r₀.after before).now = (sampled before).length) :
    (entries.filterMap Entry.heard? ++ (r₀.after actions).held).Sublist (passed 0 actions) := by
  induction h with
  | nil => exact hempty ▸ List.nil_sublist _
  | @tick before entries es s event account adds ih =>
    rw [passed_append, Nat.zero_add, ← hnow before, after_concat, List.filterMap_append, List.append_assoc]
    have hnew : (es.filterMap Entry.heard? ++ ((r₀.after before).tick s event).2.held).Sublist
        ((r₀.after before).held ++ passed (r₀.after before).now [.tick s event]) := by
      refine List.Sublist.trans ?_ (List.Sublist.append_left (accepted_sublist _ s event) _)
      by_cases hc : ((r₀.after before).tick s event).2.phase = .capturing
      · obtain ⟨hes, hheld⟩ := adds.goes hc
        rw [hes, hheld]
        exact List.Sublist.refl _
      · rw [adds.idle hc, List.append_nil]
        exact adds.heard.sublist
    refine (List.Sublist.append_left hnew _).trans ?_
    rw [← List.append_assoc]
    exact List.Sublist.append_right ih _
  | @other before entries a account noTick ih =>
    obtain ⟨ring, enabled, speed, hstep⟩ := (r₀.after before).step_of_noTick noTick
    rw [after_concat, hstep, passed_append]
    exact ih.trans (List.sublist_append_left _ _)

end Recorder
end UsbRecorder
