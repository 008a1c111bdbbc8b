import UsbRecorder.Proofs.Recorder.Account
/-!
# Dated — the ticks and the times of the entries of a run

`Told` says of an entry, from those before it, how its tick and its time follow from them.  Placeholders keep events in
range of the item before them.  They do so for packets as far as the ticks without reception allow, for between packets
each such tick frames one placeholder at most: `Behind` counts them.
-/
namespace UsbRecorder
namespace Recorder

/-- The ticks without reception, from one tick on and before another. -/
def quiet (samples : List Sample) (start stop : Nat) : Nat := ((samples.take stop).drop start).countP fun s => !s.active

/-- The entry framed last that is no placeholder. -/
def anchor? (entries : List Entry) : Option Entry := (entries.filter fun e => e.item ≠ .placeholder).getLast?

/-- **An entry right after another one.** -/
structure Follows (prev e : Entry) : Prop where
  le : prev.tick ≤ e.tick
  /-- a packet comes later than everything before it -/
  lt : ∀ payload, e.item = .packet payload → prev.tick < e.tick
  mark : e.item = .placeholder → e.tick = prev.tick + span
  /-- an event, but for a stop, is in range -/
  near : ∀ event, e.item.event? = some event → (∀ cause, e.item ≠ .stopped cause) → e.tick ≤ prev.tick + span
  time : e.item ≠ .armed → (∀ cause, e.item ≠ .stopped cause) →
    e.time = UInt16.ofNat (min (e.tick - prev.tick - 1) Record.maxTime)

/-- **An entry after those before it**, in a run with the samples so far. -/
structure Told (samples : List Sample) (before : List Entry) (e : Entry) : Prop where
  past : e.tick ≤ samples.length
  first : before = [] → e.item = .armed
  follows : ∀ prev ∈ before.getLast?, Follows prev e
  /-- a packet is in range as far as the ticks without reception were enough to bring it there -/
  packet : ∀ payload, e.item = .packet payload → ∃ prev m, before.getLast? = some prev ∧ anchor? before = some m ∧
    (e.tick ≤ prev.tick + span ↔ e.tick ≤ m.tick + span * (quiet samples m.tick e.tick + 1))

def Chronicle (samples : List Sample) (entries : List Entry) : Prop :=
  ∀ before e, before ++ [e] <+: entries → Told samples before e

/-- **A recorder against the entries so far**: time is counted from the entry framed last, while a packet is in progress
from its first tick. -/
structure Dated (r : Recorder) (samples : List Sample) (entries : List Entry) : Prop where
  now : r.now = samples.length
  told : Chronicle samples entries
  last_le : ∀ e ∈ entries.getLast?, e.tick ≤ r.now
  waiting : r.phase = .waiting → ∃ e, entries.getLast? = some e ∧ e.tick = r.base
  capturing : r.phase = .capturing → ∀ payload, Told samples entries ⟨.packet payload, r.base, r.time⟩

/-- **How far the time base is behind**: by no more than one placeholder for each tick without reception. -/
def Behind (r : Recorder) (samples : List Sample) (entries : List Entry) : Prop :=
  ∃ m marks, anchor? entries = some m ∧ m.tick ≤ r.now ∧ r.base = m.tick + span * marks ∧
    marks ≤ quiet samples m.tick samples.length ∧
    (r.now ≤ r.base + span ∨ quiet samples m.tick samples.length ≤ marks)

variable {r r' : Recorder} {samples : List Sample} {entries es : List Entry} {payload : List UInt8} {s : Sample}
  {event : Option BusEvent}

/-! ## Ticks without reception -/

theorem quiet_append {stop : Nat} (hstop : stop ≤ samples.length) (more : List Sample) (start : Nat) :
    quiet (samples ++ more) start stop = quiet samples start stop := by
  unfold quiet
  rw [List.take_append_of_le_length hstop]

theorem quiet_concat {start : Nat} (hstart : start ≤ samples.length) (s : Sample) :
    quiet (samples ++ [s]) start (samples.length + 1) =
      quiet samples start samples.length + if s.active then 0 else 1 := by
  unfold quiet
  rw [List.take_length, List.take_of_length_le (by simp), List.drop_append_of_le_length hstart, List.countP_append]
  cases hactive : s.active <;> simp [hactive]

theorem quiet_eq_zero {start : Nat}
    (h : ∀ i s, start ≤ i → i < samples.length → samples[i]? = some s → s.active = true) :
    quiet samples start samples.length = 0 := by
  unfold quiet
  rw [List.take_length, List.countP_eq_zero]
  intro s hs
  obtain ⟨i, hi, rfl⟩ := List.mem_iff_getElem.1 hs
  rw [List.length_drop] at hi
  have := h (start + i) _ (Nat.le_add_right _ _) (by omega) (List.getElem?_eq_getElem (by omega))
  simpa using this

/-! ## One entry more -/

theorem anchor?_concat (entries : List Entry) (e : Entry) :
    anchor? (entries ++ [e]) = if e.item = .placeholder then anchor? entries else some e := by
  unfold anchor?
  rw [List.filter_append]
  by_cases h : e.item = .placeholder <;> simp [h]

theorem anchor?_of_getLast? {e : Entry} (h : entries.getLast? = some e) (hitem : e.item ≠ .placeholder) :
    anchor? entries = some e := by
  obtain ⟨before, rfl⟩ := List.getLast?_eq_some_iff.1 h
  rw [anchor?_concat, if_neg hitem]

theorem Told.append {e : Entry} (h : Told samples entries e) (more : List Sample) :
    Told (samples ++ more) entries e := by
  obtain ⟨hpast, hfirst, hfollows, hpacket⟩ := h
  refine ⟨?_, hfirst, hfollows, fun payload he => ?_⟩
  · rw [List.length_append]
    omega
  · obtain ⟨prev, m, hlast, hanchor, hrange⟩ := hpacket payload he
    rw [← quiet_append hpast more] at hrange
    exact ⟨prev, m, hlast, hanchor, hrange⟩

theorem Chronicle.concat {e : Entry} (h : Chronicle samples entries) (he : Told samples entries e) :
    Chronicle samples (entries ++ [e]) := by
  intro before e' hsplit
  rcases List.prefix_concat_iff.1 hsplit with hsame | hold
  · obtain ⟨rfl, hlast⟩ := List.append_inj' hsame rfl
    cases hlast
    exact he
  · exact h before e' hold

namespace Dated

theorem of_eq (h : Dated r samples entries) (hnow : r'.now = r.now) (hphase : r'.phase = r.phase)
    (hbase : r'.base = r.base) (htime : r'.time = r.time) : Dated r' samples entries := by
  obtain ⟨hsamples, htold, hlast, hwaiting, hcapturing⟩ := h
  exact ⟨hnow.trans hsamples, htold, by rwa [hnow], by rwa [hphase, hbase], by rwa [hphase, hbase, htime]⟩

/-- What is due while the recorder waits follows what is there. -/
theorem told_due (h : Dated r samples entries) (hlined : r.Lined) (hphase : r.phase = .waiting) {item : Item}
    {e : BusEvent} {tick : Nat} {held : List (BusEvent × Nat)} (isEvent : item.event? = some e)
    (due : r.Due item tick held) :
    Told samples entries ⟨item, tick, r.gapBefore tick⟩ := by
  obtain ⟨prev, hlast, hprev⟩ := h.waiting hphase
  obtain ⟨hreach, hnear, hpast⟩ := due.within hlined
  have hpacket : ∀ payload, item ≠ .packet payload := by
    rintro payload rfl
    cases isEvent
  refine ⟨?past, ?first, ?follows, fun payload hitem => absurd hitem (hpacket payload)⟩
  case past => exact h.now ▸ hpast
  case first =>
    rintro rfl
    cases hlast
  case follows =>
    intro prev' hprev'
    rw [hlast] at hprev'
    cases hprev'
    rw [← hprev] at hreach hnear
    refine ⟨hreach, fun payload hitem => absurd hitem (hpacket payload), fun hitem => ?_, fun _ _ _ => hnear,
      fun _ _ => ?_⟩
    · rw [hprev]
      cases due with
      | gap => rfl
      | start => cases hitem
      | event => cases hitem
    · rw [hprev]
      rfl

/-- A stop ends the account of a capture. -/
theorem stopped (h : Dated r samples entries) (hgoes : r.phase = .waiting ∨ r.phase = .capturing) {a : Recorder}
    (ha : a.now = r.now) (cause : StopCause) (hnow : r'.now = r.now) (hwait : r'.phase ≠ .waiting)
    (hcapture : r'.phase ≠ .capturing) : Dated r' samples (entries ++ a.stopEntries cause) := by
  have hsome : entries ≠ [] := by
    rintro rfl
    rcases hgoes with hphase | hphase
    · obtain ⟨e, hlast, -⟩ := h.waiting hphase
      cases hlast
    · cases (h.capturing hphase []).first rfl
  by_cases hstop : a.captureEvents = true ∧ a.ring.fits Record.eventSize = true
  · have hentries : a.stopEntries cause = [⟨.stopped cause, a.now, a.gapBefore a.now⟩] := if_pos hstop
    have htold : Told samples entries ⟨.stopped cause, a.now, a.gapBefore a.now⟩ := by
      refine ⟨?_, fun hnone => absurd hnone hsome, fun prev hprev => ?_, nofun⟩
      · exact Nat.le_of_eq (ha.trans h.now)
      · exact ⟨ha ▸ h.last_le prev hprev, nofun, nofun, fun _ _ hne => absurd rfl (hne cause),
          fun _ hne => absurd rfl (hne cause)⟩
    rw [hentries]
    refine ⟨hnow.trans h.now, h.told.concat htold, fun e he => ?_, fun hw => absurd hw hwait,
      fun hc => absurd hc hcapture⟩
    rw [List.getLast?_concat] at he
    cases he
    exact Nat.le_of_eq (ha.trans hnow.symm)
  · have hentries : a.stopEntries cause = [] := if_neg hstop
    rw [hentries, List.append_nil]
    exact ⟨hnow.trans h.now, h.told, by rw [hnow]; exact h.last_le, fun hw => absurd hw hwait,
      fun hc => absurd hc hcapture⟩

theorem behind_of_last (h : Dated r samples entries) (hphase : r.phase = .waiting)
    (hlast : ∀ e, entries.getLast? = some e → e.item ≠ .placeholder ∧ quiet samples e.tick samples.length = 0) :
    Behind r samples entries := by
  obtain ⟨e, he, htick⟩ := h.waiting hphase
  obtain ⟨hitem, hquiet⟩ := hlast e he
  exact ⟨e, 0, anchor?_of_getLast? he hitem, h.last_le e he, htick.symm, Nat.zero_le _, .inr (Nat.le_of_eq hquiet)⟩

/-- A packet that begins now follows what is there. -/
theorem told_packet (h : Dated r samples entries) (hphase : r.phase = .waiting)
    (hlast_lt : ∀ e ∈ entries.getLast?, e.tick < r.now) (hbehind : Behind r samples entries) (payload : List UInt8) :
    Told samples entries ⟨.packet payload, r.now, r.gapBefore r.now⟩ := by
  obtain ⟨prev, hlast, hprev⟩ := h.waiting hphase
  obtain ⟨m, marks, hanchor, -, hbase, hmarks, hnear⟩ := hbehind
  have hlt := hlast_lt prev hlast
  refine ⟨Nat.le_of_eq h.now, ?first, ?follows, fun _ _ => ⟨prev, m, hlast, hanchor, ?range⟩⟩
  case first =>
    rintro rfl
    cases hlast
  case follows =>
    intro prev' hprev'
    rw [hlast] at hprev'
    cases hprev'
    refine ⟨Nat.le_of_lt hlt, fun _ _ => hlt, nofun, nofun, fun _ _ => ?_⟩
    rw [hprev]
    rfl
  case range =>
    have hmono := Nat.mul_le_mul_left span hmarks
    show r.now ≤ prev.tick + span ↔ r.now ≤ m.tick + span * (quiet samples m.tick r.now + 1)
    rw [hprev, hbase, h.now, Nat.mul_succ]
    rw [hbase, h.now] at hnear
    refine ⟨fun hin => by omega, fun hin => ?_⟩
    rcases hnear with hnear | hquiet
    · exact hnear
    · have := Nat.mul_le_mul_left span hquiet
      omega

end Dated

theorem Frames.dated {a b : Recorder} (h : Frames a es b) (hlined : a.Lined) (hd : Dated a samples entries) :
    Dated b samples (entries ++ es) := by
  induction h generalizing entries with
  | done =>
    rw [List.append_nil]
    exact hd
  | frame phase _ isEvent due _ ih =>
    have htold := hd.told_due hlined phase isEvent due
    rw [List.append_cons]
    refine ih (due.lined hlined _) ⟨hd.now, hd.told.concat htold, fun e he => ?_,
      fun _ => ⟨_, List.getLast?_concat, rfl⟩, ?_⟩
    · rw [List.getLast?_concat] at he
      cases he
      exact (due.within hlined).2.2
    · intro hc
      cases phase.symm.trans hc
  | @full r _ _ held phase =>
    refine hd.stopped (.inl phase) (a := r.withdrawn) rfl .full (now_overflow _) ?_ ?_
    · rw [phase_overflow]
      decide
    · rw [phase_overflow]
      decide

theorem Chronicle.follows_of_split (h : Chronicle samples entries) {before after : List Entry} {prev e : Entry}
    (hsplit : entries = before ++ prev :: e :: after) : Follows prev e := by
  subst hsplit
  refine (h (before ++ [prev]) e ⟨after, by simp⟩).follows prev ?_
  rw [List.getLast?_concat]
  rfl

/-! ## One tick more -/

/-- **A recorder between two ticks, against the entries so far.** -/
structure Current (r : Recorder) (samples : List Sample) (entries : List Entry) : Prop
    extends Dated r samples entries where
  last_lt : ∀ e ∈ entries.getLast?, e.tick < r.now
  behind : r.phase = .waiting → Behind r samples entries

theorem Turn.dated (h : Turn r payload s es r') (hr : r.Settled) (hc : Current r samples entries)
    (hunder : r.phase = .capturing → Reception.UnderWay ⟨r.base, samples.length⟩ samples) :
    Dated r' samples (entries ++ es) ∧ (r'.phase = .waiting → Behind r' samples (entries ++ es)) := by
  have hbounds := h.boundary
  have hnow := h.now
  cases h with
  | still =>
    rw [List.append_nil]
    exact ⟨hc.toDated, hc.behind⟩
  | cleared =>
    rw [List.append_nil]
    exact ⟨⟨hc.now, hc.told, hc.last_le, nofun, nofun⟩, nofun⟩
  | @armed es _ _ _ _ frames starts =>
    have harm : Told samples entries ⟨.armed, r.now, 0⟩ :=
      ⟨Nat.le_of_eq hc.now, fun _ => rfl,
        fun prev hprev => ⟨hc.last_le prev hprev, nofun, nofun, nofun, fun hne => absurd rfl hne⟩, nofun⟩
    have hbegun : Dated { r.discard with base := r.now, phase := .waiting } samples
        (entries ++ [⟨.armed, r.now, 0⟩]) := by
      refine ⟨hc.now, hc.told.concat harm, fun e he => ?_, fun _ => ⟨_, List.getLast?_concat, rfl⟩, nofun⟩
      rw [List.getLast?_concat] at he
      cases he
      exact Nat.le_refl _
    have hdated := frames.dated (lined_of_held_nil (Nat.le_refl _) rfl) hbegun
    rw [← List.append_cons] at hdated
    refine ⟨hdated, fun hw => hdated.behind_of_last hw fun e he => ?_⟩
    have hmem : e ∈ (⟨.armed, r.now, 0⟩ : Entry) :: es := by
      rw [List.getLast?_append_of_ne_nil _ (List.cons_ne_nil _ _)] at he
      exact List.mem_of_getLast? he
    have hitem : e.item.isBoundary = true := by
      rcases List.mem_cons.1 hmem with rfl | hmem
      · rfl
      · obtain ⟨setting, hstart⟩ := starts hw e hmem
        rw [hstart]
        rfl
    refine ⟨fun hmark => ?_, ?_⟩
    · rw [hmark] at hitem
      cases hitem
    · rw [hbounds e hmem hitem, hc.now]
      exact quiet_eq_zero fun i s hi hlt _ => absurd hlt (Nat.not_lt.2 hi)
  | ended phase => exact ⟨hc.stopped (.inl phase) rfl .requested hnow nofun nofun, nofun⟩
  | opened phase =>
    rw [List.append_nil]
    exact ⟨⟨hc.now, hc.told, hc.last_le, nofun, fun _ => hc.told_packet phase hc.last_lt (hc.behind phase)⟩, nofun⟩
  | extended phase =>
    rw [List.append_nil]
    refine ⟨hc.of_eq rfl rfl rfl rfl, fun hw => ?_⟩
    cases phase.symm.trans hw
  | closed phase =>
    have htold := hc.capturing phase payload
    have hdated : Dated r.closePacket samples (entries ++ [⟨.packet payload, r.base, r.time⟩]) := by
      refine ⟨hc.now, hc.told.concat htold, fun e he => ?_, fun _ => ⟨_, List.getLast?_concat, rfl⟩, nofun⟩
      rw [List.getLast?_concat] at he
      cases he
      exact hr.base_le
    refine ⟨hdated, fun hw => hdated.behind_of_last hw fun e he => ?_⟩
    rw [List.getLast?_concat] at he
    cases he
    exact ⟨nofun, quiet_eq_zero (hunder phase).during⟩
  | @refused a _ _ packet =>
    rw [phase_overflow]
    obtain ⟨rfl, hphase⟩ | ⟨rfl, hphase, -⟩ := packet
    · refine ⟨hc.stopped hphase (a := a.withdrawn) rfl .full hnow ?_ ?_, nofun⟩ <;> rw [phase_overflow] <;> decide
    · refine ⟨hc.stopped (.inl hphase) (a := r.opened.withdrawn) rfl .full hnow ?_ ?_, nofun⟩ <;> rw [phase_overflow] <;>
        decide
  | overlong phase =>
    rw [phase_overlong]
    refine ⟨hc.stopped (.inr phase) (a := r.withdrawn) rfl .error hnow ?_ ?_, nofun⟩ <;> rw [phase_overlong] <;> decide

/-- The ticks from that of a held event on are ticks of reception. -/
theorem Turn.held_quiet (h : Turn r payload s es r') (hr : r.Settled) (hnow : r.now = samples.length)
    (hunder : r.phase = .capturing → Reception.UnderWay ⟨r.base, samples.length⟩ samples) (event : Option BusEvent) :
    ∀ x ∈ (r'.takeIn event).held, quiet samples x.2 samples.length = 0 := by
  obtain ⟨new, hheld, hnew⟩ := r'.exists_held_takeIn event
  intro x hx
  rw [hheld, h.held hr] at hx
  rcases List.mem_append.1 hx with hx | hx
  · split_ifs at hx
    · by_cases hphase : r.phase = .capturing
      · exact quiet_eq_zero fun i s hi => (hunder hphase).during i s (Nat.le_trans (hr.within x hx).1 hi)
      · rw [hr.idle hphase] at hx
        cases hx
    · cases hx
  · rw [hnew x hx, h.now, hnow]
    exact quiet_eq_zero fun i s hi hlt _ => absurd hlt (Nat.not_lt.2 hi)

/-- **A tick without reception keeps up**: one placeholder is framed where one is due. -/
theorem Behind.keep {b c : Recorder} (h : Behind b samples entries) (hd : Dated b samples entries) (keep : Keeps b es c)
    (hphase : c.phase = .waiting) (hquiet : s.active = false) :
    Behind { c with now := c.now + 1 } (samples ++ [s]) (entries ++ es) := by
  obtain ⟨m, marks, hanchor, hle, hbase, hmarks, hnear⟩ := h
  have hcount : quiet (samples ++ [s]) m.tick (samples ++ [s]).length = quiet samples m.tick samples.length + 1 := by
    rw [List.length_append, List.length_singleton, quiet_concat (hd.now ▸ hle), hquiet]
    rfl
  cases keep with
  | early early =>
    rw [List.append_nil]
    refine ⟨m, marks, hanchor, Nat.le_succ_of_le hle, hbase, ?_, .inl (early hphase)⟩
    rw [hcount]
    exact Nat.le_succ_of_le hmarks
  | due _ elapsed frames marked =>
    obtain ⟨rfl, hbase'⟩ := marked hphase
    have hnow := frames.now
    refine ⟨m, marks + 1, ?_, ?_, ?_, ?_, ?_⟩
    · rw [anchor?_concat, if_pos rfl]
      exact hanchor
    · show m.tick ≤ c.now + 1
      omega
    · show c.base = _
      rw [hbase', hbase, Nat.mul_succ, Nat.add_assoc]
    · rw [hcount]
      exact Nat.succ_le_succ hmarks
    · rw [hcount]
      show c.now + 1 ≤ c.base + span ∨ _
      rw [hnow, hbase']
      have : 0 < span := by decide
      omega

theorem Dated.takeIn (h : Dated r samples entries) (event : Option BusEvent) :
    Dated (r.takeIn event) samples entries := by
  rw [takeIn_eq]
  exact h.of_eq rfl rfl rfl rfl

theorem Behind.takeIn (h : Behind r samples entries) (event : Option BusEvent) :
    Behind (r.takeIn event) samples entries := by
  rw [takeIn_eq]
  exact h

theorem Dated.clock (h : Dated r samples entries) (s : Sample) :
    Dated { r with now := r.now + 1 } (samples ++ [s]) entries := by
  refine ⟨?_, fun before e he => (h.told before e he).append [s], fun e he => Nat.le_succ_of_le (h.last_le e he),
    h.waiting, fun hc payload => (h.capturing hc payload).append [s]⟩
  show r.now + 1 = (samples ++ [s]).length
  rw [h.now, List.length_append, List.length_singleton]

/-- **A tick keeps the account told.** -/
theorem Ticked.current (h : Ticked r payload s event es r') (hr : r.Settled) (hc : Current r samples entries)
    (hunder : r.phase = .capturing → Reception.UnderWay ⟨r.base, samples.length⟩ samples) :
    Current r' (samples ++ [s]) (entries ++ es) := by
  cases h with
  | @tick a b c turned flushed kept turn flush done keep =>
    have hc' : Current { r with framed := [] } samples entries := ⟨hc.of_eq rfl rfl rfl rfl, hc.last_lt, hc.behind⟩
    obtain ⟨hturned, hbehind⟩ := turn.dated hr.fresh hc' hunder
    have htaken := hturned.takeIn event
    have hlined := (turn.lined hr.fresh).takeIn event
    have hflushed := flush.dated hlined htaken
    have hkept := keep.frames.dated (flush.lined hlined) hflushed
    rw [← List.append_assoc, ← List.append_assoc]
    refine ⟨hkept.clock s, fun e he => Nat.lt_succ_of_le (hkept.last_le e he), fun hw => ?_⟩
    have hwait := keep.frames.waiting_of_waiting hw
    have hturning : a.phase = .waiting := by
      rw [← phase_takeIn a event]
      exact flush.waiting_of_waiting hwait
    refine Behind.keep ?_ hflushed keep hw (turn.free hturning).1
    -- either nothing was framed, or the last entry is about an event that was held
    cases hlast : flushed.getLast? with
    | none =>
      rw [List.getLast?_eq_none_iff] at hlast
      subst hlast
      rw [List.append_nil, flush.eq_of_nil hwait]
      exact (hbehind hturning).takeIn event
    | some e =>
      refine hflushed.behind_of_last hwait fun e' he' => ?_
      rw [List.getLast?_append, hlast, Option.some_or] at he'
      cases he'
      have hheard := (done hwait).2 e hlast
      obtain ⟨x, hx⟩ := Option.isSome_iff_exists.1 hheard
      obtain ⟨hitem, htick⟩ : e.item ≠ .placeholder ∧ x.2 = e.tick := by
        obtain ⟨item, tick, time⟩ := e
        cases item <;> cases hx
        exact ⟨nofun, rfl⟩
      have hmem : x ∈ flushed.filterMap Entry.heard? := List.mem_filterMap.2 ⟨e, List.mem_of_getLast? hlast, hx⟩
      have hheld := ((List.prefix_append _ _).trans flush.heard_first).subset hmem
      rw [← htick]
      exact ⟨hitem, turn.held_quiet hr.fresh hc.now hunder event x hheld⟩

/-- **Every run has an account that is told**, entry by entry. -/
theorem account_of_create {size : Nat} {captureEvents : Bool} {r₀ : Recorder} (h : create size captureEvents = .ok r₀)
    (actions : List Action) : ∃ entries, Account r₀ actions entries ∧ (r₀.after actions).Settled ∧
      Current (r₀.after actions) (sampled actions) entries := by
  refine account_of_invariant h ?start (fun htracked hr hticked hc => hticked.current hr hc htracked.capturing) ?other
    actions
  case start =>
    obtain ⟨ring, -, rfl⟩ := create_eq h
    refine ⟨⟨rfl, fun before e hsplit => ?_, nofun, nofun, nofun⟩, nofun, nofun⟩
    exact absurd (List.prefix_nil.1 hsplit) (by simp)
  case other =>
    intro r samples entries a ha hc
    obtain ⟨ring, enabled, speed, hstep⟩ := r.step_of_noTick ha
    rw [hstep]
    exact ⟨hc.of_eq rfl rfl rfl rfl, hc.last_lt, hc.behind⟩

end Recorder
end UsbRecorder
