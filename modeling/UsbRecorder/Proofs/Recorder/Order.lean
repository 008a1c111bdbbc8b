import Mathlib.Data.List.Infix
import UsbRecorder.Proofs.Recorder.Dated
import UsbRecorder.Proofs.Recorder.Line
/-!
# Order — records come in the order of their ticks

`arrivalOrder_of_create`: the entries of a run are sorted by tick, a packet before the events of its own ticks, and the
classified events among them are some of those that were passed in, in that order.  An event that comes while a packet
is in progress is dropped if there is no place for it, and held otherwise, until the packet ends.  It is then framed
behind the packet and before any other one, or dropped, or lost.  All that is held is framed where the recorder waits
afterwards.  Where the ring runs full on the way the first events are framed, the next one may be lost and those behind
it are dropped; where the packet is given up itself all of them are dropped.
-/
namespace UsbRecorder
namespace Recorder

/-- An entry that stands before another one: its tick is no later, and earlier than that of a packet. -/
def Entry.Precedes (a b : Entry) : Prop := a.tick ≤ b.tick ∧ ∀ payload, b.item = .packet payload → a.tick < b.tick

variable {r r₀ : Recorder} {samples : List Sample} {entries : List Entry} {size : Nat} {captureEvents : Bool}

theorem Entry.Precedes.trans {a b c : Entry} (h₁ : a.Precedes b) (h₂ : b.Precedes c) : a.Precedes c :=
  ⟨Nat.le_trans h₁.1 h₂.1, fun payload hc => Nat.lt_of_le_of_lt h₁.1 (h₂.2 payload hc)⟩

/-- **Entries told one after the other are in order.** -/
theorem Chronicle.pairwise (h : Chronicle samples entries) : entries.Pairwise Entry.Precedes := by
  induction entries using List.reverseRecOn with
  | nil => exact .nil
  | append_singleton before e ih =>
    have hsorted := ih fun init e' hsplit => h init e' (hsplit.trans (List.prefix_append _ _))
    have hfollows := (h before e (List.prefix_refl _)).follows
    refine List.pairwise_append.2 ⟨hsorted, List.pairwise_singleton _ _, fun a ha e' he' => ?_⟩
    rw [List.mem_singleton.1 he']
    obtain ⟨prev, hprev⟩ := Option.isSome_iff_exists.1 (List.getLast?_isSome.2 (List.ne_nil_of_mem ha))
    obtain ⟨hle, hlt, -⟩ := hfollows prev hprev
    obtain ⟨init, rfl⟩ := List.getLast?_eq_some_iff.1 hprev
    rcases List.mem_append.1 ha with ha | ha
    · exact ((List.pairwise_append.1 hsorted).2.2 a ha prev (List.mem_singleton.2 rfl)).trans ⟨hle, hlt⟩
    · rw [List.mem_singleton.1 ha]
      exact ⟨hle, hlt⟩

/-! ## Events during a packet -/

/-- **While a packet is in progress what is held stays held.** -/
theorem held_during (h : create size captureEvents = .ok r₀) {start middle : List Action}
    (hgoes : ∀ part, part <+: middle → (r₀.after (start ++ part)).phase = .capturing) :
    (r₀.after start).held <+: (r₀.after (start ++ middle)).held ∧
      (r₀.after (start ++ middle)).base = (r₀.after start).base := by
  induction middle using List.reverseRecOn with
  | nil =>
    rw [List.append_nil]
    exact ⟨List.prefix_refl _, rfl⟩
  | append_singleton middle a ih =>
    obtain ⟨hheld, hbase⟩ := ih fun part hpart => hgoes part (hpart.trans (List.prefix_append _ _))
    have hbefore := hgoes middle (List.prefix_append _ _)
    have hafter := hgoes (middle ++ [a]) (List.prefix_refl _)
    rw [← List.append_assoc] at hafter ⊢
    cases a with
    | tick s event =>
      obtain ⟨es, hadds⟩ := adds_of_create h (start ++ middle) s event
      rw [(hadds.goes hafter).2, hadds.stays hbefore hafter]
      exact ⟨hheld.trans (List.prefix_append _ _), hbase⟩
    | enable =>
      rw [after_concat]
      exact ⟨hheld, hbase⟩
    | setSpeed =>
      rw [after_concat]
      exact ⟨hheld, hbase⟩
    | take =>
      rw [after_concat]
      exact ⟨hheld, hbase⟩

/-! ## The whole -/

/-- **The account of a run is in order.** -/
structure InOrder (r₀ : Recorder) (actions : List Action) (entries : List Entry) : Prop where
  account : Account r₀ actions entries
  framings : r₀.framings actions = entries.filterMap Entry.framing?
  /-- the ticks do not decrease, and a packet is later than all before it, so that events of its first tick follow it -/
  sorted : entries.Pairwise Entry.Precedes
  /-- a placeholder stands for the last tick that is in range of the item before it -/
  marks : ∀ before prev e after, entries = before ++ prev :: e :: after → e.item = .placeholder →
    e.tick = prev.tick + span
  /-- the classified events that are framed, or still held, were passed in on their ticks, in that order -/
  heard : (entries.filterMap Entry.heard? ++ (r₀.after actions).held).Sublist (passed 0 actions)

theorem inOrder_of_account (h : create size captureEvents = .ok r₀) {actions : List Action}
    (account : Account r₀ actions entries) (current : Current (r₀.after actions) (sampled actions) entries) :
    InOrder r₀ actions entries := by
  have hnow : ∀ before, (r₀.after before).now = (sampled before).length := fun before => by
    simpa using ((tracked_create h).1.after before).now
  obtain ⟨ring, -, rfl⟩ := create_eq h
  exact ⟨account, account.framings, current.told.pairwise,
    fun before prev e after hsplit => (current.told.follows_of_split hsplit).mark, account.heard rfl hnow⟩

/-- **A tick adds its entries in order**, and if it ends a packet they tell what becomes of the events behind it. -/
theorem inOrder_tick (h : create size captureEvents = .ok r₀) (before : List Action) (s : Sample)
    (event : Option BusEvent) : ∃ entries es, InOrder r₀ before entries ∧
      InOrder r₀ (before ++ [.tick s event]) (entries ++ es) ∧
      ((r₀.after before).phase = .capturing → (r₀.after (before ++ [.tick s event])).phase ≠ .capturing →
        ∃ lost left, Finish (r₀.after before) s event (r₀.after (before ++ [.tick s event])) es lost left) := by
  obtain ⟨entries, haccount, hsettled, hcurrent⟩ := account_of_create h before
  have htracked := (tracked_create h).1.after before
  obtain ⟨recs, hholds⟩ := htracked.holds
  obtain ⟨es, hticked, hadds⟩ := htracked.ticked hsettled s event
  have hcurrent' := hticked.current hsettled hcurrent htracked.capturing
  have hmore : Current (r₀.after (before ++ [.tick s event])) (sampled (before ++ [.tick s event])) (entries ++ es) := by
    rw [after_concat, sampled_concat]
    exact hcurrent'
  refine ⟨entries, es, inOrder_of_account h haccount hcurrent, inOrder_of_account h (.tick haccount hadds) hmore, ?_⟩
  rw [after_concat]
  exact hticked.finish hsettled (roomy_after h before) hholds

theorem InOrder.framings_later {before later : List Action} {es : List Entry} (h : InOrder r₀ before entries)
    (hlater : InOrder r₀ (before ++ later) (entries ++ es)) :
    (r₀.after before).framings later = es.filterMap Entry.framing? := by
  have hframings := hlater.framings
  rw [framings_append, h.framings, List.filterMap_append] at hframings
  exact List.append_cancel_left hframings

/-- The order in which a recorder owes its records to its user, whatever the user, the bus and the reader do. -/
structure ArrivalOrder (r₀ : Recorder) : Prop where
  inOrder : ∀ actions, ∃ entries, InOrder r₀ actions entries
  /-- nothing is held but while a packet is in progress -/
  idle : ∀ actions, (r₀.after actions).phase ≠ .capturing → (r₀.after actions).held = []
  /-- while a packet is in progress nothing is framed, and an event is held, or dropped if there is no place for it -/
  defers : ∀ before s event, (r₀.after (before ++ [.tick s event])).phase = .capturing →
    (r₀.after before).framings [.tick s event] = [] ∧
    (r₀.after (before ++ [.tick s event])).held = (r₀.after before).held ++ (r₀.after before).accepted event ∧
    (r₀.after (before ++ [.tick s event])).counts.dropped =
      (r₀.after before).counts.dropped + (r₀.after before).refused event
  /-- on a tick that is not free nothing is framed but a stop record; if no packet is in progress afterwards all that is
  held is dropped, and the event of the tick too -/
  drops : ∀ before s event, ¬ (r₀.after before).Free s → (r₀.after (before ++ [.tick s event])).phase ≠ .capturing →
    (∃ es : List Entry, (r₀.after before).framings [.tick s event] = es.filterMap Entry.framing? ∧
      ∀ e ∈ es, ∃ cause, e.item = .stopped cause) ∧
    (r₀.after (before ++ [.tick s event])).counts.dropped =
      (r₀.after before).counts.dropped + ((r₀.after before).held.length + event.toList.length)
  /-- when it ends the packet is framed, and what is held behind it as far as there is room; or the packet is given up,
  and all that is held with it -/
  finishes : ∀ before s event, (r₀.after before).phase = .capturing →
    (r₀.after (before ++ [.tick s event])).phase ≠ .capturing →
    ∃ entries es lost left, InOrder r₀ before entries ∧ InOrder r₀ (before ++ [.tick s event]) (entries ++ es) ∧
      Finish (r₀.after before) s event (r₀.after (before ++ [.tick s event])) es lost left
  /-- an event that comes during a packet and that there is a place for is framed on the tick on which the packet ends,
  after it and with nothing but events around it, or it is the one that is lost on this tick, or dropped -/
  follows : ∀ before s event during s' event', (r₀.after before).held.length < maxHeld →
    (∀ part, part <+: during → (r₀.after (before ++ .tick s (some event) :: part)).phase = .capturing) →
    (r₀.after (before ++ .tick s (some event) :: during ++ [.tick s' event'])).phase ≠ .capturing →
    ∃ es lost left,
      (r₀.after (before ++ .tick s (some event) :: during)).framings [.tick s' event'] =
        es.filterMap Entry.framing? ∧
      Finish (r₀.after (before ++ .tick s (some event) :: during)) s' event'
        (r₀.after (before ++ .tick s (some event) :: during ++ [.tick s' event'])) es lost left ∧
      (FramedBehind es (r₀.after (before ++ [.tick s (some event)])).base (event, (r₀.after before).now) ∨
        lost = some (event, (r₀.after before).now) ∨ (event, (r₀.after before).now) ∈ left)

theorem defers_of_create (h : create size captureEvents = .ok r₀) (before : List Action) (s : Sample)
    (event : Option BusEvent) (hgoes : (r₀.after (before ++ [.tick s event])).phase = .capturing) :
    (r₀.after before).framings [.tick s event] = [] ∧
      (r₀.after (before ++ [.tick s event])).held = (r₀.after before).held ++ (r₀.after before).accepted event ∧
      (r₀.after (before ++ [.tick s event])).counts.dropped =
        (r₀.after before).counts.dropped + (r₀.after before).refused event := by
  have htracked := (tracked_create h).1.after before
  obtain ⟨recs, hholds⟩ := htracked.holds
  obtain ⟨es, hticked, hadds⟩ := htracked.ticked (settled_after h before) s event
  rw [after_concat] at hgoes ⊢
  obtain ⟨rfl, hheld⟩ := hadds.goes hgoes
  exact ⟨hadds.framings, hheld, hticked.defers (settled_after h before) (roomy_after h before) hholds hgoes⟩

theorem drops_of_create (h : create size captureEvents = .ok r₀) (before : List Action) (s : Sample)
    (event : Option BusEvent) (hbusy : ¬ (r₀.after before).Free s)
    (hends : (r₀.after (before ++ [.tick s event])).phase ≠ .capturing) :
    (∃ es : List Entry, (r₀.after before).framings [.tick s event] = es.filterMap Entry.framing? ∧
        ∀ e ∈ es, ∃ cause, e.item = .stopped cause) ∧
      (r₀.after (before ++ [.tick s event])).counts.dropped =
        (r₀.after before).counts.dropped + ((r₀.after before).held.length + event.toList.length) := by
  have htracked := (tracked_create h).1.after before
  obtain ⟨recs, hholds⟩ := htracked.holds
  obtain ⟨es, hticked, hadds⟩ := htracked.ticked (settled_after h before) s event
  rw [after_concat] at hends ⊢
  exact ⟨⟨es, hadds.framings, hadds.busy hbusy⟩,
    hticked.drops (settled_after h before) (roomy_after h before) hholds hbusy hends⟩

/-- **Records are committed in the order in which what they are about came.** -/
theorem arrivalOrder_of_create (h : create size captureEvents = .ok r₀) : r₀.ArrivalOrder := by
  refine ⟨fun actions => ?_, fun actions => (settled_after h actions).idle, defers_of_create h,
    drops_of_create h, fun before s event hphase hends => ?_, ?_⟩
  · obtain ⟨entries, haccount, -, hcurrent⟩ := account_of_create h actions
    exact ⟨entries, inOrder_of_account h haccount hcurrent⟩
  · obtain ⟨entries, es, hbefore, hafter, hfinish⟩ := inOrder_tick h before s event
    obtain ⟨lost, left, hfinish⟩ := hfinish hphase hends
    exact ⟨entries, es, lost, left, hbefore, hafter, hfinish⟩
  · intro before s event during s' event' hplace hgoes hends
    have hgoes' : ∀ part, part <+: during → (r₀.after (before ++ [.tick s (some event)] ++ part)).phase = .capturing :=
      fun part hpart => by
        rw [List.append_assoc]
        exact hgoes part hpart
    rw [List.append_cons before] at hends ⊢
    have hopen : (r₀.after (before ++ [.tick s (some event)])).phase = .capturing := by
      simpa using hgoes' [] List.nil_prefix
    have hheld : (event, (r₀.after before).now) ∈ (r₀.after (before ++ [.tick s (some event)])).held := by
      rw [(defers_of_create h before s _ hopen).2.1, accepted, if_pos hplace]
      exact List.mem_append_right _ (List.mem_singleton.2 rfl)
    obtain ⟨hstays, hbase⟩ := held_during h hgoes'
    obtain ⟨entries, es, hbefore, hafter, hfinish⟩ :=
      inOrder_tick h (before ++ [.tick s (some event)] ++ during) s' event'
    obtain ⟨lost, left, hfinish⟩ := hfinish (hgoes' during (List.prefix_refl _)) hends
    rw [← hbase]
    exact ⟨es, lost, left, hbefore.framings_later hafter, hfinish, hfinish.fate (hstays.subset hheld)⟩

/-- A packet of six bytes, with an event on each of the first three. -/
def threeEvents : List Action :=
  [.tick { active := true, valid := true, byte := 1 } (some .reset),
    .tick { active := true, valid := true, byte := 2 } (some .suspend),
    .tick { active := true, valid := true, byte := 3 } (some .resume), receiving 4, receiving 5, receiving 6]

/-- A ring of sixteen bytes has room for the packet and one event: the next one is lost, and the last one dropped. -/
theorem arrivalOrder_threeEvents : ∃ r₀, create 16 false = .ok r₀ ∧ r₀.ArrivalOrder ∧
    r₀.framings (armed ++ threeEvents ++ [.tick {} none]) =
      [⟨(Record.packet 0 [1, 2, 3, 4, 5, 6]).toBytes, 1⟩, ⟨(Record.event 0 BusEvent.reset.code).toBytes, 1⟩] ∧
    (r₀.after (armed ++ threeEvents ++ [.tick {} none])).counts.dropped = 1 ∧
    ∃ es lost left, (r₀.after (armed ++ threeEvents)).framings [.tick {} none] = es.filterMap Entry.framing? ∧
      Finish (r₀.after (armed ++ threeEvents)) {} none (r₀.after (armed ++ threeEvents ++ [.tick {} none])) es lost
        left ∧
      (FramedBehind es 1 (.reset, 1) ∨ lost = some (.reset, 1) ∨ (.reset, 1) ∈ left) := by
  have hcreate : create 16 false = .ok { ring := { size := 16 }, captureEvents := false } := rfl
  refine ⟨_, hcreate, arrivalOrder_of_create hcreate, by decide +kernel, by decide +kernel, ?_⟩
  have hgoes : ∀ part ∈ threeEvents.tail.inits, (after { ring := { size := 16 }, captureEvents := false }
      (armed ++ .tick { active := true, valid := true, byte := 1 } (some .reset) :: part)).phase = .capturing := by
    decide +kernel
  exact (arrivalOrder_of_create hcreate).follows armed { active := true, valid := true, byte := 1 } .reset
    threeEvents.tail {} none (by decide +kernel) (fun part hpart => hgoes part ((List.mem_inits part _).2 hpart))
    (by decide +kernel)

/-- **An event that is neither framed nor dropped**: it comes with the first byte of a packet and is held, and the ring
has room for the packet alone. -/
theorem neither_framed_nor_dropped : ∃ r₀, create 8 false = .ok r₀ ∧ ∃ during,
    during = armed ++ [.tick { active := true, valid := true, byte := 1 } (some .reset), receiving 2] ∧
    (r₀.after during).phase = .capturing ∧ (r₀.after during).held = [(.reset, 1)] ∧
    r₀.framings (during ++ [.tick {} none]) = [⟨(Record.packet 0 [1, 2]).toBytes, 1⟩] ∧
    (r₀.after (during ++ [.tick {} none])).held = [] ∧
    (r₀.after (during ++ [.tick {} none])).counts.dropped = 0 := by
  refine ⟨{ ring := { size := 8 }, captureEvents := false }, rfl, _, rfl, ?_⟩
  decide +kernel

end Recorder
end UsbRecorder
