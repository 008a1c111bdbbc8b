import UsbRecorder.Proofs.Recorder.Outcome
/-!
# Entries — what a recorder frames while it waits, record by record

An entry is a framed record with what it is about, or the beginning of a capture.  `Due` lists why a record is framed
while the recorder waits, and `Frames` is a run of such records, up to where nothing is due any more or the ring is
full.  The loops that bridge gaps and flush the held events are runs of this kind (`frames_bridge`, `frames_flush`).
-/
namespace UsbRecorder
namespace Recorder

/-- What an entry is about. -/
inductive Item where
  /-- a capture begins: time is counted from here, and nothing is framed for it -/
  | armed
  | started (setting : Speed)
  | stopped (cause : StopCause)
  | placeholder
  /-- an event that was classified on some tick -/
  | heard (event : BusEvent)
  | packet (payload : List UInt8)
  deriving DecidableEq

/-- An entry with the tick it stands for and the time that it is framed with. -/
structure Entry where
  item : Item
  tick : Nat
  time : UInt16 := 0
  deriving DecidableEq

def Item.event? : Item → Option BusEvent
  | .started setting => some (.started setting)
  | .stopped cause => some (.stopped cause)
  | .placeholder => some .placeholder
  | .heard event => some event
  | .armed | .packet _ => none

/-- The item begins or ends a capture. -/
def Item.isBoundary : Item → Bool
  | .armed | .started _ | .stopped _ => true
  | .placeholder | .heard _ | .packet _ => false

namespace Entry

def record? (e : Entry) : Option Record :=
  match e.item with
  | .packet payload => some (.packet e.time payload)
  | item => item.event?.map fun event => .event e.time event.code

def framing? (e : Entry) : Option Framing := e.record?.map fun record => ⟨record.toBytes, e.tick⟩

/-- The tick of an entry at which a capture begins. -/
def arming? (e : Entry) : Option Nat := if e.item = .armed then some e.tick else none

/-- The event of an entry and its tick, if it is about an event that was classified. -/
def heard? (e : Entry) : Option (BusEvent × Nat) :=
  match e.item with
  | .heard event => some (event, e.tick)
  | _ => none

/-- The entries are about events of the stream: none is a packet, and none begins a capture. -/
def OfEvents (es : List Entry) : Prop := ∀ e ∈ es, ∃ event, e.item.event? = some event

theorem framing?_of_event? {item : Item} {event : BusEvent} (h : item.event? = some event) (tick : Nat)
    (time : UInt16) : (Entry.mk item tick time).framing? = some ⟨(Record.event time event.code).toBytes, tick⟩ := by
  cases item <;> simp_all [framing?, record?, Item.event?]

theorem OfEvents.arming?_eq_nil {es : List Entry} (h : OfEvents es) : es.filterMap arming? = [] := by
  refine List.filterMap_eq_nil_iff.2 fun e he => if_neg fun harmed => ?_
  obtain ⟨event, hevent⟩ := h e he
  rw [harmed] at hevent
  cases hevent

theorem OfEvents.not_packet {es : List Entry} (h : OfEvents es) {e : Entry} (he : e ∈ es) (payload : List UInt8) :
    e.item ≠ .packet payload := by
  intro hpacket
  obtain ⟨event, hevent⟩ := h e he
  rw [hpacket] at hevent
  cases hevent

end Entry

variable {r r' : Recorder} {payload : List UInt8}

/-! ## Framing while the recorder waits -/

/-- The entry of a stop record, where stop records are framed and there is room for one. -/
def stopEntries (r : Recorder) (cause : StopCause) : List Entry :=
  if r.captureEvents = true ∧ r.ring.fits Record.eventSize = true then [⟨.stopped cause, r.now, r.gapBefore r.now⟩]
  else []

theorem logStop_cases (r : Recorder) (cause : StopCause) :
    (∃ counts, r.logStop cause = { r with counts } ∧ r.stopEntries cause = []) ∨
      (r.captureEvents = true ∧ r.ring.fits Record.eventSize = true ∧
        ∃ counts, r.logStop cause = { r.frame (.stopped cause) r.now with counts } ∧
          r.stopEntries cause = [⟨.stopped cause, r.now, r.gapBefore r.now⟩]) := by
  unfold logStop stopEntries
  by_cases hcapture : r.captureEvents = true
  · by_cases hroom : r.ring.fits Record.eventSize = true
    · exact .inr ⟨hcapture, hroom, by simp [hcapture, hroom]⟩
    · exact .inl ⟨_, by simp [hcapture, hroom]; rfl⟩
  · rw [if_pos (by simp [hcapture]), if_neg fun h => hcapture h.1]
    exact .inl ⟨r.counts, rfl, rfl⟩

theorem framed_logStop (r : Recorder) (cause : StopCause) :
    (r.logStop cause).framed = ((r.stopEntries cause).filterMap Entry.framing?).reverse ++ r.framed := by
  rcases r.logStop_cases cause with ⟨counts, hstop, hentries⟩ | ⟨-, -, counts, hstop, hentries⟩
  · rw [hstop, hentries]
    rfl
  · rw [hstop, hentries]
    rfl

/-- The statistics with one event record more. -/
def Counts.tally (c : Counts) (event : BusEvent) : Counts :=
  if event = .placeholder then { c with placeholders := c.placeholders + 1 } else { c with events := c.events + 1 }

@[simp] theorem Counts.dropped_tally (c : Counts) (event : BusEvent) : (c.tally event).dropped = c.dropped := by
  unfold tally
  split <;> rfl

@[simp] theorem Counts.overruns_tally (c : Counts) (event : BusEvent) : (c.tally event).overruns = c.overruns := by
  unfold tally
  split <;> rfl

theorem Counts.events_tally {event : BusEvent} (h : event ≠ .placeholder) (c : Counts) :
    (c.tally event).events = c.events + 1 := congrArg Counts.events (if_neg h)

/-- **Why a record is due in a recorder that waits**, for which tick, and what is still held after it. -/
inductive Due (r : Recorder) : Item → Nat → List (BusEvent × Nat) → Prop where
  /-- the capture has just begun -/
  | start (on : r.captureEvents = true) (base : r.base = r.now) (empty : r.held = []) : Due r (.started r.speed) r.now []
  /-- nothing was framed for as long as a time can count, and all that is held is out of range -/
  | gap (elapsed : r.base + span ≤ r.now) (ahead : ∀ x ∈ r.held, r.base + span < x.2) :
      Due r .placeholder (r.base + span) r.held
  /-- the event held first is in range -/
  | event {event : BusEvent} {tick : Nat} {rest : List (BusEvent × Nat)} (held : r.held = (event, tick) :: rest)
      (near : tick ≤ r.base + span) : Due r (.heard event) tick rest

/-- Room for an event record, with the reserve left free. -/
def Spacious (r : Recorder) : Prop := r.ring.fits (Record.eventSize + r.reserve) = true

/-- **What is framed while a recorder waits**: what is due, one record after the other, as long as there is room. -/
inductive Frames : Recorder → List Entry → Recorder → Prop where
  | done (r : Recorder) : Frames r [] r
  | frame {r r' : Recorder} {item : Item} {event : BusEvent} {tick : Nat} {held : List (BusEvent × Nat)}
      {es : List Entry} (phase : r.phase = .waiting) (room : r.Spacious) (isEvent : item.event? = some event)
      (due : r.Due item tick held)
      (rest : Frames { r.frame event tick with held, counts := r.counts.tally event } es r') :
      Frames r (⟨item, tick, r.gapBefore tick⟩ :: es) r'
  | full {r : Recorder} {item : Item} {tick : Nat} {held : List (BusEvent × Nat)} (phase : r.phase = .waiting)
      (room : ¬ r.Spacious) (due : r.Due item tick held) :
      Frames r (r.withdrawn.stopEntries .full) { r with held }.overflow

/-- **The held events stand in line**: in the order of their ticks, from the time base on and up to now. -/
structure Lined (r : Recorder) : Prop where
  base_le : r.base ≤ r.now
  within : ∀ x ∈ r.held, r.base ≤ x.2 ∧ x.2 ≤ r.now
  sorted : r.held.Pairwise (fun x y => x.2 ≤ y.2)

theorem mem_stopEntries {e : Entry} {cause : StopCause} (h : e ∈ r.stopEntries cause) :
    e = ⟨.stopped cause, r.now, r.gapBefore r.now⟩ := by
  unfold stopEntries at h
  split at h
  · exact List.mem_singleton.1 h
  · cases h

theorem ofEvents_stopEntries (r : Recorder) (cause : StopCause) : Entry.OfEvents (r.stopEntries cause) := by
  intro e he
  rw [mem_stopEntries he]
  exact ⟨_, rfl⟩

theorem heard?_stopEntries (r : Recorder) (cause : StopCause) : (r.stopEntries cause).filterMap Entry.heard? = [] := by
  unfold stopEntries
  split <;> rfl

theorem logStop_frame (r : Recorder) (cause : StopCause) :
    (r.logStop cause).held = r.held ∧ (r.logStop cause).now = r.now ∧
      ((r.logStop cause).base = r.base ∨ (r.logStop cause).base = r.now) := by
  rcases r.logStop_cases cause with ⟨counts, hstop, -⟩ | ⟨-, -, counts, hstop, -⟩
  · rw [hstop]
    exact ⟨rfl, rfl, .inl rfl⟩
  · rw [hstop]
    exact ⟨rfl, rfl, .inr rfl⟩

theorem giveUp_frame (r : Recorder) (phase : Phase) (cause : StopCause) :
    (r.giveUp phase cause).held = [] ∧ (r.giveUp phase cause).now = r.now ∧
      ((r.giveUp phase cause).base = r.base ∨ (r.giveUp phase cause).base = r.now) := logStop_frame _ cause

theorem now_overflow (r : Recorder) : r.overflow.now = r.now := (giveUp_frame _ _ _).2.1

theorem held_overflow (r : Recorder) : r.overflow.held = [] := (giveUp_frame _ _ _).1

theorem lined_of_held_nil (hbase : r.base ≤ r.now) (hheld : r.held = []) : r.Lined :=
  ⟨hbase, by simp [hheld], by simp [hheld]⟩

theorem lined_giveUp (hbase : r.base ≤ r.now) (phase : Phase) (cause : StopCause) : (r.giveUp phase cause).Lined := by
  obtain ⟨hheld, hnow, hbase'⟩ := r.giveUp_frame phase cause
  exact lined_of_held_nil (by omega) hheld

theorem lined_overflow (hbase : r.base ≤ r.now) : r.overflow.Lined :=
  lined_giveUp (r := { r with counts.overruns := r.counts.overruns + 1 }) hbase .overrun .full

namespace Due

variable {item : Item} {tick : Nat} {held : List (BusEvent × Nat)}

theorem within (h : r.Due item tick held) (hl : r.Lined) : r.base ≤ tick ∧ tick ≤ r.base + span ∧ tick ≤ r.now := by
  have hbase := hl.base_le
  cases h with
  | start => exact ⟨hbase, by omega, Nat.le_refl _⟩
  | gap elapsed => exact ⟨Nat.le_add_right _ _, Nat.le_refl _, elapsed⟩
  | event first near =>
    obtain ⟨hreach, hpast⟩ := hl.within (_, tick) (by rw [first]; exact List.mem_cons_self)
    exact ⟨hreach, near, hpast⟩

theorem lined (h : r.Due item tick held) (hl : r.Lined) (event : BusEvent) {counts : Counts} :
    { r.frame event tick with held, counts }.Lined := by
  obtain ⟨hbase, hwithin, hsorted⟩ := hl
  cases h with
  | start => exact lined_of_held_nil (Nat.le_refl _) rfl
  | gap elapsed ahead => exact ⟨elapsed, fun x hx => ⟨Nat.le_of_lt (ahead x hx), (hwithin x hx).2⟩, hsorted⟩
  | event first near =>
    rw [first] at hwithin hsorted
    obtain ⟨hlater, hrest⟩ := List.pairwise_cons.1 hsorted
    refine ⟨(hwithin _ List.mem_cons_self).2, fun x hx => ⟨hlater x hx, ?_⟩, hrest⟩
    exact (hwithin x (List.mem_cons_of_mem _ hx)).2

end Due

namespace Frames

variable {a b c : Recorder} {es more : List Entry}

theorem phase_cases (h : Frames a es b) : b.phase = a.phase ∨ b.phase = .overrun := by
  induction h with
  | done => exact .inl rfl
  | frame phase _ _ _ _ ih => exact ih
  | full => exact .inr (phase_overflow _)

theorem eq_of_ne_waiting (h : Frames a es b) (hphase : a.phase ≠ .waiting) : es = [] ∧ b = a := by
  cases h with
  | done => exact ⟨rfl, rfl⟩
  | frame phase => exact absurd phase hphase
  | full phase => exact absurd phase hphase

theorem waiting_of_waiting (h : Frames a es b) (hphase : b.phase = .waiting) : a.phase = .waiting := by
  rcases h.phase_cases with hsame | hover
  · rw [← hsame, hphase]
  · cases hover.symm.trans hphase

theorem eq_of_capturing (h : Frames a es b) (hphase : b.phase = .capturing) : es = [] ∧ b = a := by
  refine h.eq_of_ne_waiting fun hw => ?_
  rcases h.phase_cases with hsame | hover
  · cases (hsame.symm.trans hphase).symm.trans hw
  · cases hover.symm.trans hphase

theorem eq_of_nil (h : Frames a [] b) (hphase : b.phase = .waiting) : b = a := by
  generalize hes : ([] : List Entry) = es at h
  cases h with
  | done => rfl
  | frame => cases hes
  | full => cases (phase_overflow _).symm.trans hphase

theorem trans (h₁ : Frames a es b) (h₂ : Frames b more c) : Frames a (es ++ more) c := by
  induction h₁ with
  | done => exact h₂
  | frame phase room isEvent due _ ih => exact .frame phase room isEvent due (ih h₂)
  | full phase room due =>
    obtain ⟨rfl, rfl⟩ := h₂.eq_of_ne_waiting (by rw [phase_overflow]; nofun)
    rw [List.append_nil]
    exact .full phase room due

theorem framed (h : Frames a es b) : b.framed = (es.filterMap Entry.framing?).reverse ++ a.framed := by
  induction h with
  | done => rfl
  | frame _ _ isEvent _ _ ih =>
    rw [ih, List.filterMap_cons_some (Entry.framing?_of_event? isEvent _ _), List.reverse_cons, List.append_assoc]
    rfl
  | full => exact framed_logStop _ _

theorem now (h : Frames a es b) : b.now = a.now := by
  induction h with
  | done => rfl
  | frame _ _ _ _ _ ih => exact ih
  | full => exact now_overflow _

theorem ofEvents (h : Frames a es b) : Entry.OfEvents es := by
  induction h with
  | done => nofun
  | frame _ _ isEvent _ _ ih => exact List.forall_mem_cons.2 ⟨⟨_, isEvent⟩, ih⟩
  | full => exact ofEvents_stopEntries _ _

theorem boundary (h : Frames a es b) : ∀ e ∈ es, e.item.isBoundary = true → e.tick = a.now := by
  induction h with
  | done => nofun
  | frame _ _ _ due _ ih =>
    refine List.forall_mem_cons.2 ⟨fun hitem => ?_, ih⟩
    cases due with
    | start => rfl
    | gap => cases hitem
    | event => cases hitem
  | full =>
    intro e he _
    rw [mem_stopEntries he]
    rfl

theorem held_of_overrun (h : Frames a es b) (hphase : a.phase = .waiting) (hover : b.phase ≠ .waiting) :
    b.held = [] := by
  induction h with
  | done => exact absurd hphase hover
  | frame phase _ _ _ _ ih => exact ih phase hover
  | full => exact held_overflow _

theorem heard (h : Frames a es b) (hphase : b.phase = .waiting) : es.filterMap Entry.heard? ++ b.held = a.held := by
  induction h with
  | done => rfl
  | frame _ _ _ due _ ih =>
    have hrest := ih hphase
    cases due with
    | start _ _ empty =>
      rw [empty]
      exact hrest
    | gap => exact hrest
    | event held near =>
      rw [held]
      exact congrArg (_ :: ·) hrest
  | full => cases (phase_overflow _).symm.trans hphase

/-- What is framed of the held events are the first ones. -/
theorem heard_first (h : Frames a es b) : es.filterMap Entry.heard? ++ b.held <+: a.held := by
  induction h with
  | done => exact List.prefix_refl _
  | frame _ _ _ due _ ih =>
    cases due with
    | start _ _ empty =>
      rw [empty]
      exact ih
    | gap => exact ih
    | event held near =>
      rw [held]
      exact List.prefix_cons_inj _ |>.2 ih
  | full =>
    rw [held_overflow, heard?_stopEntries]
    exact List.nil_prefix

theorem held_eq_nil (h : Frames a es b) (hnone : a.held = []) : es.filterMap Entry.heard? = [] ∧ b.held = [] := by
  have hheard := h.heard_first
  rw [hnone, List.prefix_nil] at hheard
  exact List.append_eq_nil_iff.1 hheard

/-- **Framing keeps the line of held events**: none is older than the time base. -/
theorem lined (h : Frames a es b) (hl : a.Lined) : b.Lined := by
  induction h with
  | done => exact hl
  | frame _ _ _ due _ ih => exact ih (due.lined hl _)
  | @full r _ _ held => exact lined_overflow (r := { r with held }) hl.base_le

end Frames

theorem log_of_spacious (hroom : r.Spacious) (event : BusEvent) (tick : Nat) :
    r.log event tick = { r.frame event tick with counts := r.counts.tally event } := by
  refine (if_pos hroom).trans ?_
  unfold Counts.tally
  split <;> rfl

theorem log_of_not_spacious (hroom : ¬ r.Spacious) (event : BusEvent) (tick : Nat) : r.log event tick = r.overflow :=
  if_neg hroom

/-- **A record that is due is framed, or the ring is full.** -/
theorem frames_log {item : Item} {event : BusEvent} {tick : Nat} {held : List (BusEvent × Nat)}
    (hphase : r.phase = .waiting) (isEvent : item.event? = some event) (due : r.Due item tick held) :
    ∃ es, Frames r es ({ r with held }.log event tick) ∧
      (({ r with held }.log event tick).phase = .waiting →
        es = [⟨item, tick, r.gapBefore tick⟩] ∧ ({ r with held }.log event tick).base = tick ∧
          ({ r with held }.log event tick).held = held ∧ ({ r with held }.log event tick).now = r.now) := by
  by_cases hroom : r.Spacious
  · rw [log_of_spacious (r := { r with held }) hroom]
    exact ⟨_, .frame hphase hroom isEvent due (.done _), fun _ => ⟨rfl, rfl, rfl, rfl⟩⟩
  · rw [log_of_not_spacious (r := { r with held }) hroom, phase_overflow]
    exact ⟨_, .full hphase hroom due, nofun⟩

theorem bridge_of_ne_waiting (hphase : r.phase ≠ .waiting) (n : Nat) : r.bridge n = r := by
  cases n with
  | zero => rfl
  | succ n =>
    unfold bridge
    rw [if_neg hphase]

theorem frames_bridge (n : Nat) (hphase : r.phase = .waiting)
    (hn : n = 0 ∨ r.base + span * n ≤ r.now ∧ ∀ x ∈ r.held, r.base + span * n < x.2) :
    ∃ es, Frames r es (r.bridge n) ∧
      ((r.bridge n).phase = .waiting → (r.bridge n).base = r.base + span * n ∧ (r.bridge n).held = r.held) := by
  induction n generalizing r with
  | zero => exact ⟨[], .done r, fun _ => ⟨rfl, rfl⟩⟩
  | succ n ih =>
    obtain ⟨hnow, hahead⟩ := hn.resolve_left (Nat.succ_ne_zero n)
    rw [Nat.mul_succ] at hnow hahead
    have hdue : r.Due .placeholder (r.base + span) r.held :=
      .gap (by omega) fun x hx => by
        have := hahead x hx
        omega
    obtain ⟨es, hframes, hmarked⟩ := frames_log hphase rfl hdue
    change Frames r es r.markTime at hframes
    change r.markTime.phase = .waiting → _ ∧ r.markTime.base = _ ∧ r.markTime.held = _ ∧ r.markTime.now = _ at hmarked
    unfold bridge
    rw [if_pos hphase]
    by_cases hwait : r.markTime.phase = .waiting
    · obtain ⟨-, hbase, hheld, hnow'⟩ := hmarked hwait
      have hrest : n = 0 ∨ r.markTime.base + span * n ≤ r.markTime.now ∧
          ∀ x ∈ r.markTime.held, r.markTime.base + span * n < x.2 := by
        rw [hbase, hheld, hnow']
        refine .inr ⟨by omega, fun x hx => ?_⟩
        have := hahead x hx
        omega
      obtain ⟨more, hmore, hlast⟩ := ih hwait hrest
      refine ⟨es ++ more, hframes.trans hmore, fun h => ?_⟩
      obtain ⟨hbase', hheld'⟩ := hlast h
      rw [hbase', hheld', hbase, hheld, Nat.mul_succ]
      exact ⟨by omega, rfl⟩
    · rw [bridge_of_ne_waiting hwait]
      exact ⟨es, hframes, fun h => absurd h hwait⟩

theorem flush_of_ne_waiting (hphase : r.phase ≠ .waiting) (n : Nat) : r.flush n = r := by
  cases n with
  | zero => rfl
  | succ n =>
    unfold flush
    split
    · rename_i hwait _
      exact absurd hwait hphase
    · rfl

theorem flush_of_held {n : Nat} {event event' : BusEvent} {tick tick' : Nat} {rest rest' : List (BusEvent × Nat)}
    (hphase : r.phase = .waiting) (hheld : r.held = (event, tick) :: rest)
    (hbridge : (r.bridge (r.gaps tick)).held = (event', tick') :: rest') :
    r.flush (n + 1) = ({ r.bridge (r.gaps tick) with held := rest' }.log event' tick').flush n := by
  rw [flush, hphase, hheld]
  dsimp only
  rw [hbridge]

theorem flush_of_bridge_nil {n : Nat} {event : BusEvent} {tick : Nat} {rest : List (BusEvent × Nat)}
    (hphase : r.phase = .waiting) (hheld : r.held = (event, tick) :: rest)
    (hbridge : (r.bridge (r.gaps tick)).held = []) :
    r.flush (n + 1) = r.bridge (r.gaps tick) := by
  rw [flush, hphase, hheld]
  dsimp only
  rw [hbridge]

/-- Placeholders are framed up to the last one before a tick, which brings the tick in range. -/
theorem gaps_spec {tick : Nat} (hbase : r.base ≤ tick) :
    (r.gaps tick = 0 ∨ r.base + span * r.gaps tick < tick) ∧ tick ≤ r.base + span * r.gaps tick + span := by
  have hdiv := Nat.div_add_mod (tick - r.base - 1) span
  have hmod := Nat.mod_lt (tick - r.base - 1) (show 0 < span by decide)
  change span * r.gaps tick + _ = _ at hdiv
  rcases Nat.eq_zero_or_pos (r.gaps tick) with hzero | hpos
  · rw [hzero] at hdiv ⊢
    exact ⟨.inl rfl, by omega⟩
  · have hsome := Nat.mul_le_mul_left span hpos
    have hspan : 0 < span := by decide
    exact ⟨.inr (by omega), by omega⟩

/-- **All that is held is framed, or the ring is full**: the last entry is then about the event held last. -/
theorem frames_flush (n : Nat) (hphase : r.phase = .waiting) (hlined : r.Lined) (hlen : r.held.length = n) :
    ∃ es, Frames r es (r.flush n) ∧
      ((r.flush n).phase = .waiting → (r.flush n).held = [] ∧ ∀ e ∈ es.getLast?, e.heard?.isSome = true) := by
  induction n generalizing r with
  | zero => exact ⟨[], .done r, fun _ => ⟨List.eq_nil_of_length_eq_zero hlen, nofun⟩⟩
  | succ n ih =>
    obtain ⟨⟨event, tick⟩, rest, hheld⟩ := List.exists_cons_of_length_eq_add_one hlen
    obtain ⟨hbase, hwithin, hsorted⟩ := hlined
    have hin := hwithin (event, tick) (by rw [hheld]; exact List.mem_cons_self)
    have hgaps := gaps_spec hin.1
    have hfirst : ∀ x ∈ r.held, tick ≤ x.2 := by
      rw [hheld] at hsorted ⊢
      exact List.forall_mem_cons.2 ⟨Nat.le_refl _, (List.pairwise_cons.1 hsorted).1⟩
    obtain ⟨es, hframes, hbridged⟩ := frames_bridge (r.gaps tick) hphase (hgaps.1.imp_right fun hreach =>
      ⟨Nat.le_trans (Nat.le_of_lt hreach) hin.2, fun x hx => Nat.lt_of_lt_of_le hreach (hfirst x hx)⟩)
    by_cases hwait : (r.bridge (r.gaps tick)).phase = .waiting
    · obtain ⟨hbase', hheld'⟩ := hbridged hwait
      rw [flush_of_held hphase hheld (hheld'.trans hheld)]
      have hdue : (r.bridge (r.gaps tick)).Due (.heard event) tick rest :=
        .event (hheld'.trans hheld) (by rw [hbase']; exact hgaps.2)
      obtain ⟨logged, hlog, hafter⟩ := frames_log hwait rfl hdue
      generalize { r.bridge (r.gaps tick) with held := rest }.log event tick = next at hlog hafter ⊢
      by_cases hwait' : next.phase = .waiting
      · obtain ⟨hlogged, -, hrest, -⟩ := hafter hwait'
        have hnext := (hframes.trans hlog).lined ⟨hbase, hwithin, hsorted⟩
        have hcount : next.held.length = n := by
          rw [hrest]
          rw [hheld] at hlen
          simpa using hlen
        obtain ⟨more, hmore, hlast⟩ := ih hwait' hnext hcount
        refine ⟨es ++ logged ++ more, (hframes.trans hlog).trans hmore, fun h => ?_⟩
        obtain ⟨hnil, hheard⟩ := hlast h
        refine ⟨hnil, fun e he => ?_⟩
        rw [hlogged, List.getLast?_append] at he
        cases hm : more.getLast? with
        | some e' =>
          rw [hm] at he hheard
          exact hheard e he
        | none =>
          rw [hm] at he
          simp at he
          subst he
          rfl
      · rw [flush_of_ne_waiting hwait']
        exact ⟨es ++ logged, hframes.trans hlog, fun h => absurd h hwait'⟩
    · rw [flush_of_bridge_nil hphase hheld (hframes.held_of_overrun hphase hwait)]
      exact ⟨es, hframes, fun h => absurd h hwait⟩

end Recorder
end UsbRecorder
