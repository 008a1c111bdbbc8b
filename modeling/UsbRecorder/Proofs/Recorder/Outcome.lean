import UsbRecorder.Proofs.Recorder.Packet
/-!
# Outcome — everything that one tick can make of a recorder

`Outcome` lists what can become of the packet in progress on a tick: it is opened, extended, closed, refused or withdrawn,
or there is none and the ring is kept or cleared.  `outcome_tick` states that there is nothing else; what holds of every
tick is then read off the cases.
-/
namespace UsbRecorder
namespace Recorder

/-- **Nothing but events was framed**, behind given records and after given framings, and no packet is in progress. -/
def OnlyEvents (recs : List (List UInt8)) (before : List Framing) (r' : Recorder) : Prop :=
  ∃ new : List Framing, r'.framed = new.reverse ++ before ∧ (∀ f ∈ new, f.IsEvent) ∧
    r'.ring.Holds (recs ++ new.map Framing.bytes) [] ∧ r'.phase ≠ .capturing

/-- **What a tick makes of a recorder that holds `recs` and a packet of `payload` so far.** -/
inductive Outcome (r : Recorder) (recs : List (List UInt8)) (payload : List UInt8) (s : Sample) :
    Bool → Recorder → Prop where
  /-- reception begins, and there is room -/
  | opened {r' : Recorder} (phase : r.phase = .waiting) (enabled : r.enabled = true) (active : s.active = true)
      (phase' : r'.phase = .capturing) (base' : r'.base = r.now) (framed' : r'.framed = []) (holds : r'.Holds recs s.data) :
      Outcome r recs payload s false r'
  /-- reception goes on, and there is room -/
  | extended {r' : Recorder} (phase : r.phase = .capturing) (active : s.active = true) (phase' : r'.phase = .capturing)
      (base' : r'.base = r.base) (framed' : r'.framed = []) (holds : r'.Holds recs (payload ++ s.data)) :
      Outcome r recs payload s false r'
  /-- reception ends -/
  | closed {r' : Recorder} (phase : r.phase = .capturing) (active : s.active = false)
      (events : OnlyEvents (recs ++ [(r.packetFraming payload).bytes]) [r.packetFraming payload] r') :
      Outcome r recs payload s false r'
  /-- reception begins, and there is no room -/
  | refused {r' : Recorder} (phase : r.phase = .waiting) (enabled : r.enabled = true) (active : s.active = true)
      (room : ¬ r.HasRoom s.data.length) (events : OnlyEvents recs [] r') (phase' : r'.phase = .overrun ∨ r'.phase = .babble) :
      Outcome r recs payload s false r'
  /-- reception goes on, and there is no room, or no end -/
  | withdrawn {r' : Recorder} (phase : r.phase = .capturing) (active : s.active = true)
      (room : ¬ r.HasRoom (payload.length + s.data.length)) (events : OnlyEvents recs [] r')
      (phase' : r'.phase = .overrun ∨ r'.phase = .babble) : Outcome r recs payload s false r'
  /-- no packet is in progress, and none begins -/
  | kept {r' : Recorder} (phase : r.phase ≠ .capturing)
      (begins : r.phase = .waiting → r.enabled = true → s.active = false) (events : OnlyEvents recs [] r')
      (quiet : r'.phase = .waiting → s.active = false)
      (still : s.active = true → r'.phase = .stopped ∨ r'.phase = r.phase) : Outcome r recs payload s false r'
  /-- buffered data is dropped -/
  | cleared {r' : Recorder} (phase : r.phase ≠ .capturing) (begins : r.phase ≠ .waiting)
      (events : OnlyEvents (Ring.Holds.kept recs r.ring.taken) [] r') (retained : r'.retained = r.ring.restOfBegun) (quiet : r'.phase = .waiting → s.active = false)
      (still : s.active = true → r'.phase = .stopped) : Outcome r recs payload s true r'

variable {r : Recorder} {recs : List (List UInt8)} {payload : List UInt8}

theorem onlyEvents_of_logs {before : List Framing} {a r' : Recorder} (hlogs : Logs a r') (hframed : a.framed = before)
    (hring : a.ring.Holds recs []) (hphase : r'.phase ≠ .capturing) : OnlyEvents recs before r' := by
  obtain ⟨new, hlog⟩ := hlogs
  exact ⟨new, by rw [hlog.framed, hframed], hlog.events, hlog.holds recs hring, hphase⟩

theorem OnlyEvents.logs {before : List Framing} {a r' : Recorder} (h : OnlyEvents recs before a) (hlogs : Logs a r')
    (hphase : r'.phase ≠ .capturing) : OnlyEvents recs before r' := by
  obtain ⟨new, hframed, hevents, hring, -⟩ := h
  obtain ⟨more, hlog⟩ := hlogs
  refine ⟨new ++ more, ?_, ?_, ?_, hphase⟩
  · rw [hlog.framed, hframed, List.reverse_append, List.append_assoc]
  · exact fun f hf => (List.mem_append.1 hf).elim (hevents f) (hlog.events f)
  · rw [List.map_append, ← List.append_assoc]
    exact hlog.holds _ hring

theorem Logs.steady {r' : Recorder} (h : Logs r r') : Steady r r' := by
  obtain ⟨new, h⟩ := h
  exact h.steady

theorem steady_withdrawn (r : Recorder) : Steady r r.withdrawn := ⟨rfl, rfl, rfl, rfl, rfl⟩

theorem ne_capturing_of_ended {phase : Phase} (h : phase = .overrun ∨ phase = .babble) : phase ≠ .capturing := by
  rcases h with rfl | rfl <;> decide

/-! ## A packet in progress -/

theorem act_capturing (hphase : r.phase = .capturing) (s : Sample) :
    r.act s = (false, if !s.active then r.closePacket else if s.valid then r.addByte s.byte else r) := by
  unfold act
  rw [hphase]

theorem outcome_act_capturing (h : r.Holds recs payload) (hphase : r.phase = .capturing) (hframed : r.framed = [])
    (s : Sample) : Steady r (r.act s).2 ∧ Outcome r recs payload s (r.act s).1 (r.act s).2 := by
  rw [act_capturing hphase]
  by_cases hactive : s.active = true
  · rw [if_neg (by simp [hactive])]
    by_cases hvalid : s.valid = true
    · have hdata : s.data = [s.byte] := if_pos hvalid
      rw [if_pos hvalid]
      by_cases hroom : r.HasRoom (payload.length + 1)
      · rw [addByte_of_hasRoom h hphase hroom]
        refine ⟨⟨rfl, rfl, rfl, rfl, rfl⟩, .extended hphase hactive hphase rfl hframed ?_⟩
        rw [hdata]
        exact holds_push h hphase hroom s.byte
      · obtain ⟨hlogs, hphase'⟩ := addByte_of_not_hasRoom h hphase hroom s.byte
        refine ⟨(steady_withdrawn r).trans hlogs.steady, .withdrawn hphase hactive ?_ ?_ hphase'⟩
        · rwa [hdata]
        · exact onlyEvents_of_logs hlogs hframed h.withdrawn (ne_capturing_of_ended hphase')
    · have hdata : s.data = [] := if_neg hvalid
      rw [if_neg hvalid]
      refine ⟨.refl r, .extended hphase hactive hphase rfl hframed ?_⟩
      rwa [hdata, List.append_nil]
  · obtain ⟨hring, hnew⟩ := holds_closePacket h hphase
    rw [hframed] at hnew
    rw [if_pos (by simp [hactive])]
    refine ⟨⟨by simp [closePacket, Ring.fill], by simp [closePacket, Ring.fill], rfl, rfl, rfl⟩, ?_⟩
    refine .closed hphase (by simpa using hactive) ⟨[], hnew, fun _ hf => absurd hf List.not_mem_nil, ?_, nofun⟩
    rwa [List.map_nil, List.append_nil]

/-! ## Between packets -/

theorem outcome_openPacket (h : r.ring.Holds recs []) (hphase : r.phase = .waiting) (henabled : r.enabled = true)
    (hframed : r.framed = []) {s : Sample} (hactive : s.active = true) :
    Steady r (r.openPacket s) ∧ Outcome r recs payload s false (r.openPacket s) := by
  by_cases hroom : r.HasRoom 0
  · have hopen := holds_opened h hroom
    have hsteady : Steady r r.opened := ⟨Ring.taken_pushAll _ _, Ring.size_pushAll _ _, rfl, rfl, rfl⟩
    rw [openPacket_of_hasRoom h hroom]
    by_cases hvalid : s.valid = true
    · have hdata : s.data = [s.byte] := if_pos hvalid
      rw [if_pos hvalid]
      by_cases hroom' : r.opened.HasRoom 1
      · rw [addByte_of_hasRoom hopen rfl hroom']
        refine ⟨hsteady.trans ⟨rfl, rfl, rfl, rfl, rfl⟩, .opened hphase henabled hactive rfl rfl hframed ?_⟩
        rw [hdata]
        exact holds_push hopen rfl hroom' s.byte
      · obtain ⟨hlogs, hphase'⟩ := addByte_of_not_hasRoom hopen rfl hroom' s.byte
        refine ⟨hsteady.trans ((steady_withdrawn _).trans hlogs.steady), .refused hphase henabled hactive ?_ ?_ hphase'⟩
        · rw [hdata]
          exact fun hr => hroom' ((hasRoom_opened r 1).2 hr)
        · exact onlyEvents_of_logs hlogs hframed hopen.withdrawn (ne_capturing_of_ended hphase')
    · have hdata : s.data = [] := if_neg hvalid
      rw [if_neg hvalid]
      refine ⟨hsteady, .opened hphase henabled hactive rfl rfl hframed ?_⟩
      rwa [hdata]
  · rw [openPacket_of_not_hasRoom h hroom]
    have hphase' : r.overflow.phase = .overrun ∨ r.overflow.phase = .babble := .inl (phase_overflow r)
    refine ⟨(logs_overflow r).steady, .refused hphase henabled hactive ?_ ?_ hphase'⟩
    · refine fun hr => hroom ⟨Nat.zero_le _, ?_⟩
      have := hr.2
      have := packetSize_mono (Nat.zero_le s.data.length)
      omega
    · exact onlyEvents_of_logs (logs_overflow r) hframed h (ne_capturing_of_ended hphase')

theorem act_waiting (hphase : r.phase = .waiting) (s : Sample) :
    r.act s = (false, if !r.enabled then r.endCapture else if s.active then r.openPacket s else r) := by
  unfold act
  rw [hphase]

theorem outcome_act_waiting (h : r.Holds recs payload) (hphase : r.phase = .waiting) (hframed : r.framed = []) (s : Sample) :
    Steady r (r.act s).2 ∧ Outcome r recs payload s (r.act s).1 (r.act s).2 := by
  have hne : r.phase ≠ .capturing := by rw [hphase]; decide
  have hring := h.between hne
  rw [act_waiting hphase]
  by_cases henabled : r.enabled = true
  · rw [if_neg (by simp [henabled])]
    by_cases hactive : s.active = true
    · rw [if_pos hactive]
      exact outcome_openPacket hring hphase henabled hframed hactive
    · rw [if_neg hactive]
      exact ⟨.refl r, .kept hne (fun _ _ => by simpa using hactive) (onlyEvents_of_logs (.refl r) hframed hring hne)
        (fun _ => by simpa using hactive)
        fun h => absurd h hactive⟩
  · rw [if_pos (by simp [henabled])]
    have hlogs : Logs r r.endCapture := (logs_logStop r .requested).bookkeeping _ _ _ _
    exact ⟨hlogs.steady, .kept hne (fun _ h => absurd h henabled) (onlyEvents_of_logs hlogs hframed hring nofun) nofun
      fun _ => .inl rfl⟩

theorem holds_discard (h : r.ring.Holds recs []) :
    r.discard.ring.Holds (Ring.Holds.kept recs r.ring.taken) [] ∧ r.discard.retained = r.ring.restOfBegun ∧
      Steady r r.discard := by
  obtain ⟨hring, htaken, hcommitted⟩ := h.discard
  refine ⟨hring, hcommitted, ⟨htaken, ?_, rfl, rfl, rfl⟩⟩
  show r.ring.discard.size = r.ring.size
  unfold Ring.discard
  split <;> rfl

theorem logs_beginCapture (r : Recorder) :
    Logs r r.beginCapture ∧ (r.beginCapture.phase = .waiting ∨ r.beginCapture.phase = .overrun) := by
  have hstart : Logs r { r with base := r.now, phase := .waiting } := (Logs.refl r).bookkeeping _ _ _ _
  unfold beginCapture
  dsimp only
  split
  · obtain ⟨hlogs, hphase⟩ := logsOn_log { r with base := r.now, phase := .waiting } (.started r.speed) r.now
    exact ⟨hstart.trans hlogs, hphase⟩
  · exact ⟨hstart, .inl rfl⟩

theorem act_stopped (hphase : r.phase = .stopped) (s : Sample) :
    r.act s = if r.enabled then (true, if s.active then r.discard else r.discard.beginCapture) else (false, r) := by
  unfold act
  rw [hphase]

theorem outcome_act_stopped (h : r.Holds recs payload) (hphase : r.phase = .stopped) (hframed : r.framed = []) (s : Sample) :
    Steady r (r.act s).2 ∧ Outcome r recs payload s (r.act s).1 (r.act s).2 := by
  have hne : r.phase ≠ .capturing := by rw [hphase]; decide
  have hnw : r.phase ≠ .waiting := by rw [hphase]; decide
  have hring := h.between hne
  rw [act_stopped hphase]
  by_cases henabled : r.enabled = true
  · obtain ⟨hkept, hretained, hsteady⟩ := holds_discard hring
    rw [if_pos henabled]
    by_cases hactive : s.active = true
    · have hphase' : r.discard.phase = .stopped := hphase
      rw [if_pos hactive]
      refine ⟨hsteady, .cleared hne hnw (onlyEvents_of_logs (.refl _) hframed hkept ?_) hretained ?_ fun _ => hphase'⟩
      · rw [hphase']
        decide
      · intro hw
        rw [hphase'] at hw
        cases hw
    · obtain ⟨hlogs, hphase'⟩ := logs_beginCapture r.discard
      have hretained' : r.discard.beginCapture.retained = r.ring.restOfBegun := by
        obtain ⟨new, hlog⟩ := hlogs
        exact hlog.retained.trans hretained
      rw [if_neg hactive]
      refine ⟨hsteady.trans hlogs.steady, .cleared hne hnw (onlyEvents_of_logs hlogs hframed hkept ?_) hretained'
        (fun _ => by simpa using hactive) fun ha => absurd ha hactive⟩
      rcases hphase' with h | h <;> rw [h] <;> decide
  · rw [if_neg henabled]
    refine ⟨.refl r, .kept hne (fun h => absurd h hnw) (onlyEvents_of_logs (.refl r) hframed hring hne) ?_ fun _ => .inl hphase⟩
    intro hw
    rw [hphase] at hw
    cases hw

theorem act_ended (hphase : r.phase = .overrun ∨ r.phase = .babble) (s : Sample) :
    r.act s = if r.enabled then (false, r) else (true, { r.discard with phase := .stopped }) := by
  unfold act
  rcases hphase with h | h <;> rw [h]

theorem outcome_act_ended (h : r.Holds recs payload) (hphase : r.phase = .overrun ∨ r.phase = .babble)
    (hframed : r.framed = []) (s : Sample) :
    Steady r (r.act s).2 ∧ Outcome r recs payload s (r.act s).1 (r.act s).2 := by
  have hne := ne_capturing_of_ended hphase
  have hnw : r.phase ≠ .waiting := by rcases hphase with h | h <;> rw [h] <;> decide
  have hring := h.between hne
  rw [act_ended hphase]
  by_cases henabled : r.enabled = true
  · rw [if_pos henabled]
    refine ⟨.refl r, .kept hne (fun h => absurd h hnw) (onlyEvents_of_logs (.refl r) hframed hring hne) ?_ fun _ => .inr rfl⟩
    intro hw
    rw [hw] at hphase
    rcases hphase with h | h <;> cases h
  · rw [if_neg henabled]
    obtain ⟨hkept, hretained, hsteady⟩ := holds_discard hring
    have hlogs : Logs r.discard { r.discard with phase := .stopped } := (Logs.refl _).bookkeeping .stopped _ _ _
    exact ⟨hsteady.trans hlogs.steady, .cleared hne hnw (onlyEvents_of_logs hlogs hframed hkept nofun) hretained nofun
      fun _ => rfl⟩

theorem outcome_act (h : r.Holds recs payload) (hframed : r.framed = []) (s : Sample) :
    Steady r (r.act s).2 ∧ Outcome r recs payload s (r.act s).1 (r.act s).2 := by
  cases hphase : r.phase with
  | stopped => exact outcome_act_stopped h hphase hframed s
  | waiting => exact outcome_act_waiting h hphase hframed s
  | capturing => exact outcome_act_capturing h hphase hframed s
  | overrun => exact outcome_act_ended h (.inl hphase) hframed s
  | babble => exact outcome_act_ended h (.inr hphase) hframed s

/-! ## The whole tick -/

/-- What follows the part of the phase: the event is taken in, and what is due is framed. -/
def finish (r : Recorder) (event : Option BusEvent) : Recorder :=
  (match event with
    | some e => r.defer e
    | none => r).catchUp

theorem tick_eq (r : Recorder) (s : Sample) (event : Option BusEvent) :
    (r.tick s event).1.discarding = ({ r with framed := [] }.act s).1 ∧
      (r.tick s event).2 = { ({ r with framed := [] }.act s).2.finish event with
        now := (({ r with framed := [] }.act s).2.finish event).now + 1 } := ⟨rfl, rfl⟩

theorem logs_defer (r : Recorder) (event : BusEvent) : Logs r (r.defer event) := by
  unfold defer
  split
  · exact (Logs.refl r).bookkeeping _ _ _ _
  · exact (Logs.refl r).bookkeeping _ _ _ _

theorem phase_defer (r : Recorder) (event : BusEvent) : (r.defer event).phase = r.phase := by
  unfold defer
  split <;> rfl

theorem logs_finish (r : Recorder) (event : Option BusEvent) :
    Logs r (r.finish event) ∧
      ((r.finish event).phase = r.phase ∨ r.phase = .waiting ∧ (r.finish event).phase = .overrun) := by
  have key : ∀ d : Recorder, Logs r d → d.phase = r.phase →
      Logs r d.catchUp ∧ (d.catchUp.phase = r.phase ∨ r.phase = .waiting ∧ d.catchUp.phase = .overrun) := by
    intro d hlogs hphase
    by_cases hw : d.phase = .waiting
    · obtain ⟨hon, hcatch⟩ := logsOn_catchUp d
      rw [hphase] at hcatch hw
      exact ⟨hlogs.trans hon, hcatch.imp_right fun h => ⟨hw, h⟩⟩
    · rw [catchUp_of_ne_waiting hw]
      exact ⟨hlogs, .inl hphase⟩
  cases event with
  | none => exact key r (.refl r) rfl
  | some e => exact key _ (logs_defer r e) (phase_defer r e)

theorem finish_of_capturing (hphase : r.phase = .capturing) (event : Option BusEvent) :
    ∃ held counts, r.finish event = { r with held, counts } := by
  unfold finish
  cases event with
  | none => exact ⟨r.held, r.counts, catchUp_of_ne_waiting (by rw [hphase]; decide)⟩
  | some e =>
    have hne : (r.defer e).phase ≠ .waiting := by rw [phase_defer, hphase]; decide
    dsimp only
    rw [catchUp_of_ne_waiting hne]
    unfold defer
    split
    · exact ⟨_, r.counts, rfl⟩
    · exact ⟨r.held, _, rfl⟩

theorem OnlyEvents.finish {before : List Framing} {a : Recorder} (h : OnlyEvents recs before a) (event : Option BusEvent) :
    OnlyEvents recs before (a.finish event) := by
  obtain ⟨hlogs, hphase⟩ := logs_finish a event
  refine h.logs hlogs ?_
  rcases hphase with hsame | ⟨-, hover⟩
  · rw [hsame]
    exact h.choose_spec.2.2.2
  · rw [hover]
    decide

/-- **The end of a tick makes no other case of it.** -/
theorem Outcome.finish {s : Sample} {discarding : Bool} {a : Recorder} (h : Outcome r recs payload s discarding a)
    (event : Option BusEvent) : Outcome r recs payload s discarding (a.finish event) := by
  have hfinish := (logs_finish a event).2
  -- a capture that has ended stays so, for only a waiting recorder frames anything now
  have hended : a.phase = .overrun ∨ a.phase = .babble →
      (a.finish event).phase = .overrun ∨ (a.finish event).phase = .babble := by
    rintro ha
    rcases hfinish with hsame | ⟨hw, -⟩
    · rwa [hsame]
    · rw [hw] at ha
      rcases ha with h | h <;> cases h
  have hquiet : (a.phase = .waiting → s.active = false) → (a.finish event).phase = .waiting → s.active = false := by
    intro ha hw
    rcases hfinish with hsame | ⟨hwait, -⟩
    · exact ha (hsame ▸ hw)
    · exact ha hwait
  have hstill : (a.phase = .waiting → s.active = false) → s.active = true → (a.finish event).phase = a.phase := by
    intro ha hactive
    rcases hfinish with hsame | ⟨hwait, -⟩
    · exact hsame
    · rw [ha hwait] at hactive
      cases hactive
  cases h with
  | opened phase enabled active phase' base' framed' holds =>
    obtain ⟨held, counts, heq⟩ := finish_of_capturing phase' event
    rw [heq]
    exact .opened phase enabled active phase' base' framed' (holds.of_eq rfl rfl rfl rfl rfl)
  | extended phase active phase' base' framed' holds =>
    obtain ⟨held, counts, heq⟩ := finish_of_capturing phase' event
    rw [heq]
    exact .extended phase active phase' base' framed' (holds.of_eq rfl rfl rfl rfl rfl)
  | closed phase active events => exact .closed phase active (events.finish event)
  | refused phase enabled active room events phase' =>
    exact .refused phase enabled active room (events.finish event) (hended phase')
  | withdrawn phase active room events phase' =>
    exact .withdrawn phase active room (events.finish event) (hended phase')
  | kept phase begins events quiet still =>
    refine .kept phase begins (events.finish event) (hquiet quiet) fun hactive => ?_
    rw [hstill quiet hactive]
    exact still hactive
  | cleared phase begins events retained quiet still =>
    have hretained : (a.finish event).retained = a.retained := by
      obtain ⟨new, hlog⟩ := (logs_finish a event).1
      exact hlog.retained
    refine .cleared phase begins (events.finish event) (hretained.trans retained) (hquiet quiet) fun hactive => ?_
    rw [hstill quiet hactive]
    exact still hactive

/-- The cases do not depend on what an earlier tick has framed, nor on the tick that is counted at the end. -/
theorem Outcome.clocked {s : Sample} {discarding : Bool} {a : Recorder}
    (h : Outcome { r with framed := [] } recs payload s discarding a) (now : Nat) :
    Outcome r recs payload s discarding { a with now } := by
  cases h with
  | opened phase enabled active phase' base' framed' holds =>
    exact .opened phase enabled active phase' base' framed' (holds.of_eq rfl rfl rfl rfl rfl)
  | extended phase active phase' base' framed' holds =>
    exact .extended phase active phase' base' framed' (holds.of_eq rfl rfl rfl rfl rfl)
  | closed phase active events => exact .closed phase active events
  | refused phase enabled active room events phase' => exact .refused phase enabled active room events phase'
  | withdrawn phase active room events phase' => exact .withdrawn phase active room events phase'
  | kept phase begins events quiet still => exact .kept phase begins events quiet still
  | cleared phase begins events retained quiet still => exact .cleared phase begins events retained quiet still

/-- **What a tick can make of a recorder.** -/
theorem outcome_tick (h : r.Holds recs payload) (s : Sample) (event : Option BusEvent) :
    Outcome r recs payload s (r.tick s event).1.discarding (r.tick s event).2 := by
  obtain ⟨hdiscarding, hnext⟩ := tick_eq r s event
  rw [hdiscarding, hnext]
  exact ((outcome_act h.fresh rfl s).2.finish event).clocked _

theorem steady_tick (h : r.Holds recs payload) (s : Sample) (event : Option BusEvent) :
    Steady { r with now := r.now + 1 } (r.tick s event).2 := by
  have hsteady := (outcome_act h.fresh rfl s).1.trans (logs_finish _ event).1.steady
  rw [(tick_eq r s event).2]
  exact ⟨hsteady.taken, hsteady.size, hsteady.captureEvents, hsteady.enabled, congrArg (· + 1) hsteady.now⟩

/-! ## The records of a tick -/

/-- The bytes are those of a record that the stream can carry. -/
def Framing.IsRecord (f : Framing) : Prop := ∃ rec : Record, rec.Framable ∧ f.bytes = rec.toBytes

theorem Framing.IsEvent.isRecord {f : Framing} (h : f.IsEvent) : f.IsRecord := by
  obtain ⟨time, code, hbytes⟩ := h
  exact ⟨.event time code, trivial, hbytes⟩

/-- What a tick leaves of the records that the ring held before it. -/
def surviving {α : Type} (recs : List α) (taken : Nat) (discarding : Bool) : List α :=
  if discarding then Ring.Holds.kept recs taken else recs

theorem OnlyEvents.holds {before : List Framing} {r' : Recorder} (h : OnlyEvents (recs ++ before.reverse.map Framing.bytes)
    before r') (payload' : List UInt8) : r'.Holds (recs ++ r'.framed.reverse.map Framing.bytes) payload' := by
  obtain ⟨new, hframed, -, hring, hphase⟩ := h
  refine holds_of_ne_capturing hphase ?_ payload'
  rw [hframed, List.reverse_append, List.reverse_reverse, List.map_append, ← List.append_assoc]
  exact hring

theorem OnlyEvents.holds_nil {r' : Recorder} (h : OnlyEvents recs [] r') (payload' : List UInt8) :
    r'.Holds (recs ++ r'.framed.reverse.map Framing.bytes) payload' := by
  have hnone : OnlyEvents (recs ++ ([] : List Framing).reverse.map Framing.bytes) [] r' := by
    rwa [List.reverse_nil, List.map_nil, List.append_nil]
  exact hnone.holds payload'

theorem OnlyEvents.isRecord {before : List Framing} {r' : Recorder} (h : OnlyEvents recs before r')
    (hbefore : ∀ f ∈ before, f.IsRecord) : ∀ f ∈ r'.framed, f.IsRecord := by
  obtain ⟨new, hframed, hevents, -, -⟩ := h
  intro f hf
  rw [hframed] at hf
  rcases List.mem_append.1 hf with hf | hf
  · exact (hevents f (List.mem_reverse.1 hf)).isRecord
  · exact hbefore f hf

theorem Outcome.holds {s : Sample} {discarding : Bool} {r' : Recorder} (h : Outcome r recs payload s discarding r') :
    ∃ payload', r'.Holds (surviving recs r.ring.taken discarding ++ r'.framed.reverse.map Framing.bytes) payload' := by
  cases h with
  | opened _ _ _ _ _ framed' holds =>
    refine ⟨s.data, ?_⟩
    rw [framed']
    simpa [surviving] using holds
  | extended _ _ _ _ framed' holds =>
    refine ⟨payload ++ s.data, ?_⟩
    rw [framed']
    simpa [surviving] using holds
  | closed _ _ events => exact ⟨[], events.holds []⟩
  | refused _ _ _ _ events _ => exact ⟨[], events.holds_nil []⟩
  | withdrawn _ _ _ events _ => exact ⟨[], events.holds_nil []⟩
  | kept _ _ events _ _ => exact ⟨[], events.holds_nil []⟩
  | cleared _ _ events _ _ _ => exact ⟨[], events.holds_nil []⟩

theorem Outcome.isRecord {s : Sample} {discarding : Bool} {r' : Recorder} (hr : r.Holds recs payload)
    (h : Outcome r recs payload s discarding r') : ∀ f ∈ r'.framed, f.IsRecord := by
  have hnone : ∀ f ∈ ([] : List Framing), f.IsRecord := fun _ hf => absurd hf List.not_mem_nil
  cases h with
  | opened _ _ _ _ _ framed' _ =>
    rw [framed']
    exact hnone
  | extended _ _ _ _ framed' _ =>
    rw [framed']
    exact hnone
  | closed phase _ events =>
    refine events.isRecord fun f hf => ?_
    rw [List.mem_singleton.1 hf]
    exact ⟨_, Record.framable_packet (hr.packet phase).length_le, rfl⟩
  | refused _ _ _ _ events _ => exact events.isRecord hnone
  | withdrawn _ _ _ events _ => exact events.isRecord hnone
  | kept _ _ events _ _ => exact events.isRecord hnone
  | cleared _ _ events _ _ _ => exact events.isRecord hnone

/-- **A tick adds to the ring the records it frames, behind those it keeps**: all of them, or on a discard the one
that the reader has begun. -/
theorem holds_tick (h : r.Holds recs payload) (s : Sample) (event : Option BusEvent) :
    ∃ payload', (r.tick s event).2.Holds (surviving recs r.ring.taken (r.tick s event).1.discarding ++
      (r.tick s event).2.framed.reverse.map Framing.bytes) payload' :=
  (outcome_tick h s event).holds

theorem isRecord_tick (h : r.Holds recs payload) (s : Sample) (event : Option BusEvent) :
    ∀ f ∈ (r.tick s event).2.framed, f.IsRecord :=
  (outcome_tick h s event).isRecord h

theorem retained_tick (h : r.Holds recs payload) {s : Sample} {event : Option BusEvent}
    (hdiscarding : (r.tick s event).1.discarding = true) : (r.tick s event).2.retained = r.ring.restOfBegun := by
  have hout := outcome_tick h s event
  generalize (r.tick s event).1.discarding = d at hout hdiscarding
  subst hdiscarding
  cases hout with
  | cleared _ _ _ retained _ _ => exact retained

end Recorder
end UsbRecorder
