import UsbRecorder.Proofs.Recorder.Entries
/-!
# Turns — what the phase and the sample make of a recorder, and the tick around it

`Turn` has one case for each thing that can begin, go on or end on a tick, with the entries that it adds; `turn_act`
states that there is nothing else.  A tick is a turn, the event of the tick taken in, and two runs of framing
(`ticked`).
-/
namespace UsbRecorder
namespace Recorder

variable {r : Recorder} {recs : List (List UInt8)} {payload : List UInt8}

/-- A recorder with more of the packet in progress. -/
def received (r : Recorder) (data : List UInt8) : Recorder :=
  { r with ring := r.ring.pushAll data, length := r.length + data.length }

/-- **What the phase and the sample make of a recorder that holds a packet of `payload` so far.** -/
inductive Turn (r : Recorder) (payload : List UInt8) (s : Sample) : List Entry → Recorder → Prop where
  | still (goes : r.phase ≠ .capturing) (waits : r.phase = .waiting → r.enabled = true ∧ s.active = false)
      (stopped : r.phase = .stopped → r.enabled = false) : Turn r payload s [] r
  | cleared (goes : r.phase ≠ .capturing) (waits : r.phase ≠ .waiting)
      (quiet : r.phase = .stopped → s.active = true) : Turn r payload s [] { r.discard with phase := .stopped }
  | armed {es : List Entry} {r' : Recorder} (phase : r.phase = .stopped) (enabled : r.enabled = true)
      (quiet : s.active = false) (frames : Frames { r.discard with base := r.now, phase := .waiting } es r')
      (starts : r'.phase = .waiting → ∀ e ∈ es, ∃ setting, e.item = .started setting)
      (silent : r.captureEvents = false → es = [] ∧ r'.phase = .waiting) :
      Turn r payload s (⟨.armed, r.now, 0⟩ :: es) r'
  | ended (phase : r.phase = .waiting) (enabled : r.enabled = false) :
      Turn r payload s (r.stopEntries .requested) r.endCapture
  | opened (phase : r.phase = .waiting) (enabled : r.enabled = true) (active : s.active = true)
      (room : r.HasRoom s.data.length) : Turn r payload s [] (r.opened.received s.data)
  | extended (phase : r.phase = .capturing) (active : s.active = true)
      (room : r.HasRoom (payload.length + s.data.length)) : Turn r payload s [] (r.received s.data)
  | closed (phase : r.phase = .capturing) (quiet : s.active = false)
      (framed : r.closePacket.framed = r.packetFraming payload :: r.framed) :
      Turn r payload s [⟨.packet payload, r.base, r.time⟩] r.closePacket
  /-- there is no room for a packet, or for one byte more of it -/
  | refused {a : Recorder} (active : s.active = true) (enabled : r.phase = .waiting → r.enabled = true)
      (packet : a = r ∧ (r.phase = .waiting ∨ r.phase = .capturing) ∨ a = r.opened ∧ r.phase = .waiting ∧ r.HasRoom 0) :
      Turn r payload s (a.withdrawn.stopEntries .full) a.overflow
  | overlong (phase : r.phase = .capturing) (active : s.active = true) :
      Turn r payload s (r.withdrawn.stopEntries .error) r.overlong

/-! ## There is nothing else -/

theorem addByte_cases (h : r.Holds recs payload) (hphase : r.phase = .capturing) (byte : UInt8) :
    r.HasRoom (payload.length + 1) ∧ r.addByte byte = r.received [byte] ∨ r.addByte byte = r.overflow ∨
      r.addByte byte = r.overlong ∧ payload.length = Record.maxPacket := by
  by_cases hroom : r.HasRoom (payload.length + 1)
  · exact .inl ⟨hroom, addByte_of_hasRoom h hphase hroom byte⟩
  · right
    by_cases hmax : r.length = Record.maxPacket
    · right
      unfold addByte
      rw [if_pos hmax]
      exact ⟨rfl, (h.packet hphase).length ▸ hmax⟩
    · left
      have hnofit : ¬ r.ring.fits (1 + (r.length + 1) % 2 + r.reserve) = true := by
        have hle := (h.packet hphase).length_le
        have hpend := h.pending hphase
        rw [(h.packet hphase).length] at hmax ⊢
        rw [Ring.fits_iff, hpend]
        refine fun hfit => hroom ⟨by omega, ?_⟩
        unfold Record.packetSize
        omega
      unfold addByte
      rw [if_neg hmax, if_neg hnofit]

theorem turn_capturing (h : r.Holds recs payload) (hphase : r.phase = .capturing) (s : Sample) :
    ∃ es, Turn r payload s es (r.act s).2 := by
  rw [act_capturing hphase]
  by_cases hactive : s.active = true
  · rw [if_neg (by simp [hactive])]
    by_cases hvalid : s.valid = true
    · have hdata : s.data = [s.byte] := if_pos hvalid
      rw [if_pos hvalid]
      rcases addByte_cases h hphase s.byte with ⟨hroom, hadd⟩ | hadd | ⟨hadd, -⟩
      · rw [hadd, ← hdata]
        exact ⟨_, .extended hphase hactive (by rw [hdata]; exact hroom)⟩
      · rw [hadd]
        refine ⟨_, .refused hactive (fun hw => ?_) (.inl ⟨rfl, .inr hphase⟩)⟩
        cases hphase.symm.trans hw
      · rw [hadd]
        exact ⟨_, .overlong hphase hactive⟩
    · have hdata : s.data = [] := if_neg hvalid
      have hroom : r.HasRoom (payload.length + s.data.length) := by
        rw [hdata]
        exact ⟨(h.packet hphase).length_le, (h.packet hphase).room⟩
      have hturn : Turn r payload s [] (r.received s.data) := .extended hphase hactive hroom
      rw [hdata] at hturn
      rw [if_neg hvalid]
      exact ⟨_, hturn⟩
  · rw [if_pos (by simp [hactive])]
    exact ⟨_, .closed hphase (by simpa using hactive) (holds_closePacket h hphase).2⟩

theorem turn_openPacket (h : r.ring.Holds recs []) (hphase : r.phase = .waiting) (henabled : r.enabled = true)
    {s : Sample} (hactive : s.active = true) : ∃ es, Turn r payload s es (r.openPacket s) := by
  by_cases hroom : r.HasRoom 0
  · rw [openPacket_of_hasRoom h hroom]
    by_cases hvalid : s.valid = true
    · have hdata : s.data = [s.byte] := if_pos hvalid
      rw [if_pos hvalid]
      rcases addByte_cases (holds_opened h hroom) rfl s.byte with ⟨hroom', hadd⟩ | hadd | ⟨-, hmax⟩
      · rw [hadd, ← hdata]
        refine ⟨_, .opened hphase henabled hactive ?_⟩
        rw [hdata]
        exact (hasRoom_opened r 1).1 hroom'
      · rw [hadd]
        exact ⟨_, .refused hactive (fun _ => henabled) (.inr ⟨rfl, hphase, hroom⟩)⟩
      · exact absurd hmax (by decide)
    · have hdata : s.data = [] := if_neg hvalid
      have hturn : Turn r payload s [] (r.opened.received s.data) :=
        .opened hphase henabled hactive (by rw [hdata]; exact hroom)
      rw [hdata] at hturn
      rw [if_neg hvalid]
      exact ⟨_, hturn⟩
  · rw [openPacket_of_not_hasRoom h hroom]
    exact ⟨_, .refused hactive (fun _ => henabled) (.inl ⟨rfl, .inl hphase⟩)⟩

theorem turn_waiting (h : r.Holds recs payload) (hphase : r.phase = .waiting) (s : Sample) :
    ∃ es, Turn r payload s es (r.act s).2 := by
  have hne : r.phase ≠ .capturing := by rw [hphase]; decide
  rw [act_waiting hphase]
  by_cases henabled : r.enabled = true
  · rw [if_neg (by simp [henabled])]
    by_cases hactive : s.active = true
    · rw [if_pos hactive]
      exact turn_openPacket (h.between hne) hphase henabled hactive
    · rw [if_neg hactive]
      refine ⟨_, .still hne (fun _ => ⟨henabled, by simpa using hactive⟩) fun hstop => ?_⟩
      rw [hphase] at hstop
      cases hstop
  · rw [if_pos (by simp [henabled])]
    exact ⟨_, .ended hphase (by simpa using henabled)⟩

theorem frames_beginCapture (hheld : r.held = []) : ∃ es,
    Frames { r with base := r.now, phase := .waiting } es r.beginCapture ∧
    (r.beginCapture.phase = .waiting → ∀ e ∈ es, ∃ setting, e.item = .started setting) ∧
    (r.captureEvents = false → es = [] ∧ r.beginCapture.phase = .waiting) := by
  unfold beginCapture
  dsimp only
  split_ifs with hon
  · have hdue : Due { r with base := r.now, phase := .waiting } (.started r.speed) r.now [] := .start hon rfl hheld
    have hsame : r = { r with held := [] } := by rw [← hheld]
    obtain ⟨es, hframes, hmarked⟩ := frames_log (r := { r with base := r.now, phase := .waiting }) rfl rfl hdue
    rw [hsame] at hframes ⊢
    refine ⟨es, hframes, fun hw e he => ?_, fun hoff => ?_⟩
    · rw [(hmarked hw).1] at he
      rw [List.mem_singleton.1 he]
      exact ⟨_, rfl⟩
    · cases hoff.symm.trans hon
  · exact ⟨[], .done _, fun _ => nofun, fun _ => ⟨rfl, rfl⟩⟩

theorem turn_stopped (hphase : r.phase = .stopped) (s : Sample) : ∃ es, Turn r payload s es (r.act s).2 := by
  have hne : r.phase ≠ .capturing := by rw [hphase]; decide
  have hnw : r.phase ≠ .waiting := by rw [hphase]; decide
  rw [act_stopped hphase]
  by_cases henabled : r.enabled = true
  · rw [if_pos henabled]
    by_cases hactive : s.active = true
    · have hsame : r.discard = { r.discard with phase := .stopped } := by
        rw [← hphase]
        rfl
      rw [if_pos hactive]
      dsimp only
      rw [hsame]
      exact ⟨_, .cleared hne hnw fun _ => hactive⟩
    · obtain ⟨es, hframes, hstarts, hsilent⟩ := frames_beginCapture (r := r.discard) rfl
      rw [if_neg hactive]
      exact ⟨_, .armed hphase henabled (by simpa using hactive) hframes hstarts hsilent⟩
  · rw [if_neg henabled]
    exact ⟨_, .still hne (fun hw => absurd hw hnw) fun _ => by simpa using henabled⟩

theorem turn_ended (hphase : r.phase = .overrun ∨ r.phase = .babble) (s : Sample) :
    ∃ es, Turn r payload s es (r.act s).2 := by
  have hne := ne_capturing_of_ended hphase
  have hnw : r.phase ≠ .waiting := by rcases hphase with h | h <;> rw [h] <;> decide
  have hns : r.phase ≠ .stopped := by rcases hphase with h | h <;> rw [h] <;> decide
  rw [act_ended hphase]
  by_cases henabled : r.enabled = true
  · rw [if_pos henabled]
    exact ⟨_, .still hne (fun hw => absurd hw hnw) fun hs => absurd hs hns⟩
  · rw [if_neg henabled]
    exact ⟨_, .cleared hne hnw fun hs => absurd hs hns⟩

theorem turn_act (h : r.Holds recs payload) (s : Sample) : ∃ es, Turn r payload s es (r.act s).2 := by
  cases hphase : r.phase with
  | stopped => exact turn_stopped hphase s
  | waiting => exact turn_waiting h hphase s
  | capturing => exact turn_capturing h hphase s
  | overrun => exact turn_ended (.inl hphase) s
  | babble => exact turn_ended (.inr hphase) s

/-! ## What is held -/

/-- **A recorder between two ticks**: it holds events while it captures only, in line. -/
structure Settled (r : Recorder) : Prop extends r.Lined where
  idle : r.phase ≠ .capturing → r.held = []

theorem Settled.of_eq {r' : Recorder} (h : r.Settled) (hbase : r'.base = r.base) (hnow : r'.now = r.now)
    (hheld : r'.held = r.held) (hphase : r'.phase = r.phase) : r'.Settled := by
  obtain ⟨⟨hle, hwithin, hsorted⟩, hidle⟩ := h
  exact ⟨⟨by rwa [hbase, hnow], by rwa [hbase, hnow, hheld], by rwa [hheld]⟩, by rwa [hphase, hheld]⟩

theorem Settled.fresh (h : r.Settled) : Settled { r with framed := [] } := h.of_eq rfl rfl rfl rfl

/-- An event that there is a place for, with its tick. -/
def accepted (r : Recorder) (event : Option BusEvent) : List (BusEvent × Nat) :=
  if r.held.length < maxHeld then event.toList.map fun e => (e, r.now) else []

def takeIn (r : Recorder) (event : Option BusEvent) : Recorder :=
  match event with
  | some e => r.defer e
  | none => r

/-- The number of events that there is no place for. -/
def refused (r : Recorder) (event : Option BusEvent) : Nat :=
  if r.held.length < maxHeld then 0 else event.toList.length

/-- **An event is taken into the line of held events**, or dropped. -/
theorem takeIn_eq (r : Recorder) (event : Option BusEvent) : r.takeIn event = { r with
    counts.dropped := r.counts.dropped +
      if r.phase = .waiting ∨ r.phase = .capturing then r.refused event else event.toList.length
    held := r.held ++ if r.phase = .waiting ∨ r.phase = .capturing then r.accepted event else [] } := by
  cases event with
  | none => simp [takeIn, accepted, refused]
  | some e =>
    unfold takeIn defer accepted refused
    by_cases hphase : r.phase = .waiting ∨ r.phase = .capturing
    · by_cases hplace : r.held.length < maxHeld
      · simp [hphase, hplace]
      · simp [hphase, hplace]
    · simp [hphase]

@[simp] theorem phase_takeIn (r : Recorder) (event : Option BusEvent) : (r.takeIn event).phase = r.phase := by
  rw [takeIn_eq]

@[simp] theorem now_takeIn (r : Recorder) (event : Option BusEvent) : (r.takeIn event).now = r.now := by
  rw [takeIn_eq]

@[simp] theorem base_takeIn (r : Recorder) (event : Option BusEvent) : (r.takeIn event).base = r.base := by
  rw [takeIn_eq]

@[simp] theorem framed_takeIn (r : Recorder) (event : Option BusEvent) : (r.takeIn event).framed = r.framed := by
  rw [takeIn_eq]

theorem held_takeIn (r : Recorder) (event : Option BusEvent) : (r.takeIn event).held =
    r.held ++ if r.phase = .waiting ∨ r.phase = .capturing then r.accepted event else [] := by
  rw [takeIn_eq]

theorem dropped_takeIn (r : Recorder) (event : Option BusEvent) : (r.takeIn event).counts.dropped = r.counts.dropped +
    if r.phase = .waiting ∨ r.phase = .capturing then r.refused event else event.toList.length := by
  rw [takeIn_eq]

/-- The events held after one was taken in: those held before, and new ones of this tick. -/
theorem exists_held_takeIn (r : Recorder) (event : Option BusEvent) :
    ∃ new, (r.takeIn event).held = r.held ++ new ∧ ∀ x ∈ new, x.2 = r.now := by
  rw [held_takeIn]
  refine ⟨_, rfl, fun x hx => ?_⟩
  unfold accepted at hx
  split_ifs at hx
  · obtain ⟨e, -, rfl⟩ := List.mem_map.1 hx
    rfl
  · cases hx
  · cases hx

theorem Lined.takeIn (h : r.Lined) (event : Option BusEvent) : (r.takeIn event).Lined := by
  have htake := r.takeIn_eq event
  obtain ⟨new, hheld, hnew⟩ := r.exists_held_takeIn event
  obtain ⟨hbase, hwithin, hsorted⟩ := h
  have hline : ∀ l : List (BusEvent × Nat), (∀ x ∈ l, x.2 = r.now) → (r.held ++ l).Pairwise (fun x y => x.2 ≤ y.2) := by
    intro l hl
    refine List.pairwise_append.2 ⟨hsorted, List.pairwise_iff_getElem.2 fun i j hi hj _ => ?_, fun x hx y hy => ?_⟩
    · rw [hl _ (List.getElem_mem hi), hl _ (List.getElem_mem hj)]
    · rw [hl y hy]
      exact (hwithin x hx).2
  have hwithin' : ∀ x ∈ r.held ++ new, r.base ≤ x.2 ∧ x.2 ≤ r.now := by
    intro x hx
    rcases List.mem_append.1 hx with hx | hx
    · exact hwithin x hx
    · rw [hnew x hx]
      exact ⟨hbase, Nat.le_refl _⟩
  rw [← hheld] at hwithin'
  have hsorted' := hline _ hnew
  rw [← hheld] at hsorted'
  rw [htake] at hwithin' hsorted' ⊢
  exact ⟨hbase, hwithin', hsorted'⟩

/-- **A tick that is free for framing**: nothing is being received, and a packet ends or a capture goes on or begins. -/
def Free (r : Recorder) (s : Sample) : Prop :=
  s.active = false ∧ (r.phase = .capturing ∨ r.enabled = true ∧ (r.phase = .waiting ∨ r.phase = .stopped))

namespace Turn

variable {s : Sample} {es : List Entry} {r' : Recorder}

theorem now (h : Turn r payload s es r') : r'.now = r.now := by
  cases h with
  | armed _ _ _ frames _ => exact frames.now
  | ended => exact (logStop_frame r .requested).2.1
  | refused _ _ packet =>
    obtain ⟨rfl, -⟩ | ⟨rfl, -⟩ := packet
    · exact now_overflow _
    · exact now_overflow _
  | overlong => exact (giveUp_frame _ _ _).2.1
  | _ => rfl

theorem framed (h : Turn r payload s es r') : r'.framed = (es.filterMap Entry.framing?).reverse ++ r.framed := by
  cases h with
  | armed _ _ _ frames _ => exact frames.framed
  | ended => exact framed_logStop r .requested
  | closed _ _ framed => exact framed
  | refused _ _ packet =>
    obtain ⟨rfl, -⟩ | ⟨rfl, -⟩ := packet
    · exact framed_logStop _ _
    · exact framed_logStop _ _
  | overlong => exact framed_logStop _ _
  | _ => rfl

/-- **What is held stays held**, unless the capture has ended. -/
theorem held (h : Turn r payload s es r') (hr : r.Settled) :
    r'.held = if r'.phase = .waiting ∨ r'.phase = .capturing then r.held else [] := by
  cases h with
  | still goes => simp [hr.idle goes]
  | cleared => rfl
  | armed phase _ _ frames _ =>
    rw [(frames.held_eq_nil rfl).2, hr.idle (by rw [phase]; decide), ite_self]
  | ended phase =>
    rw [show r.endCapture.phase = .stopped from rfl]
    exact (logStop_frame r .requested).1.trans (hr.idle (by rw [phase]; decide))
  | opened => rfl
  | extended phase =>
    rw [show (r.received s.data).phase = .capturing from phase]
    rfl
  | closed => rfl
  | refused =>
    rw [phase_overflow]
    exact held_overflow _
  | overlong =>
    rw [phase_overlong]
    exact (giveUp_frame _ _ _).1

theorem held_takeIn (h : Turn r payload s es r') (hr : r.Settled) (event : Option BusEvent) :
    (r'.takeIn event).held =
      if r'.phase = .waiting ∨ r'.phase = .capturing then r.held ++ r.accepted event else [] := by
  have hheld := h.held hr
  rw [Recorder.held_takeIn]
  split_ifs with hgoes
  · rw [if_pos hgoes] at hheld
    unfold accepted
    rw [hheld, h.now]
  · rw [if_neg hgoes] at hheld
    rw [hheld, List.append_nil]

/-- **A recorder waits on the ticks that are free.** -/
theorem free (h : Turn r payload s es r') (hphase : r'.phase = .waiting) : r.Free s := by
  cases h with
  | still _ waits =>
    obtain ⟨enabled, quiet⟩ := waits hphase
    exact ⟨quiet, .inr ⟨enabled, .inl hphase⟩⟩
  | armed phase enabled quiet => exact ⟨quiet, .inr ⟨enabled, .inr phase⟩⟩
  | closed phase quiet => exact ⟨quiet, .inl phase⟩
  | cleared => cases hphase
  | ended => cases hphase
  | opened => cases hphase
  | extended phase => cases phase.symm.trans hphase
  | refused => cases (phase_overflow _).symm.trans hphase
  | overlong => cases (phase_overlong _).symm.trans hphase

/-- **A turn on a tick that is not free frames nothing but a stop record.** -/
theorem busy (h : Turn r payload s es r') (hbusy : ¬ r.Free s) : ∀ e ∈ es, ∃ cause, e.item = .stopped cause := by
  cases h with
  | armed phase enabled quiet => exact absurd ⟨quiet, .inr ⟨enabled, .inr phase⟩⟩ hbusy
  | closed phase quiet => exact absurd ⟨quiet, .inl phase⟩ hbusy
  | ended => exact fun e he => ⟨_, congrArg Entry.item (mem_stopEntries he)⟩
  | refused => exact fun e he => ⟨_, congrArg Entry.item (mem_stopEntries he)⟩
  | overlong => exact fun e he => ⟨_, congrArg Entry.item (mem_stopEntries he)⟩
  | _ => nofun

theorem heard (h : Turn r payload s es r') : es.filterMap Entry.heard? = [] := by
  cases h with
  | armed _ _ _ frames _ => exact (frames.held_eq_nil rfl).1
  | ended => exact heard?_stopEntries _ _
  | refused => exact heard?_stopEntries _ _
  | overlong => exact heard?_stopEntries _ _
  | _ => rfl

theorem lined (h : Turn r payload s es r') (hr : r.Settled) : r'.Lined := by
  have hbase := hr.base_le
  cases h with
  | still => exact hr.toLined
  | cleared => exact lined_of_held_nil hbase rfl
  | armed _ _ _ frames _ => exact frames.lined (lined_of_held_nil (Nat.le_refl _) rfl)
  | ended phase =>
    obtain ⟨hheld, hnow, hbase'⟩ := r.logStop_frame .requested
    refine lined_of_held_nil ?_ (hheld.trans (hr.idle (by rw [phase]; decide)))
    show (r.logStop .requested).base ≤ (r.logStop .requested).now
    omega
  | opened phase => exact lined_of_held_nil (Nat.le_refl _) (hr.idle (by rw [phase]; decide))
  | extended => exact ⟨hbase, hr.within, hr.sorted⟩
  | closed => exact ⟨hbase, hr.within, hr.sorted⟩
  | refused _ _ packet =>
    obtain ⟨rfl, -⟩ | ⟨rfl, -⟩ := packet
    · exact lined_overflow hbase
    · exact lined_overflow (Nat.le_refl _)
  | overlong => exact lined_giveUp (r := { r with counts.babbles := r.counts.babbles + 1 }) hbase .babble .error

end Turn

/-! ## The tick around a turn -/

/-- A placeholder is framed where the time since the last item has reached its limit, if there is room. -/
inductive Keeps : Recorder → List Entry → Recorder → Prop where
  | early {r : Recorder} (early : r.phase = .waiting → r.now < r.base + span) : Keeps r [] r
  | due {r r' : Recorder} {es : List Entry} (phase : r.phase = .waiting) (elapsed : r.base + span ≤ r.now)
      (frames : Frames r es r')
      (marked : r'.phase = .waiting → es = [⟨.placeholder, r.base + span, r.gapBefore (r.base + span)⟩] ∧
        r'.base = r.base + span) : Keeps r es r'

theorem keeps_keepTime (hheld : r.phase = .waiting → r.held = []) : ∃ es, Keeps r es r.keepTime := by
  unfold keepTime
  split_ifs with hdue
  · obtain ⟨hphase, helapsed⟩ := hdue
    have hnone : ∀ x ∈ r.held, r.base + span < x.2 := by simp [hheld hphase]
    obtain ⟨es, hframes, hmarked⟩ := frames_log hphase rfl (.gap helapsed hnone)
    exact ⟨es, .due hphase helapsed hframes fun hw => ⟨(hmarked hw).1, (hmarked hw).2.1⟩⟩
  · exact ⟨[], .early fun hphase => by
      rw [not_and, Nat.not_le] at hdue
      exact hdue hphase⟩

theorem Keeps.frames {r' : Recorder} {es : List Entry} (h : Keeps r es r') : Frames r es r' := by
  cases h with
  | early => exact .done r
  | due _ _ frames => exact frames

/-- **A tick**: a turn, the event taken in, all that is held framed, and the time kept. -/
inductive Ticked (r : Recorder) (payload : List UInt8) (s : Sample) (event : Option BusEvent) :
    List Entry → Recorder → Prop where
  | tick {a b c : Recorder} {turned flushed kept : List Entry} (turn : Turn { r with framed := [] } payload s turned a)
      (flush : Frames (a.takeIn event) flushed b)
      (done : b.phase = .waiting → b.held = [] ∧ ∀ e ∈ flushed.getLast?, e.heard?.isSome = true)
      (keep : Keeps b kept c) :
      Ticked r payload s event (turned ++ flushed ++ kept) { c with now := c.now + 1 }

theorem ticked (h : r.Holds recs payload) (hr : r.Settled) (s : Sample) (event : Option BusEvent) :
    ∃ es, Ticked r payload s event es (r.tick s event).2 := by
  obtain ⟨turned, hturn⟩ := turn_act h.fresh s
  have hlined := (hturn.lined hr.fresh).takeIn event
  show ∃ es, Ticked r payload s event es { ((({ r with framed := [] }.act s).2.takeIn event).catchUp) with
    now := ((({ r with framed := [] }.act s).2.takeIn event).catchUp).now + 1 }
  generalize ({ r with framed := [] }.act s).2 = a at hturn hlined ⊢
  by_cases hw : (a.takeIn event).phase = .waiting
  · obtain ⟨flushed, hflush, hdone⟩ := frames_flush _ hw hlined rfl
    obtain ⟨kept, hkeep⟩ := keeps_keepTime (r := (a.takeIn event).flushHeld) fun hwait => (hdone hwait).1
    unfold catchUp
    rw [if_pos hw]
    exact ⟨_, .tick hturn hflush hdone hkeep⟩
  · rw [catchUp_of_ne_waiting hw]
    exact ⟨_, .tick hturn (.done _) (fun h => absurd h hw) (.early fun h => absurd h hw)⟩

end Recorder
end UsbRecorder
