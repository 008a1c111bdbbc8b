import Mathlib.Data.List.Forall2
import UsbRecorder.Proofs.Recorder.Outcome
import UsbRecorder.Recorder.Run
/-!
# Reception — packet records against the stretches of reception they come from

`exact_capture`: under any actions each packet record is one whole stretch of reception, with its data and nothing else,
different records are different stretches in order, and a stretch that begins while the recorder waits becomes a record
wherever there is room for it.
-/
namespace UsbRecorder

/-- A stretch of ticks, from `start` on and before `stop`. -/
structure Reception where
  start : Nat
  stop : Nat

namespace Reception

/-- Reception began at `start`, and has gone on ever since. -/
structure UnderWay (c : Reception) (samples : List Sample) : Prop where
  nonempty : c.start < c.stop
  stop_le : c.stop ≤ samples.length
  before : ∃ n s, c.start = n + 1 ∧ samples[n]? = some s ∧ s.active = false
  during : ∀ i s, c.start ≤ i → i < c.stop → samples[i]? = some s → s.active = true

/-- **A whole stretch of reception**, with a tick without reception before it and one after it. -/
structure Whole (c : Reception) (samples : List Sample) : Prop extends c.UnderWay samples where
  after : ∃ s, samples[c.stop]? = some s ∧ s.active = false

/-- The data that was received. -/
def data (c : Reception) (samples : List Sample) : List UInt8 :=
  ((samples.drop c.start).take (c.stop - c.start)).flatMap Sample.data

variable {c : Reception} {samples : List Sample}

theorem getElem?_append_of_some {n : Nat} {s : Sample} (h : samples[n]? = some s) (more : List Sample) :
    (samples ++ more)[n]? = some s := by
  obtain ⟨hlt, -⟩ := List.getElem?_eq_some_iff.1 h
  rw [List.getElem?_append_left hlt, h]

theorem UnderWay.append (h : c.UnderWay samples) (more : List Sample) : c.UnderWay (samples ++ more) := by
  obtain ⟨hne, hle, ⟨n, s, hn, hs, hactive⟩, hduring⟩ := h
  refine ⟨hne, ?_, ⟨n, s, hn, getElem?_append_of_some hs more, hactive⟩, fun i x hi hlt hx => ?_⟩
  · rw [List.length_append]
    omega
  · rw [List.getElem?_append_left (Nat.lt_of_lt_of_le hlt hle)] at hx
    exact hduring i x hi hlt hx

theorem Whole.append (h : c.Whole samples) (more : List Sample) : c.Whole (samples ++ more) := by
  obtain ⟨s, hs, hactive⟩ := h.after
  exact ⟨h.toUnderWay.append more, ⟨s, getElem?_append_of_some hs more, hactive⟩⟩

theorem Whole.stop_lt (h : c.Whole samples) : c.stop < samples.length := by
  obtain ⟨s, hs, -⟩ := h.after
  exact (List.getElem?_eq_some_iff.1 hs).1

theorem data_append (h : c.UnderWay samples) (more : List Sample) : c.data (samples ++ more) = c.data samples := by
  have hlt := h.nonempty
  have hle := h.stop_le
  unfold data
  rw [List.drop_append_of_le_length (by omega), List.take_append_of_le_length]
  rw [List.length_drop]
  omega

theorem data_of_stop_eq (h : c.stop = samples.length) : c.data samples = (samples.drop c.start).flatMap Sample.data := by
  unfold data
  rw [List.take_of_length_le]
  rw [List.length_drop, h]

theorem underWay_singleton {s₀ s : Sample} (hlast : samples.getLast? = some s₀) (hbefore : s₀.active = false)
    (hactive : s.active = true) : UnderWay ⟨samples.length, samples.length + 1⟩ (samples ++ [s]) := by
  have hne : samples ≠ [] := by
    rintro rfl
    cases hlast
  have hpos := List.length_pos_iff.2 hne
  rw [List.getLast?_eq_getElem?] at hlast
  refine ⟨Nat.lt_succ_self _, by simp, ⟨samples.length - 1, s₀, by dsimp only; omega, ?_, hbefore⟩, ?_⟩
  · exact getElem?_append_of_some hlast [s]
  · intro i x hi hlt hx
    have hi' : i = samples.length := by
      dsimp only at hi hlt
      omega
    rw [hi', List.getElem?_concat_length] at hx
    cases hx
    exact hactive

theorem UnderWay.extend {start : Nat} {s : Sample} (h : UnderWay ⟨start, samples.length⟩ samples) (hactive : s.active = true) :
    UnderWay ⟨start, samples.length + 1⟩ (samples ++ [s]) := by
  obtain ⟨hne, hle, hbefore, hduring⟩ := h.append [s]
  refine ⟨Nat.lt_succ_of_lt hne, by simp, hbefore, fun i x hi hlt hx => ?_⟩
  rcases Nat.lt_succ_iff_lt_or_eq.1 hlt with hold | hnew
  · exact hduring i x hi hold hx
  · rw [hnew, List.getElem?_concat_length] at hx
    cases hx
    exact hactive

theorem UnderWay.whole {start : Nat} {s : Sample} (h : UnderWay ⟨start, samples.length⟩ samples) (hactive : s.active = false) :
    Whole ⟨start, samples.length⟩ (samples ++ [s]) :=
  ⟨h.append [s], ⟨s, List.getElem?_concat_length, hactive⟩⟩

end Reception

namespace Recorder

/-- The sample of an action, if it is a tick. -/
def Action.sample? : Action → Option Sample
  | .tick s _ => some s
  | _ => none

/-- The samples of the ticks among actions, in order. -/
def sampled (actions : List Action) : List Sample := actions.filterMap Action.sample?

/-- The record is one of a packet: it does not begin with the tag of events. -/
def Framing.isPacket (f : Framing) : Bool := f.bytes.head? != some Record.tag

/-- **The record is that of a stretch of reception**: its length, at most that of the longest packet, its time, its data,
and a zero byte where the length is odd. -/
structure Framing.Records (f : Framing) (samples : List Sample) (c : Reception) : Prop where
  tick : f.tick = c.start
  length_le : (c.data samples).length ≤ Record.maxPacket
  bytes : ∃ time : UInt16, f.bytes = bytesOf (UInt16.ofNat (c.data samples).length) ++ bytesOf time ++ c.data samples ++
    if (c.data samples).length % 2 = 1 then [0] else []

variable {r : Recorder} {recs : List (List UInt8)} {payload : List UInt8}

theorem Framing.IsEvent.isPacket {f : Framing} (h : f.IsEvent) : f.isPacket = false := by
  obtain ⟨time, code, hbytes⟩ := h
  unfold Framing.isPacket
  rw [hbytes]
  rfl

theorem isPacket_packetFraming (hle : payload.length ≤ Record.maxPacket) :
    (r.packetFraming payload).isPacket = true := by
  have hlt : payload.length < 0xFF00 := Record.framable_packet (t := 0) hle
  have hword : (UInt16.ofNat payload.length).toNat = payload.length :=
    UInt16.toNat_ofNat_of_lt (by show payload.length < 65536; omega)
  have hne := Record.ofNat_div_ne_tag hlt
  show (some (UInt8.ofNat ((UInt16.ofNat payload.length).toNat / 256)) != some Record.tag) = true
  rw [hword]
  simpa using hne

theorem Framing.records_packetFraming {samples : List Sample} {c : Reception} (hstart : r.base = c.start)
    (hdata : c.data samples = payload) (hle : payload.length ≤ Record.maxPacket) :
    (r.packetFraming payload).Records samples c := by
  subst hdata
  refine ⟨hstart, hle, r.time, ?_⟩
  have hpad : Record.padding (c.data samples).length = if (c.data samples).length % 2 = 1 then [0] else [] := by
    unfold Record.padding
    rcases Nat.mod_two_eq_zero_or_one (c.data samples).length with h | h <;> rw [h] <;> rfl
  rw [← hpad]
  rfl

theorem Framing.Records.append {f : Framing} {samples : List Sample} {c : Reception} (h : f.Records samples c)
    (hc : c.UnderWay samples) (more : List Sample) : f.Records (samples ++ more) c := by
  have hdata := Reception.data_append hc more
  exact ⟨h.tick, by rw [hdata]; exact h.length_le, by rw [hdata]; exact h.bytes⟩

theorem OnlyEvents.packets {before : List Framing} {r' : Recorder} (h : OnlyEvents recs before r') :
    r'.framed.reverse.filter Framing.isPacket = before.reverse.filter Framing.isPacket := by
  obtain ⟨new, hframed, hevents, -, -⟩ := h
  have hnone : new.filter Framing.isPacket = [] :=
    List.filter_eq_nil_iff.2 fun f hf => by simp [(hevents f hf).isPacket]
  rw [hframed, List.reverse_append, List.reverse_reverse, List.filter_append, hnone, List.append_nil]

/-! ## Every packet record is a stretch of reception -/

/-- What has been framed so far, against the samples so far. -/
def Matched (samples : List Sample) (framings : List Framing) : Prop :=
  ∃ receptions : List Reception, receptions.Pairwise (fun a b => a.stop < b.start) ∧
    List.Forall₂ (fun c f => c.Whole samples ∧ f.Records samples c) receptions (framings.filter Framing.isPacket)

/-- **A recorder between two ticks, against the samples so far**: a packet in progress is the reception that goes on. -/
structure Tracked (r : Recorder) (samples : List Sample) (framings : List Framing) : Prop where
  now : r.now = samples.length
  waiting : r.phase = .waiting → ∃ s, samples.getLast? = some s ∧ s.active = false
  capturing : r.phase = .capturing → Reception.UnderWay ⟨r.base, samples.length⟩ samples
  holds : ∃ recs, r.Holds recs ((samples.drop r.base).flatMap Sample.data)
  matched : Matched samples framings

variable {samples : List Sample} {framings : List Framing}

theorem Matched.append (h : Matched samples framings) {new : List Framing} (hnew : new.filter Framing.isPacket = [])
    (s : Sample) : Matched (samples ++ [s]) (framings ++ new) := by
  obtain ⟨receptions, horder, hrecords⟩ := h
  refine ⟨receptions, horder, ?_⟩
  rw [List.filter_append, hnew, List.append_nil]
  exact hrecords.imp fun c f hc => ⟨hc.1.append [s], hc.2.append hc.1.toUnderWay [s]⟩

/-- One packet record more, of the stretch that has just ended. -/
theorem Matched.concat (h : Matched samples framings) {new : List Framing} {f : Framing} {start : Nat} {s : Sample}
    (hnew : new.filter Framing.isPacket = [f]) (hunder : Reception.UnderWay ⟨start, samples.length⟩ samples)
    (hactive : s.active = false) (hf : f.Records samples ⟨start, samples.length⟩) :
    Matched (samples ++ [s]) (framings ++ new) := by
  obtain ⟨receptions, horder, hrecords⟩ := h
  refine ⟨receptions ++ [⟨start, samples.length⟩], ?_, ?_⟩
  · refine List.pairwise_append.2 ⟨horder, List.pairwise_singleton _ _, fun a ha b hb => ?_⟩
    rw [List.mem_singleton.1 hb]
    have ha' := ((List.forall₂_and_left _ _).1 hrecords).1 a ha
    obtain ⟨x, hx, hquiet⟩ := ha'.after
    -- the tick after an earlier stretch is without reception, so it is none of this one
    refine Nat.lt_of_not_le fun hle => ?_
    have := hunder.during a.stop x hle ha'.stop_lt hx
    rw [hquiet] at this
    cases this
  · rw [List.filter_append, hnew]
    refine List.rel_append (hrecords.imp fun c g hc => ⟨hc.1.append [s], hc.2.append hc.1.toUnderWay [s]⟩) ?_
    exact .cons ⟨hunder.whole hactive, hf.append hunder [s]⟩ .nil

theorem tracked_create {size : Nat} {captureEvents : Bool} (h : create size captureEvents = .ok r) :
    Tracked r [] [] ∧ r.ring.size = size ∧ r.captureEvents = captureEvents := by
  obtain ⟨hholds, hsize⟩ := holds_create h []
  obtain ⟨ring, hring, rfl⟩ := create_eq h
  exact ⟨⟨rfl, nofun, nofun, ⟨[], hholds⟩, [], .nil, .nil⟩, hsize, rfl⟩

theorem Tracked.between (h : Tracked r samples framings) {s : Sample} {r' : Recorder} (hnow : r'.now = r.now + 1)
    (hevents : OnlyEvents recs [] r') (hquiet : r'.phase = .waiting → s.active = false) :
    Tracked r' (samples ++ [s]) (framings ++ r'.framed.reverse) where
  now := by rw [hnow, h.now, List.length_append, List.length_singleton]
  waiting hw := ⟨s, List.getLast?_concat, hquiet hw⟩
  capturing hc := absurd hc hevents.choose_spec.2.2.2
  holds := ⟨_, hevents.holds_nil _⟩
  matched := h.matched.append hevents.packets s

/-- **A tick keeps track.** -/
theorem Tracked.tick (h : Tracked r samples framings) (s : Sample) (event : Option BusEvent) :
    Tracked (r.tick s event).2 (samples ++ [s]) (framings ++ (r.tick s event).2.framed.reverse) := by
  obtain ⟨recs, hholds⟩ := h.holds
  have hout := outcome_tick hholds s event
  have hnow : (r.tick s event).2.now = r.now + 1 := (steady_tick hholds s event).now
  have hlen : (samples ++ [s]).length = samples.length + 1 := by simp
  generalize (r.tick s event).1.discarding = d, (r.tick s event).2 = r' at hout hnow ⊢
  cases hout with
  | opened phase enabled active phase' base' framed' holds =>
    obtain ⟨s₀, hlast, hbefore⟩ := h.waiting phase
    have hbase : r'.base = samples.length := base'.trans h.now
    refine ⟨?_, ?_, fun _ => ?_, ⟨recs, ?_⟩, ?_⟩
    · rw [hnow, h.now, hlen]
    · rw [phase']
      nofun
    · rw [hbase, hlen]
      exact Reception.underWay_singleton hlast hbefore active
    · rw [hbase, List.drop_left, List.flatMap_singleton]
      exact holds
    · exact h.matched.append (by rw [framed']; rfl) s
  | extended phase active phase' base' framed' holds =>
    have hunder := h.capturing phase
    refine ⟨?_, ?_, fun _ => ?_, ⟨recs, ?_⟩, ?_⟩
    · rw [hnow, h.now, hlen]
    · rw [phase']
      nofun
    · rw [base', hlen]
      exact hunder.extend active
    · have hle : r.base ≤ samples.length := Nat.le_of_lt hunder.nonempty
      rw [base', List.drop_append_of_le_length hle, List.flatMap_append, List.flatMap_singleton]
      exact holds
    · exact h.matched.append (by rw [framed']; rfl) s
  | closed phase active events =>
    have hunder := h.capturing phase
    have hle := (hholds.packet phase).length_le
    have hrecords : (r.packetFraming _).Records samples ⟨r.base, samples.length⟩ :=
      Framing.records_packetFraming rfl (Reception.data_of_stop_eq rfl) hle
    refine ⟨?_, fun _ => ⟨s, List.getLast?_concat, active⟩, fun hc => ?_, ⟨_, events.holds _⟩, ?_⟩
    · rw [hnow, h.now, hlen]
    · exact absurd hc events.choose_spec.2.2.2
    · refine h.matched.concat ?_ hunder active hrecords
      rw [events.packets, List.reverse_singleton, List.filter_cons_of_pos (isPacket_packetFraming hle)]
      rfl
  | refused phase enabled active room events phase' =>
    refine h.between hnow events fun hw => ?_
    rw [hw] at phase'
    rcases phase' with h | h <;> cases h
  | withdrawn phase active room events phase' =>
    refine h.between hnow events fun hw => ?_
    rw [hw] at phase'
    rcases phase' with h | h <;> cases h
  | kept phase begins events quiet still => exact h.between hnow events quiet
  | cleared phase begins events retained quiet still => exact h.between hnow events quiet

theorem holds_take (h : r.Holds recs payload) : ∃ recs', r.take.2.Holds recs' payload := by
  cases recs with
  | nil => exact ⟨[], by rwa [take_of_nil h]⟩
  | cons first others => exact ⟨_, h.take.2.1⟩

theorem Tracked.still (h : Tracked r samples framings) {r' : Recorder} (hnow : r'.now = r.now) (hbase : r'.base = r.base)
    (hphase : r'.phase = r.phase) (hholds : ∀ recs payload, r.Holds recs payload → ∃ recs', r'.Holds recs' payload) :
    Tracked r' (samples ++ []) (framings ++ []) := by
  obtain ⟨recs, hr⟩ := h.holds
  rw [List.append_nil, List.append_nil]
  refine ⟨hnow.trans h.now, fun hw => h.waiting (hphase ▸ hw), fun hc => ?_, ?_, h.matched⟩
  · rw [hbase]
    exact h.capturing (hphase ▸ hc)
  · rw [hbase]
    exact hholds recs _ hr

theorem Tracked.step (h : Tracked r samples framings) (a : Action) :
    Tracked (r.step a) (samples ++ a.sample?.toList) (framings ++ r.framings [a]) := by
  cases a with
  | tick s event =>
    rw [Recorder.framings, Recorder.framings, List.append_nil]
    exact h.tick s event
  | enable on => exact h.still rfl rfl rfl fun recs _ hr => ⟨recs, hr.of_eq rfl rfl rfl rfl rfl⟩
  | setSpeed speed => exact h.still rfl rfl rfl fun recs _ hr => ⟨recs, hr.of_eq rfl rfl rfl rfl rfl⟩
  | take => exact h.still rfl rfl rfl fun _ _ => holds_take

theorem sampled_cons (a : Action) (actions : List Action) :
    sampled (a :: actions) = a.sample?.toList ++ sampled actions := by
  unfold sampled
  cases h : a.sample? <;> simp [h]

/-- **Any actions keep track.** -/
theorem Tracked.after (h : Tracked r samples framings) (actions : List Action) :
    Tracked (r.after actions) (samples ++ sampled actions) (framings ++ r.framings actions) := by
  induction actions generalizing r samples framings with
  | nil =>
    show Tracked r (samples ++ []) (framings ++ [])
    rwa [List.append_nil, List.append_nil]
  | cons a actions ih =>
    have := ih (h.step a)
    rw [List.append_assoc, List.append_assoc, ← sampled_cons] at this
    rwa [show r.framings (a :: actions) = r.framings [a] ++ (r.step a).framings actions from
      framings_append r [a] actions]

/-! ## What is framed is what the ring holds -/

/-- **What a tick frames is put into the ring behind what it keeps of it.** -/
theorem contents_tick (h : r.Holds recs payload) (s : Sample) (event : Option BusEvent) :
    (r.tick s event).2.ring.contents =
      (if (r.tick s event).1.discarding then r.ring.contents.take r.ring.restOfBegun else r.ring.contents) ++
        (r.tick s event).2.framed.reverse.flatMap Framing.bytes := by
  obtain ⟨payload', hnext⟩ := holds_tick h s event
  have htaken : (r.tick s event).2.ring.taken = r.ring.taken := (steady_tick h s event).taken
  obtain ⟨hle, hkept⟩ := h.ring.contents_kept
  rw [hnext.ring.contents_eq, htaken, List.flatten_append, ← List.flatMap_def]
  unfold surviving
  split
  · rw [List.drop_append_of_le_length hle, hkept]
  · rw [List.drop_append_of_le_length h.ring.taken_le, h.ring.contents_eq]

/-! ## A stretch that there is room for becomes a record -/

theorem HasRoom.mono {m n : Nat} (h : r.HasRoom n) (hle : m ≤ n) : r.HasRoom m := by
  have := packetSize_mono hle
  obtain ⟨hmax, hroom⟩ := h
  exact ⟨by omega, by omega⟩

theorem HasRoom.of_le {r' : Recorder} {n : Nat} (h : r.HasRoom n) (hcommitted : r'.ring.committed ≤ r.ring.committed)
    (hsize : r'.ring.size = r.ring.size) (hcapture : r'.captureEvents = r.captureEvents) : r'.HasRoom n := by
  obtain ⟨hmax, hroom⟩ := h
  have hreserve : r'.reserve = r.reserve := congrArg reserveFor hcapture
  refine ⟨hmax, ?_⟩
  rw [hsize, hreserve]
  omega

/-- **A packet in progress with room for all that is still to come.** -/
structure Capturing (r : Recorder) (base : Nat) (payload : List UInt8) (total : Nat) : Prop where
  phase : r.phase = .capturing
  base_eq : r.base = base
  holds : ∃ recs, r.Holds recs payload
  room : r.HasRoom total

variable {base total : Nat}

theorem committed_of_holds {r' : Recorder} {payload' : List UInt8} (h : r.Holds recs payload) (h' : r'.Holds recs payload')
    (htaken : r'.ring.taken = r.ring.taken) : r'.ring.committed = r.ring.committed := by
  have := h.ring.committed
  have := h'.ring.committed
  omega

theorem capturing_open (h : r.ring.Holds recs []) (hphase : r.phase = .waiting) (henabled : r.enabled = true) {s : Sample}
    (hactive : s.active = true) (event : Option BusEvent) (hroom : r.HasRoom total) (hle : s.data.length ≤ total) :
    (r.tick s event).2.Capturing r.now s.data total ∧ (r.tick s event).2.framed = [] := by
  have hne : r.phase ≠ .capturing := by rw [hphase]; decide
  have hholds : r.Holds recs [] := holds_of_ne_capturing hne h []
  have hout := outcome_tick hholds s event
  have hsteady := steady_tick hholds s event
  generalize (r.tick s event).1.discarding = d, (r.tick s event).2 = r' at hout hsteady ⊢
  cases hout with
  | opened _ _ _ phase' base' framed' holds =>
    have hcommitted := committed_of_holds hholds holds hsteady.taken
    exact ⟨⟨phase', base', ⟨recs, holds⟩, hroom.of_le (Nat.le_of_eq hcommitted) hsteady.size hsteady.captureEvents⟩, framed'⟩
  | refused _ _ _ room _ _ => exact absurd (hroom.mono hle) room
  | extended phase _ _ _ _ _ => exact absurd phase hne
  | withdrawn phase _ _ _ _ => exact absurd phase hne
  | closed phase _ _ => exact absurd phase hne
  | kept _ begins _ _ _ =>
    rw [begins hphase henabled] at hactive
    cases hactive
  | cleared _ begins _ _ _ _ => exact absurd hphase begins

theorem Capturing.tick (h : r.Capturing base payload total) {s : Sample} (hactive : s.active = true)
    (event : Option BusEvent) (hle : payload.length + s.data.length ≤ total) :
    (r.tick s event).2.Capturing base (payload ++ s.data) total ∧ (r.tick s event).2.framed = [] := by
  obtain ⟨hphase, hbase, ⟨recs, hholds⟩, hroom⟩ := h
  have hout := outcome_tick hholds s event
  have hsteady := steady_tick hholds s event
  generalize (r.tick s event).1.discarding = d, (r.tick s event).2 = r' at hout hsteady ⊢
  cases hout with
  | extended _ _ phase' base' framed' holds =>
    have hcommitted := committed_of_holds hholds holds hsteady.taken
    have hroom' := hroom.of_le (Nat.le_of_eq hcommitted) hsteady.size hsteady.captureEvents
    exact ⟨⟨phase', base'.trans hbase, ⟨recs, holds⟩, hroom'⟩, framed'⟩
  | withdrawn _ _ room _ _ => exact absurd (hroom.mono hle) room
  | closed _ active _ =>
    rw [active] at hactive
    cases hactive
  | opened phase _ _ _ _ _ _ =>
    rw [hphase] at phase
    cases phase
  | refused phase _ _ _ _ _ =>
    rw [hphase] at phase
    cases phase
  | kept phase _ _ _ _ => exact absurd hphase phase
  | cleared phase _ _ _ _ _ => exact absurd hphase phase

/-- A tick without reception makes the packet a record, before anything else that it frames. -/
theorem Capturing.close (h : r.Capturing base payload total) {s : Sample} (hactive : s.active = false)
    (event : Option BusEvent) :
    ∃ time later, (r.tick s event).2.framed.reverse = ⟨(Record.packet time payload).toBytes, base⟩ :: later := by
  obtain ⟨hphase, hbase, ⟨recs, hholds⟩, hroom⟩ := h
  have hout := outcome_tick hholds s event
  generalize (r.tick s event).1.discarding = d, (r.tick s event).2 = r' at hout ⊢
  cases hout with
  | closed _ _ events =>
    obtain ⟨new, hframed, -, -, -⟩ := events
    refine ⟨r.time, new, ?_⟩
    rw [hframed, List.reverse_append, List.reverse_reverse, List.reverse_singleton, packetFraming, hbase]
    rfl
  | opened phase _ _ _ _ _ _ =>
    rw [hphase] at phase
    cases phase
  | refused phase _ _ _ _ _ =>
    rw [hphase] at phase
    cases phase
  | extended _ active _ _ _ _ =>
    rw [hactive] at active
    cases active
  | withdrawn _ active _ _ _ =>
    rw [hactive] at active
    cases active
  | kept phase _ _ _ _ => exact absurd hphase phase
  | cleared phase _ _ _ _ _ => exact absurd hphase phase

theorem Capturing.take (h : r.Capturing base payload total) : r.take.2.Capturing base payload total := by
  obtain ⟨hphase, hbase, ⟨recs, hholds⟩, hroom⟩ := h
  obtain ⟨hsize, -, -, hcommitted⟩ := r.ring.take_frame
  exact ⟨hphase, hbase, holds_take hholds, hroom.of_le hcommitted hsize rfl⟩

/-- **While reception goes on, a packet with room for the rest of it is extended, whatever the reader and the user do.** -/
theorem Capturing.after (h : r.Capturing base payload total) {actions : List Action}
    (hactive : ∀ s ∈ sampled actions, s.active = true)
    (hle : (payload ++ (sampled actions).flatMap Sample.data).length ≤ total) :
    (r.after actions).Capturing base (payload ++ (sampled actions).flatMap Sample.data) total ∧
      r.framings actions = [] := by
  induction actions generalizing r payload with
  | nil =>
    show r.Capturing base (payload ++ []) total ∧ _
    rw [List.append_nil]
    exact ⟨h, rfl⟩
  | cons a actions ih =>
    cases a with
    | tick s event =>
      rw [sampled_cons] at hactive hle ⊢
      simp only [Action.sample?, Option.toList_some, List.singleton_append, List.flatMap_cons, ← List.append_assoc,
        List.forall_mem_cons] at hactive hle ⊢
      have hfits : payload.length + s.data.length ≤ total := by
        rw [List.length_append, List.length_append] at hle
        omega
      obtain ⟨hstep, hframed⟩ := h.tick hactive.1 event hfits
      obtain ⟨hafter, hnone⟩ := ih hstep hactive.2 hle
      refine ⟨hafter, ?_⟩
      rw [framings, hframed, hnone]
      rfl
    | enable on =>
      obtain ⟨hphase, hbase, ⟨recs, hholds⟩, hroom⟩ := h
      exact ih ⟨hphase, hbase, ⟨recs, hholds.of_eq rfl rfl rfl rfl rfl⟩, hroom⟩ hactive hle
    | setSpeed speed =>
      obtain ⟨hphase, hbase, ⟨recs, hholds⟩, hroom⟩ := h
      exact ih ⟨hphase, hbase, ⟨recs, hholds.of_eq rfl rfl rfl rfl rfl⟩, hroom⟩ hactive hle
    | take => exact ih h.take hactive hle

/-- **A stretch that there is room for becomes a record.** -/
theorem recorded_of_room (h : r.ring.Holds recs []) (hphase : r.phase = .waiting) (henabled : r.enabled = true)
    {s₀ s : Sample} {middle : List Action} (hfirst : s₀.active = true) (hactive : ∀ x ∈ sampled middle, x.active = true)
    (hlast : s.active = false) (e₀ e : Option BusEvent)
    (hroom : r.HasRoom ((s₀ :: sampled middle).flatMap Sample.data).length) :
    ∃ time later, r.framings (.tick s₀ e₀ :: middle ++ [.tick s e]) =
      ⟨(Record.packet time ((s₀ :: sampled middle).flatMap Sample.data)).toBytes, r.now⟩ :: later := by
  rw [List.flatMap_cons] at hroom ⊢
  have hle : s₀.data.length ≤ (s₀.data ++ (sampled middle).flatMap Sample.data).length := by
    rw [List.length_append]
    omega
  obtain ⟨hopen, hframed⟩ := capturing_open h hphase henabled hfirst e₀ hroom hle
  obtain ⟨hgoes, hnone⟩ := hopen.after hactive (Nat.le_refl _)
  obtain ⟨time, later, hclose⟩ := hgoes.close hlast e
  refine ⟨time, later, ?_⟩
  rw [List.cons_append, framings, hframed, framings_append, hnone, framings, framings, hclose, List.append_nil]
  rfl

/-! ## A stretch that ends in an overrun leaves nothing behind -/

theorem stopped_tick (h : r.Holds recs payload) (hphase : r.phase = .stopped) {s : Sample} (hactive : s.active = true)
    (event : Option BusEvent) : (r.tick s event).2.phase = .stopped := by
  have hout := outcome_tick h s event
  generalize (r.tick s event).1.discarding = d, (r.tick s event).2 = r' at hout ⊢
  cases hout with
  | kept _ _ _ _ still =>
    rcases still hactive with hstop | hsame
    · exact hstop
    · rw [hsame, hphase]
  | cleared _ _ _ _ _ still => exact still hactive
  | opened phase _ _ _ _ _ _ =>
    rw [hphase] at phase
    cases phase
  | extended phase _ _ _ _ _ =>
    rw [hphase] at phase
    cases phase
  | closed phase _ _ =>
    rw [hphase] at phase
    cases phase
  | refused phase _ _ _ _ _ =>
    rw [hphase] at phase
    cases phase
  | withdrawn phase _ _ _ _ =>
    rw [hphase] at phase
    cases phase

theorem events_tick (h : r.Holds recs payload) {s : Sample} (hactive : s.active = true) (event : Option BusEvent)
    (hphase : (r.tick s event).2.phase ≠ .stopped) :
    (r.tick s event).1.discarding = false ∧ ∀ f ∈ (r.tick s event).2.framed, f.IsEvent := by
  have hout := outcome_tick h s event
  generalize (r.tick s event).1.discarding = d, (r.tick s event).2 = r' at hout hphase ⊢
  have hnone : ∀ {recs' : List (List UInt8)}, OnlyEvents recs' [] r' → ∀ f ∈ r'.framed, f.IsEvent := by
    rintro recs' ⟨new, hframed, hevents, -, -⟩ f hf
    rw [hframed, List.append_nil] at hf
    exact hevents f (List.mem_reverse.1 hf)
  cases hout with
  | opened _ _ _ _ _ framed' _ => exact ⟨rfl, by rw [framed']; nofun⟩
  | extended _ _ _ _ framed' _ => exact ⟨rfl, by rw [framed']; nofun⟩
  | closed _ active _ =>
    rw [active] at hactive
    cases hactive
  | refused _ _ _ _ events _ => exact ⟨rfl, hnone events⟩
  | withdrawn _ _ _ events _ => exact ⟨rfl, hnone events⟩
  | kept _ _ events _ _ => exact ⟨rfl, hnone events⟩
  | cleared _ _ _ _ _ still => exact absurd (still hactive) hphase

theorem stopped_after (h : r.Holds recs payload) (hphase : r.phase = .stopped) {actions : List Action}
    (hactive : ∀ s ∈ sampled actions, s.active = true) : (r.after actions).phase = .stopped := by
  induction actions generalizing r recs payload with
  | nil => exact hphase
  | cons a actions ih =>
    cases a with
    | tick s event =>
      rw [sampled_cons] at hactive
      obtain ⟨hs, hrest⟩ := List.forall_mem_cons.1 hactive
      obtain ⟨payload', hnext⟩ := holds_tick h s event
      exact ih hnext (stopped_tick h hphase hs event) hrest
    | enable on => exact ih (h.of_eq rfl rfl rfl rfl rfl) hphase hactive
    | setSpeed speed => exact ih (h.of_eq rfl rfl rfl rfl rfl) hphase hactive
    | take => exact ih (holds_take h).choose_spec hphase hactive

/-- **Where reception has ended in an overrun or in babble, the ring holds none of it**: what it did not hold before are
events. -/
theorem contents_of_ended (h : r.Holds recs payload) {actions : List Action}
    (hactive : ∀ s ∈ sampled actions, s.active = true)
    (hended : (r.after actions).phase = .overrun ∨ (r.after actions).phase = .babble) :
    (∀ f ∈ r.framings actions, f.IsEvent) ∧ (r.after actions).ring.pending = 0 ∧
      (r.after actions).ring.contents <:+ r.ring.contents ++ (r.framings actions).flatMap Framing.bytes := by
  induction actions generalizing r recs payload with
  | nil =>
    refine ⟨nofun, (h.between (ne_capturing_of_ended hended)).pending, ?_⟩
    rw [framings, List.flatMap_nil, List.append_nil]
    exact List.suffix_refl _
  | cons a actions ih =>
    cases a with
    | tick s event =>
      rw [sampled_cons] at hactive
      obtain ⟨hs, hrest⟩ := List.forall_mem_cons.1 hactive
      obtain ⟨payload', hnext⟩ := holds_tick h s event
      have hgoes : (r.tick s event).2.phase ≠ .stopped := by
        intro hstop
        have hend : ((r.tick s event).2.after actions).phase = .overrun ∨
          ((r.tick s event).2.after actions).phase = .babble := hended
        rw [stopped_after hnext hstop hrest] at hend
        rcases hend with h | h <;> cases h
      obtain ⟨hkeeps, hevents⟩ := events_tick h hs event hgoes
      obtain ⟨hlater, hpending, hcontents⟩ := ih hnext hrest hended
      have htick := contents_tick h s event
      rw [hkeeps, if_neg Bool.false_ne_true] at htick
      rw [htick, List.append_assoc, ← List.flatMap_append] at hcontents
      refine ⟨fun f hf => ?_, hpending, hcontents⟩
      rcases List.mem_append.1 hf with hnew | hold
      · exact hevents f (List.mem_reverse.1 hnew)
      · exact hlater f hold
    | enable on => exact ih (h.of_eq rfl rfl rfl rfl rfl) hactive hended
    | setSpeed speed => exact ih (h.of_eq rfl rfl rfl rfl rfl) hactive hended
    | take =>
      obtain ⟨recs', hnext⟩ := holds_take h
      obtain ⟨hlater, hpending, hcontents⟩ := ih hnext hactive hended
      refine ⟨hlater, hpending, hcontents.trans ?_⟩
      obtain ⟨gone, hgone⟩ := List.tail_suffix r.ring.contents
      refine ⟨gone, ?_⟩
      rw [show r.take.2.ring.contents = r.ring.contents.tail from h.ring.contents_take, ← List.append_assoc, hgone]
      rfl

/-! ## The whole -/

theorem built_after (h : r.Holds recs payload) (actions : List Action) :
    (r.after actions).ring.size = r.ring.size ∧ (r.after actions).captureEvents = r.captureEvents := by
  induction actions generalizing r recs payload with
  | nil => exact ⟨rfl, rfl⟩
  | cons a actions ih =>
    cases a with
    | tick s event =>
      obtain ⟨payload', hnext⟩ := holds_tick h s event
      have hsteady := steady_tick h s event
      obtain ⟨hsize, hcapture⟩ := ih hnext
      exact ⟨hsize.trans hsteady.size, hcapture.trans hsteady.captureEvents⟩
    | enable on => exact ih (h.of_eq rfl rfl rfl rfl rfl)
    | setSpeed speed => exact ih (h.of_eq rfl rfl rfl rfl rfl)
    | take =>
      obtain ⟨recs', hnext⟩ := holds_take h
      obtain ⟨hsize, hcapture⟩ := ih hnext
      exact ⟨hsize.trans r.ring.take_frame.1, hcapture⟩

/-- What a recorder that was built for a size and with or without capture events owes to its user, whatever the user,
the bus and the reader do. -/
structure ExactCapture (r₀ : Recorder) (size : Nat) (captureEvents : Bool) : Prop where
  /-- each packet record is one whole stretch of reception, and different ones are different stretches, in order -/
  matched : ∀ actions, Matched (sampled actions) (r₀.framings actions)
  /-- what is framed is what is put into the ring -/
  committed : ∀ before s event, ((r₀.after before).tick s event).2.ring.contents =
    (if ((r₀.after before).tick s event).1.discarding then
        (r₀.after before).ring.contents.take (r₀.after before).ring.restOfBegun
      else (r₀.after before).ring.contents) ++
      ((r₀.after before).tick s event).2.framed.reverse.flatMap Framing.bytes
  /-- a stretch that begins while the recorder waits, and that there is room for, becomes a record as it ends -/
  recorded : ∀ before s₀ e₀ middle s e, (r₀.after before).phase = .waiting → (r₀.after before).enabled = true →
    s₀.active = true → (∀ x ∈ sampled middle, x.active = true) → s.active = false →
    ((s₀ :: sampled middle).flatMap Sample.data).length ≤ Record.maxPacket →
    Record.packetSize ((s₀ :: sampled middle).flatMap Sample.data).length + reserveFor captureEvents ≤
      size - (r₀.after before).ring.contents.length →
    ∃ time later, (r₀.after before).framings (.tick s₀ e₀ :: middle ++ [.tick s e]) =
      ⟨(Record.packet time ((s₀ :: sampled middle).flatMap Sample.data)).toBytes, (r₀.after before).now⟩ :: later
  /-- a stretch that has ended in an overrun or in babble has left nothing in the ring: what has come in are events -/
  withdrawn : ∀ before during, (∀ x ∈ sampled during, x.active = true) →
    (r₀.after (before ++ during)).phase = .overrun ∨ (r₀.after (before ++ during)).phase = .babble →
    (∀ f ∈ (r₀.after before).framings during, f.IsEvent) ∧ (r₀.after (before ++ during)).ring.pending = 0 ∧
      (r₀.after (before ++ during)).ring.contents <:+
        (r₀.after before).ring.contents ++ ((r₀.after before).framings during).flatMap Framing.bytes

/-- **Exact capture.** -/
theorem exactCapture_of_create {size : Nat} {captureEvents : Bool} {r₀ : Recorder}
    (h : create size captureEvents = .ok r₀) : r₀.ExactCapture size captureEvents := by
  obtain ⟨hstart, hsize, hcapture⟩ := tracked_create h
  obtain ⟨recs₀, hholds₀⟩ := hstart.holds
  have hreach : ∀ actions, ∃ recs payload, (r₀.after actions).Holds recs payload := fun actions => by
    obtain ⟨recs, hholds⟩ := (hstart.after actions).holds
    exact ⟨recs, _, hholds⟩
  refine ⟨fun actions => (hstart.after actions).matched, fun before s event => ?_, ?_, ?_⟩
  · obtain ⟨recs, payload, hholds⟩ := hreach before
    exact contents_tick hholds s event
  · intro before s₀ e₀ middle s e hphase henabled hfirst hactive hlast hmax hroom
    obtain ⟨recs, payload, hholds⟩ := hreach before
    obtain ⟨hsize', hcapture'⟩ := built_after hholds₀ before
    have hring := hholds.between (by rw [hphase]; decide)
    refine recorded_of_room hring hphase henabled hfirst hactive hlast e₀ e ⟨hmax, ?_⟩
    have hlen : (r₀.after before).ring.contents.length = (r₀.after before).ring.committed := by
      rw [hring.contents_eq, hring.length_unread]
    have hle := hring.room
    rw [hlen] at hroom
    unfold reserve
    rw [hsize', hcapture', hsize, hcapture] at *
    omega
  · intro before during hactive hended
    obtain ⟨recs, payload, hholds⟩ := hreach before
    rw [after_append] at hended ⊢
    exact contents_of_ended hholds hactive hended

/-- A recorder is enabled, and a tick without reception arms it. -/
def armed : List Action := [.enable true, .tick {} none]

/-- A tick on which a byte is received. -/
def receiving (byte : UInt8) : Action := .tick { active := true, valid := true, byte } none

/-- Two bytes become a record of a ring of 16; of five bytes a ring of 8 keeps none. -/
theorem exactCapture_two_bytes : ∃ r₀ r₁, create 16 true = .ok r₀ ∧ create 8 false = .ok r₁ ∧ r₀.ExactCapture 16 true ∧
    (r₀.framings (armed ++ [receiving 7, receiving 9, .tick {} none])).filter Framing.isPacket =
      [⟨[0, 2, 0, 0, 7, 9], 1⟩] ∧
    (∃ time later, (r₀.after armed).framings [receiving 7, receiving 9, .tick {} none] =
      ⟨(Record.packet time [7, 9]).toBytes, 1⟩ :: later) ∧
    (r₁.after (armed ++ [receiving 1, receiving 2, receiving 3, receiving 4, receiving 5])).ring.contents <:+ [] := by
  have hwide : create 16 true = .ok { ring := { size := 16 }, captureEvents := true } := rfl
  have hnarrow : create 8 false = .ok { ring := { size := 8 }, captureEvents := false } := rfl
  refine ⟨_, _, hwide, hnarrow, exactCapture_of_create hwide, by decide +kernel, ?_, ?_⟩
  · exact (exactCapture_of_create hwide).recorded armed { active := true, valid := true, byte := 7 } none [receiving 9] {}
      none (by decide +kernel) (by decide +kernel) rfl (by decide) rfl (by decide) (by decide +kernel)
  · exact ((exactCapture_of_create hnarrow).withdrawn armed
      [receiving 1, receiving 2, receiving 3, receiving 4, receiving 5] (by decide) (by decide +kernel)).2.2

end Recorder
end UsbRecorder
