import UsbRecorder.Proofs.Memory.RingView
import UsbRecorder.Recorder.Tick
/-!
# Logging — what a recorder frames between packets

`Logged r r' new`: from `r` to `r'` the event records `new` were put into the ring, and nothing else was.  Every
function that frames events does that, the ones that give up a packet in progress once its bytes are taken back.
-/
namespace UsbRecorder
namespace Recorder

/-- The record is one of an event. -/
def Framing.IsEvent (f : Framing) : Prop := ∃ time code, f.bytes = (Record.event time code).toBytes

/-- What a recorder leaves alone while it frames: what it was built with, what its user decides, and the tick. -/
structure Steady (r r' : Recorder) : Prop where
  taken : r'.ring.taken = r.ring.taken
  size : r'.ring.size = r.ring.size
  captureEvents : r'.captureEvents = r.captureEvents
  enabled : r'.enabled = r.enabled
  now : r'.now = r.now

theorem Steady.refl (r : Recorder) : Steady r r := ⟨rfl, rfl, rfl, rfl, rfl⟩

theorem Steady.trans {a b c : Recorder} (h₁ : Steady a b) (h₂ : Steady b c) : Steady a c :=
  ⟨h₂.taken.trans h₁.taken, h₂.size.trans h₁.size, h₂.captureEvents.trans h₁.captureEvents,
    h₂.enabled.trans h₁.enabled, h₂.now.trans h₁.now⟩

/-- **Events were framed, and nothing else.** -/
structure Logged (r r' : Recorder) (new : List Framing) : Prop where
  framed : r'.framed = new.reverse ++ r.framed
  events : ∀ f ∈ new, f.IsEvent
  holds : ∀ recs, r.ring.Holds recs [] → r'.ring.Holds (recs ++ new.map Framing.bytes) []
  retained : r'.retained = r.retained
  steady : Steady r r'

/-- Some events were framed. -/
def Logs (r r' : Recorder) : Prop := ∃ new, Logged r r' new

theorem logged_bookkeeping (r : Recorder) (phase : Phase) (base : Nat) (held : List (BusEvent × Nat)) (counts : Counts) :
    Logged r { r with phase, base, held, counts } [] :=
  ⟨rfl, fun _ h => absurd h List.not_mem_nil, fun recs h => (List.append_nil recs).symm ▸ h, rfl,
    ⟨rfl, rfl, rfl, rfl, rfl⟩⟩

theorem Logs.refl (r : Recorder) : Logs r r := ⟨[], logged_bookkeeping r r.phase r.base r.held r.counts⟩

theorem Logged.trans {a b c : Recorder} {new more : List Framing} (h₁ : Logged a b new) (h₂ : Logged b c more) :
    Logged a c (new ++ more) where
  framed := by rw [h₂.framed, h₁.framed, List.reverse_append, List.append_assoc]
  events f hf := (List.mem_append.1 hf).elim (h₁.events f) (h₂.events f)
  holds recs h := by
    rw [List.map_append, ← List.append_assoc]
    exact h₂.holds _ (h₁.holds recs h)
  retained := h₂.retained.trans h₁.retained
  steady := h₁.steady.trans h₂.steady

theorem Logs.trans {a b c : Recorder} (h₁ : Logs a b) (h₂ : Logs b c) : Logs a c := by
  obtain ⟨new, h₁⟩ := h₁
  obtain ⟨more, h₂⟩ := h₂
  exact ⟨new ++ more, h₁.trans h₂⟩

theorem Logs.bookkeeping {r r' : Recorder} (h : Logs r r') (phase : Phase) (base : Nat) (held : List (BusEvent × Nat))
    (counts : Counts) : Logs r { r' with phase, base, held, counts } :=
  h.trans ⟨[], logged_bookkeeping r' phase base held counts⟩

/-! ## One record -/

theorem length_event (time : UInt16) (code : UInt8) : (Record.event time code).toBytes.length = Record.eventSize :=
  Record.length_toBytes _

theorem logged_frame {r : Recorder} (hroom : r.ring.fits Record.eventSize = true) (event : BusEvent) (tick : Nat) :
    Logged r (r.frame event tick) [⟨(Record.event (r.gapBefore tick) event.code).toBytes, tick⟩] where
  framed := rfl
  events f hf := by
    rw [List.mem_singleton.1 hf]
    exact ⟨_, _, rfl⟩
  holds recs h := by
    rw [Ring.fits_iff] at hroom
    exact h.append (Record.toBytes_ne_nil _) ((length_event _ _).symm ▸ hroom)
  retained := rfl
  steady := ⟨Ring.taken_append _ _, Ring.size_append _ _, rfl, rfl, rfl⟩

theorem logs_logStop (r : Recorder) (cause : StopCause) : Logs r (r.logStop cause) := by
  unfold logStop
  split
  · exact .refl r
  · split
    · rename_i hroom
      exact Logs.bookkeeping ⟨_, logged_frame hroom _ _⟩ _ _ _ _
    · exact (Logs.refl r).bookkeeping _ _ _ _

@[simp] theorem phase_logStop (r : Recorder) (cause : StopCause) : (r.logStop cause).phase = r.phase := by
  unfold logStop
  split
  · rfl
  · split <;> rfl

/-! ## Giving up -/

/-- A recorder that has taken the pending bytes of its ring back. -/
def withdrawn (r : Recorder) : Recorder := { r with ring := r.ring.abandon }

/-- **Giving up takes the packet in progress back and frames at most a stop record.** -/
theorem logs_giveUp (r : Recorder) (phase : Phase) (cause : StopCause) : Logs r.withdrawn (r.giveUp phase cause) :=
  Logs.trans ⟨[], logged_bookkeeping r.withdrawn phase r.base [] _⟩ (logs_logStop _ cause)

@[simp] theorem phase_giveUp (r : Recorder) (phase : Phase) (cause : StopCause) : (r.giveUp phase cause).phase = phase :=
  phase_logStop _ _

theorem logged_withdrawn (r : Recorder) : Logged r r.withdrawn [] :=
  ⟨rfl, fun _ h => absurd h List.not_mem_nil, fun recs h => (List.append_nil recs).symm ▸ h.abandon, rfl,
    ⟨rfl, rfl, rfl, rfl, rfl⟩⟩

theorem logs_overflow_of_packet (r : Recorder) : Logs r.withdrawn r.overflow :=
  Logs.trans ⟨[], logged_bookkeeping r.withdrawn r.phase r.base r.held _⟩
    (logs_giveUp { r with counts.overruns := r.counts.overruns + 1 } .overrun .full)

theorem logs_overlong_of_packet (r : Recorder) : Logs r.withdrawn r.overlong :=
  Logs.trans ⟨[], logged_bookkeeping r.withdrawn r.phase r.base r.held _⟩
    (logs_giveUp { r with counts.babbles := r.counts.babbles + 1 } .babble .error)

theorem logs_overflow (r : Recorder) : Logs r r.overflow :=
  Logs.trans ⟨[], logged_withdrawn r⟩ (logs_overflow_of_packet r)

@[simp] theorem phase_overflow (r : Recorder) : r.overflow.phase = .overrun := phase_giveUp _ _ _

@[simp] theorem phase_overlong (r : Recorder) : r.overlong.phase = .babble := phase_giveUp _ _ _

/-! ## Between packets -/

/-- Events were framed between packets, and the ring may have run full on the way. -/
def LogsOn (r r' : Recorder) : Prop := Logs r r' ∧ (r'.phase = r.phase ∨ r'.phase = .overrun)

theorem LogsOn.refl (r : Recorder) : LogsOn r r := ⟨.refl r, .inl rfl⟩

theorem LogsOn.trans {a b c : Recorder} (h₁ : LogsOn a b) (h₂ : LogsOn b c) : LogsOn a c := by
  refine ⟨h₁.1.trans h₂.1, ?_⟩
  rcases h₂.2 with h | h
  · rw [h]
    exact h₁.2
  · exact .inr h

theorem logsOn_log (r : Recorder) (event : BusEvent) (tick : Nat) : LogsOn r (r.log event tick) := by
  unfold log
  split
  · rename_i hroom
    have hfit : r.ring.fits Record.eventSize = true := by
      rw [Ring.fits_iff] at hroom ⊢
      omega
    dsimp only
    split
    · exact ⟨Logs.bookkeeping ⟨_, logged_frame hfit _ _⟩ _ _ _ _, .inl rfl⟩
    · exact ⟨Logs.bookkeeping ⟨_, logged_frame hfit _ _⟩ _ _ _ _, .inl rfl⟩
  · exact ⟨logs_overflow r, .inr (phase_overflow r)⟩

theorem logsOn_bridge (r : Recorder) (n : Nat) : LogsOn r (r.bridge n) := by
  induction n generalizing r with
  | zero => exact .refl r
  | succ n ih =>
    unfold bridge
    split
    · exact (logsOn_log r _ _).trans (ih _)
    · exact .refl r

theorem logsOn_flush (r : Recorder) (n : Nat) : LogsOn r (r.flush n) := by
  induction n generalizing r with
  | zero => exact .refl r
  | succ n ih =>
    unfold flush
    split
    · rename_i hphase _
      have hbridge := logsOn_bridge r (r.gaps ‹Nat›)
      refine hbridge.trans ?_
      dsimp only
      generalize r.bridge (r.gaps ‹Nat›) = b
      split
      · rename_i event tick rest _
        refine LogsOn.trans ⟨(Logs.refl b).bookkeeping b.phase b.base rest b.counts, .inl rfl⟩ ?_
        exact (logsOn_log _ event tick).trans (ih _)
      · exact .refl b
    · exact .refl r

theorem logsOn_keepTime (r : Recorder) : LogsOn r r.keepTime := by
  unfold keepTime
  split
  · exact logsOn_log r _ _
  · exact .refl r

/-- **What is due between packets is framed as events.** -/
theorem logsOn_catchUp (r : Recorder) : LogsOn r r.catchUp := by
  unfold catchUp
  split
  · exact (logsOn_flush r _).trans (logsOn_keepTime _)
  · exact .refl r

theorem catchUp_of_ne_waiting {r : Recorder} (h : r.phase ≠ .waiting) : r.catchUp = r := by
  unfold catchUp
  rw [if_neg h]

end Recorder
end UsbRecorder
