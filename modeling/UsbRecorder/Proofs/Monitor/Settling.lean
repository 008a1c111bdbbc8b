import Mathlib.Data.List.Induction
import Mathlib.Tactic.SplitIfs
import UsbRecorder.Monitor.Step
/-!
# Settling — the ticks that settle whether the bus is at high speed

Five events settle the speed of a bus: the others come on the way, or tell of the line alone.  `outside_move` and
`advances_move` say once what a tick can do where the speed is detected, outside a handshake and within one.  By them
high speed comes with the report of a handshake and lasts until something else settles the speed
(`lastSettling_of_keepsHigh`).
-/
namespace UsbRecorder

namespace BusEvent

/-- A loss of power, an attach, a reset or a handshake that was completed. -/
def settlesSpeed : BusEvent → Bool
  | vbusInvalid | fullAttach | lowAttach | reset | hostChirp => true
  | _ => false

end BusEvent

theorem Signalling.settlesSpeed_report (g : Signalling) (line : Line) : (g.report line).settlesSpeed = false := by
  cases g <;> cases line <;> rfl

/-- The last event of a run that settles the speed. -/
def lastSettling (reports : List (Option BusEvent)) : Option BusEvent :=
  (reports.filterMap (Option.filter BusEvent.settlesSpeed)).getLast?

theorem lastSettling_append (reports : List (Option BusEvent)) (report : Option BusEvent) :
    lastSettling (reports ++ [report]) = (report.filter BusEvent.settlesSpeed).or (lastSettling reports) := by
  unfold lastSettling
  rw [List.filterMap_append, List.getLast?_append]
  cases h : report.filter BusEvent.settlesSpeed <;> simp [h]

namespace BusPhase

/-- After a reset, as long as the two sides may still agree on high speed. -/
def isHandshake : BusPhase → Bool
  | deviceChirpDue | deviceChirping | hostKDue | hostK | hostJDue | hostJ => true
  | _ => false

/-- The bus is taken to be at high speed, or it was before what may be a suspend. -/
def isHigh : BusPhase → Bool
  | highFound | highActive | squelched => true
  | _ => false

/-- Changes of the line are reported. -/
def watchesLine : BusPhase → Bool
  | initial | unpowered | lowActive | fullActive | highActive | highListening | highFound | squelched => false
  | _ => true

/-- High speed, or a suspend from it. -/
def keepsHigh (phase : BusPhase) (wasHigh : Bool) : Bool := phase.isHigh || phase == .fullSuspended && wasHigh

end BusPhase

namespace Monitor

variable {m : Monitor} {s : Sample} {l : Sight}

/-! ## What is reported -/

theorem report_of_event {e : BusEvent} (h : (m.move s (m.sight s.line)).event = some e) : (m.step s).1 = some e := by
  unfold step newSpeed
  dsimp only
  rw [h]
  rfl

theorem lineEvent_eq_none (hphase : m.phase.watchesLine = false) (l : Sight) : m.lineEvent l = none := by
  have hwatched : m.watched l.line = none := by
    unfold watched
    cases hp : m.phase with
    | initial | unpowered | lowActive | fullActive | highActive | highListening | highFound | squelched => rfl
    | _ =>
      rw [hp] at hphase
      cases hphase
  unfold lineEvent
  rw [hwatched, Option.map_none, ite_self]

theorem report_of_lineEvent {e : BusEvent} (h : m.lineEvent l = some e) :
    l.changed = true ∧ ∃ g : Signalling, e = g.report l.line := by
  unfold lineEvent at h
  split at h
  · rename_i hchanged
    obtain ⟨g, -, rfl⟩ := Option.map_eq_some_iff.1 h
    exact ⟨hchanged, g, rfl⟩
  · cases h

/-- What neither a change of the line nor one of the detected speed tells is told by moves alone. -/
theorem bind_report {α : Type} (m : Monitor) (s : Sample) {f : BusEvent → Option α}
    (hline : ∀ (g : Signalling) line, f (g.report line) = none) (hspeed : ∀ speed, f (.detected speed) = none) :
    (m.step s).1.bind f = (m.move s (m.sight s.line)).event.bind f := by
  cases hevent : (m.move s (m.sight s.line)).event with
  | some e => rw [report_of_event hevent]
  | none =>
    unfold step
    dsimp only
    rw [hevent]
    generalize m.newSpeed _ _ = speed
    cases hchange : m.lineEvent (m.sight s.line) with
    | none =>
      cases speed with
      | none => rfl
      | some speed => exact hspeed speed
    | some e =>
      obtain ⟨-, g, rfl⟩ := report_of_lineEvent hchange
      exact hline g s.line

/-- Only a move settles the speed: a change of the line or of the detected speed does not. -/
theorem filter_report (m : Monitor) (s : Sample) : (m.step s).1.filter BusEvent.settlesSpeed =
    (m.move s (m.sight s.line)).event.filter BusEvent.settlesSpeed := by
  rw [← Option.bind_guard, ← Option.bind_guard]
  refine m.bind_report s (fun g line => ?_) (fun _ => rfl)
  simp [Option.guard, g.settlesSpeed_report]

/-! ## Outside a handshake -/

/-- **What a tick does outside a handshake**: one begins, or none does, and a bus that is at high speed afterwards was
so before and nothing was settled. -/
def Outside (m : Monitor) (mv : Move) : Prop :=
  mv = m.beginHandshake ∨ mv.next.isHandshake = false ∧ mv.event ≠ some .hostChirp ∧
    (mv.next.keepsHigh mv.wasHigh = true →
      m.phase.keepsHigh m.wasHigh = true ∧ mv.event.filter BusEvent.settlesSpeed = none)

namespace Outside

variable {mv : Move}

theorem low (hnext : mv.next.isHandshake = false) (hlow : mv.next.keepsHigh mv.wasHigh = false)
    (hevent : mv.event ≠ some .hostChirp) : m.Outside mv := .inr ⟨hnext, hevent, fun h => by simp [hlow] at h⟩

theorem high (hnext : mv.next.isHandshake = false) (hhigh : m.phase.keepsHigh m.wasHigh = true)
    (hevent : mv.event.filter BusEvent.settlesSpeed = none) : m.Outside mv := by
  refine .inr ⟨hnext, fun h => ?_, fun _ => ⟨hhigh, hevent⟩⟩
  rw [h] at hevent
  cases hevent

theorem stay (h : m.phase.isHandshake = false) : m.Outside m.stay := .inr ⟨h, nofun, fun hhigh => ⟨hhigh, rfl⟩⟩

theorem resetTo (hauto : m.isAuto = true) (next : BusPhase) : m.Outside (m.resetTo next) := by
  unfold Monitor.resetTo
  rw [if_pos hauto]
  exact .inl rfl

theorem start (hauto : m.mode = .auto) (vbus : Bool) (event : Option BusEvent) (phy : Speed)
    (hevent : event ≠ some .hostChirp) : m.Outside { m.go (m.startPhase vbus) event with phy } := by
  unfold startPhase
  rw [hauto]
  cases vbus <;> exact .low rfl rfl hevent

variable (hauto : m.isAuto = true) (hstay : m.Outside m.stay) (l : Sight)
include hstay

theorem detached : m.Outside (m.moveDetached l) := by
  unfold moveDetached
  split_ifs
  · exact .low rfl rfl nofun
  · exact .low rfl rfl nofun
  · exact hstay

theorem lowActive : m.Outside (m.moveLowActive l) := by
  unfold moveLowActive
  split_ifs
  · exact .low rfl rfl nofun
  · exact .low rfl rfl nofun
  · exact .low rfl rfl nofun
  · exact hstay

theorem lowReset : m.Outside (m.moveLowReset l) := by
  unfold moveLowReset
  split_ifs
  · exact .low rfl rfl nofun
  · exact .low rfl rfl nofun
  · exact hstay

theorem resuming (j : Line) {reset awake : BusPhase} (hreset : m.Outside (m.go reset (some .reset)))
    (hawake : m.Outside (m.go awake)) : m.Outside (m.moveResuming l j reset awake) := by
  unfold moveResuming
  split_ifs
  · exact hreset
  · exact hawake
  · exact hstay

theorem fullReset : m.Outside (m.moveFullReset l) := by
  unfold moveFullReset
  split_ifs
  · exact .low rfl rfl nofun
  · exact hstay

theorem highDenied : m.Outside (m.moveHighDenied l) := by
  unfold moveHighDenied
  split_ifs
  · exact .low rfl rfl nofun
  · exact .low rfl rfl nofun
  · exact hstay

include hauto

theorem suspended (k : Line) (reset : BusPhase) {awake resuming : BusPhase}
    (hawake : m.Outside (m.go awake (some .resume))) : m.Outside (m.moveSuspended l k reset awake resuming) := by
  unfold moveSuspended
  rw [hauto]
  split_ifs
  · exact .resetTo hauto reset
  · exact hawake
  · simp at *
  · exact hstay

theorem fullActive : m.Outside (m.moveFullActive l) := by
  unfold moveFullActive
  split_ifs
  · exact .resetTo hauto .fullReset
  · exact .low rfl rfl nofun
  · exact .low rfl rfl nofun
  · exact .low rfl rfl nofun
  · exact hstay

end Outside

theorem outside_move (hauto : m.mode = .auto) (hphase : m.phase.isHandshake = false) (s : Sample) (l : Sight) :
    m.Outside (m.move s l) := by
  have hisAuto : m.isAuto = true := by simp [isAuto, hauto]
  have hstay : m.Outside m.stay := .stay hphase
  unfold move
  split
  · exact .low rfl rfl nofun
  · cases hp : m.phase with
    | initial => exact .start hauto s.vbus none .full nofun
    | unpowered =>
      unfold moveUnpowered
      dsimp only
      split
      · exact .start hauto true (some .vbusValid) m.phy nofun
      · exact hstay
    | detached => exact .detached hstay l
    | lowActive => exact .lowActive hstay l
    | lowReset => exact .lowReset hstay l
    | lowSuspended => exact .suspended hisAuto hstay l _ _ (.low rfl rfl nofun)
    | lowResuming => exact .resuming hstay l _ (.low rfl rfl nofun) (.low rfl rfl nofun)
    | fullActive => exact .fullActive hisAuto hstay l
    | fullReset => exact .fullReset hstay l
    | fullSuspended =>
      refine .suspended hisAuto hstay l _ _ ?_
      cases hhigh : m.wasHigh with
      | true => exact .high rfl (by rw [hp, hhigh]; rfl) rfl
      | false => exact .low rfl rfl nofun
    | fullResuming => exact .resuming hstay l _ (.low rfl rfl nofun) (.low rfl rfl nofun)
    | highActive =>
      show m.Outside (m.moveHighActive l)
      unfold moveHighActive
      split
      · exact .high rfl (by rw [hp]; rfl) rfl
      · exact hstay
    | highListening => exact hstay
    | highFound => exact .high rfl (by rw [hp]; rfl) rfl
    | highDenied => exact .highDenied hstay l
    | squelched =>
      show m.Outside (m.moveSquelched l)
      unfold moveSquelched
      split_ifs
      · exact hstay
      · exact .high rfl (by rw [hp]; rfl) rfl
      · exact .inl rfl
    | _ => rw [hp] at hphase; cases hphase


/-! ## Within a handshake -/

/-- **What a tick does within a handshake**: it breaks it off, or takes it one step on. -/
inductive Advances (m : Monitor) (l : Sight) : Move → Prop
  | broken {mv : Move} (hnext : mv.next.isHandshake = false) (hlow : mv.next.keepsHigh mv.wasHigh = false)
      (hevent : mv.event ≠ some .hostChirp) : m.Advances l mv
  | deviceAwaited (hphase : m.phase = .deviceChirpDue) : m.Advances l m.stay
  | deviceChirps (hphase : m.phase = .deviceChirpDue) (htime : m.timer < m.thresholds.deviceChirp.toNat) :
      m.Advances l (m.go .deviceChirping (some .deviceChirp))
  | deviceHolds (hphase : m.phase = .deviceChirping) (hline : l.line = .dMinus) : m.Advances l m.stay
  | deviceReleases (hphase : m.phase = .deviceChirping) (hline : l.line ≠ .dMinus)
      (htime : m.timer < m.thresholds.deviceChirp.toNat) : m.Advances l { m.go .hostKDue with restart := true }
  | awaitedK (hphase : m.phase = .hostKDue) : m.Advances l m.stay
  | beginsK (hphase : m.phase = .hostKDue) (hline : l.line = .dMinus) : m.Advances l (m.go .hostK)
  | breaksK (hphase : m.phase = .hostK) : m.Advances l (m.go .hostKDue)
  | holdsK (hphase : m.phase = .hostK) (hline : l.line = .dMinus) : m.Advances l m.stay
  | lastsK (hphase : m.phase = .hostK) (hline : l.line = .dMinus) (hheld : m.thresholds.reset.toNat ≤ l.held) :
      m.Advances l (m.go .hostJDue)
  | awaitedJ (hphase : m.phase = .hostJDue) : m.Advances l m.stay
  | beginsJ (hphase : m.phase = .hostJDue) (hline : l.line = .dPlus) : m.Advances l (m.go .hostJ)
  | breaksJ (hphase : m.phase = .hostJ) : m.Advances l (m.go .hostJDue)
  | holdsJ (hphase : m.phase = .hostJ) (hline : l.line = .dPlus) : m.Advances l m.stay
  | lastsJ (hphase : m.phase = .hostJ) (hline : l.line = .dPlus) (hheld : m.thresholds.reset.toNat ≤ l.held) :
      m.Advances l { m.go .hostKDue with pairs := m.pairs + 1 }
  | completes (hphase : m.phase = .hostJ) (hline : l.line = .dPlus) (hheld : m.thresholds.reset.toNat ≤ l.held)
      (hpairs : m.pairs = 2) (htime : m.timer < m.thresholds.hostChirp.toNat) :
      m.Advances l (m.go .highFound (some .hostChirp))

theorem advances_denied : m.Advances l (m.go .highDenied) := .broken rfl rfl nofun

theorem advances_move (hphase : m.phase.isHandshake = true) (s : Sample) (l : Sight) : m.Advances l (m.move s l) := by
  unfold move
  split
  · exact .broken rfl rfl nofun
  · cases hp : m.phase with
    | deviceChirpDue =>
      show m.Advances l (m.moveDeviceChirpDue l)
      unfold moveDeviceChirpDue
      split_ifs with htime
      · exact advances_denied
      · exact .deviceChirps hp (Nat.lt_of_not_le htime)
      · exact .deviceAwaited hp
    | deviceChirping =>
      show m.Advances l (m.moveDeviceChirping l)
      unfold moveDeviceChirping
      split_ifs with htime hline
      · exact advances_denied
      · exact .deviceReleases hp hline (Nat.lt_of_not_le htime)
      · exact .deviceHolds hp (by simpa using hline)
    | hostKDue =>
      show m.Advances l (m.moveHostDue l .dMinus .hostK)
      unfold moveHostDue
      split_ifs with hline
      · exact .beginsK hp hline
      · exact advances_denied
      · exact .awaitedK hp
    | hostK =>
      show m.Advances l (m.moveHostK l)
      unfold moveHostK
      split_ifs with htime hline hheld
      · exact advances_denied
      · exact .breaksK hp
      · exact .lastsK hp (by simpa using hline) hheld
      · exact .holdsK hp (by simpa using hline)
    | hostJDue =>
      show m.Advances l (m.moveHostDue l .dPlus .hostJ)
      unfold moveHostDue
      split_ifs with hline
      · exact .beginsJ hp hline
      · exact advances_denied
      · exact .awaitedJ hp
    | hostJ =>
      show m.Advances l (m.moveHostJ l)
      unfold moveHostJ
      split_ifs with htime hline hheld hpairs
      · exact advances_denied
      · exact .breaksJ hp
      · exact .completes hp (by simpa using hline) hheld hpairs (Nat.lt_of_not_le htime)
      · exact .lastsJ hp (by simpa using hline) hheld
      · exact .holdsJ hp (by simpa using hline)
    | _ => rw [hp] at hphase; cases hphase

namespace Advances

variable {mv : Move}

theorem of_deviceChirpDue (h : m.Advances l mv) (hphase : m.phase = .deviceChirpDue)
    (hnext : mv.next.isHandshake = true) :
    mv = m.stay ∨ mv = m.go .deviceChirping (some .deviceChirp) ∧ m.timer < m.thresholds.deviceChirp.toNat := by
  cases h <;> simp_all [go, BusPhase.isHandshake]

theorem of_deviceChirping (h : m.Advances l mv) (hphase : m.phase = .deviceChirping)
    (hnext : mv.next.isHandshake = true) :
    mv = m.stay ∧ l.line = .dMinus ∨ mv = { m.go .hostKDue with restart := true } ∧ l.line ≠ .dMinus ∧
      m.timer < m.thresholds.deviceChirp.toNat := by
  cases h <;> simp_all [go, BusPhase.isHandshake]

theorem of_host (h : m.Advances l mv) (hdue : m.phase ≠ .deviceChirpDue) (hchirping : m.phase ≠ .deviceChirping)
    (hnext : mv.next.isHandshake = true) : mv.event = none ∧ mv.restart = false := by
  cases h <;> simp_all [go, stay, BusPhase.isHandshake]

theorem of_hostChirp (h : m.Advances l mv) (hevent : mv.event = some .hostChirp) :
    m.phase = .hostJ ∧ l.line = .dPlus ∧ m.thresholds.reset.toNat ≤ l.held ∧ m.pairs = 2 ∧
      m.timer < m.thresholds.hostChirp.toNat := by
  cases h <;> simp_all [go, stay]

/-- High speed is not found without the report of it. -/
theorem keepsHigh (h : m.Advances l mv) (hhigh : mv.next.keepsHigh mv.wasHigh = true) :
    mv.event = some .hostChirp := by
  cases h <;> simp_all [go, stay, BusPhase.keepsHigh, BusPhase.isHigh]

end Advances

/-! ## High speed -/

/-- High speed comes with the report of it, and is kept as long as nothing settles the speed anew. -/
theorem keepsHigh_step (hauto : m.mode = .auto) (h : (m.step s).2.phase.keepsHigh (m.step s).2.wasHigh = true) :
    (m.step s).1 = some .hostChirp ∨
      m.phase.keepsHigh m.wasHigh = true ∧ (m.step s).1.filter BusEvent.settlesSpeed = none := by
  have hsettles := m.filter_report s
  cases hphase : m.phase.isHandshake with
  | true => exact .inl (report_of_event ((advances_move hphase s (m.sight s.line)).keepsHigh h))
  | false =>
    obtain hbegins | ⟨-, -, hhigh⟩ := outside_move hauto hphase s (m.sight s.line)
    · have hkeeps : (m.move s (m.sight s.line)).next.keepsHigh (m.move s (m.sight s.line)).wasHigh = true := h
      rw [hbegins] at hkeeps
      cases hkeeps
    · exact .inr ⟨(hhigh h).1, hsettles.trans (hhigh h).2⟩

theorem lastSettling_of_keepsHigh (hauto : m.mode = .auto) (hstart : m.phase.keepsHigh m.wasHigh = false)
    {samples : List Sample} (h : (m.after samples).phase.keepsHigh (m.after samples).wasHigh = true) :
    lastSettling (m.reports samples) = some .hostChirp := by
  induction samples using List.reverseRecOn with
  | nil => cases hstart.symm.trans h
  | append_singleton samples s ih =>
    rw [after_append] at h
    rw [reports_append]
    show lastSettling (m.reports samples ++ [((m.after samples).step s).1]) = _
    rw [lastSettling_append]
    obtain hfound | ⟨hbefore, hnothing⟩ := keepsHigh_step ((m.mode_after samples).trans hauto) h
    · rw [hfound]
      rfl
    · rw [hnothing, ih hbefore]
      rfl

end Monitor
end UsbRecorder
