import UsbRecorder.Proofs.Monitor.Settling
/-!
# Phases — which phases may follow a phase

`next_move`: a tick stays in its phase, or goes to one of the few that may follow it, or to the one without power.
What holds of every way into a phase is then a matter of the phases before it.
-/
namespace UsbRecorder

namespace BusPhase

/-- The phases that may follow a phase, a loss of power apart. -/
def followers : BusPhase → List BusPhase
  | initial => [unpowered, highListening, detached]
  | unpowered => [highListening, detached]
  | detached => [fullActive, lowActive]
  | lowActive => [lowReset, lowSuspended]
  | lowReset => [fullActive, lowActive]
  | lowSuspended => [deviceChirpDue, lowReset, lowActive, lowResuming]
  | lowResuming => [lowReset, lowActive]
  | fullActive => [deviceChirpDue, fullReset, fullSuspended]
  | fullReset => [fullActive]
  | fullSuspended => [deviceChirpDue, fullReset, highFound, fullActive, fullResuming]
  | fullResuming => [fullReset, fullActive]
  | highActive => [squelched]
  | highListening => []
  | deviceChirpDue => [highDenied, deviceChirping]
  | deviceChirping => [highDenied, hostKDue]
  | hostKDue => [hostK, highDenied]
  | hostK => [highDenied, hostKDue, hostJDue]
  | hostJDue => [hostJ, highDenied]
  | hostJ => [highDenied, hostJDue, highFound, hostKDue]
  | highFound => [highActive]
  | highDenied => [fullActive, lowActive]
  | squelched => [fullSuspended, deviceChirpDue]

end BusPhase

namespace Monitor

variable {m : Monitor} {s : Sample} {l : Sight}

theorem startPhase_mem (m : Monitor) (vbus : Bool) : m.startPhase vbus ∈ BusPhase.followers .initial := by
  unfold startPhase
  split_ifs <;> decide

theorem vbus_of_startPhase {vbus : Bool} (h : m.startPhase vbus = .unpowered) : vbus = false := by
  unfold startPhase at h
  split_ifs at h with hvbus
  simpa using hvbus

/-- **Which way a tick may go.** -/
theorem next_move (m : Monitor) (s : Sample) (l : Sight) :
    s.vbus = false ∧ (m.move s l).next = .unpowered ∨ (m.move s l).next = m.phase ∨
      (m.move s l).next ∈ m.phase.followers := by
  unfold move
  split
  · rename_i hlost
    simp only [Bool.and_eq_true, Bool.not_eq_true'] at hlost
    exact .inl ⟨hlost.1, rfl⟩
  · right
    cases hp : m.phase with
    | initial => exact .inr (m.startPhase_mem s.vbus)
    | highListening => exact .inl hp
    | highFound => exact .inr (List.mem_singleton.2 rfl)
    | unpowered =>
      simp only [moveUnpowered, startPhase]
      split_ifs <;> simp_all [go, stay, BusPhase.followers]
    | _ =>
      simp only [moveDetached, moveLowActive, moveLowReset, moveSuspended, moveResuming, moveFullActive, moveFullReset,
        moveHighActive, moveDeviceChirpDue, moveDeviceChirping, moveHostDue, moveHostK, moveHostJ, moveHighDenied,
        moveSquelched, resetTo]
      split_ifs <;> simp [go, stay, attachLow, beginHandshake, hp, BusPhase.followers]

/-! ## Ways into a phase -/

theorem vbus_of_unpowered (hnext : (m.move s l).next = .unpowered) (hphase : m.phase ≠ .unpowered) :
    s.vbus = false := by
  obtain hlost | hstays | hfollows := m.next_move s l
  · exact hlost.1
  · exact absurd (hstays.symm.trans hnext) hphase
  · rw [hnext] at hfollows
    cases hp : m.phase with
    | initial =>
      simp only [move, hp, BusPhase.watchesPower, Bool.and_false, Bool.false_eq_true, if_false] at hnext
      exact vbus_of_startPhase hnext
    | _ =>
      rw [hp] at hfollows
      exact absurd hfollows (by decide)

theorem line_of_lowActive (hnext : (m.move s l).next = .lowActive) (hphase : m.phase ≠ .lowActive) :
    l.line ≠ .se0 := by
  obtain ⟨-, hlost⟩ | hstays | hfollows := m.next_move s l
  · cases hnext.symm.trans hlost
  · exact absurd (hstays.symm.trans hnext) hphase
  · rw [hnext] at hfollows
    unfold move at hnext
    split at hnext
    · cases hnext
    · cases hp : m.phase with
      | detached | lowReset | lowSuspended | lowResuming | highDenied =>
        simp only [hp, moveDetached, moveLowReset, moveSuspended, moveResuming, moveHighDenied, resetTo] at hnext
        split_ifs at hnext <;>
          simp_all [go, stay, attachLow, beginHandshake, Sight.heldAt, Sight.isPulseEnd]
      | _ =>
        rw [hp] at hfollows
        exact absurd hfollows (by decide)

end Monitor
end UsbRecorder
