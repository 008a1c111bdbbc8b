import UsbRecorder.Proofs.Monitor.Settling
/-!
# Moves — every way that a tick can go

`Moves` has a way for each outcome of each phase, with what was seen on the tick, and `moves_move` says that there is no
other.  What holds of every tick can be proved by cases on it, without opening the moves.
-/
namespace UsbRecorder

/-- What a phase waits for, with the timer running. -/
inductive Wait where
  /-- the device's chirp, or its end -/
  | device
  /-- the host's next chirp -/
  | hostDue
  /-- the end of the host's chirp under way -/
  | hostChirp
  /-- the time after high-speed squelch -/
  | settling
  deriving DecidableEq

def Wait.threshold (t : Thresholds) : Wait → UInt32
  | device => t.deviceChirp
  | hostDue | hostChirp => t.hostChirp
  | settling => t.settle

def BusPhase.wait? : BusPhase → Option Wait
  | deviceChirpDue | deviceChirping => some .device
  | hostKDue | hostJDue => some .hostDue
  | hostK | hostJ => some .hostChirp
  | squelched => some .settling
  | _ => none

namespace Monitor

/-- There is time left, if the phase waits for anything. -/
def HasTime (m : Monitor) : Prop := ∀ w, m.phase.wait? = some w → m.timer < (w.threshold m.thresholds).toNat

/-- **Every way that a tick can go.** -/
inductive Moves (m : Monitor) (s : Sample) (l : Sight) : Move → Prop
  | lost (hwatches : m.phase.watchesPower = true) (hvbus : s.vbus = false) :
      m.Moves s l { m.go .unpowered (some .vbusInvalid) with phy := .full }
  | stays (htime : m.HasTime) : m.Moves s l m.stay
  -- attaches
  | starts (hphase : m.phase = .initial) : m.Moves s l { m.go (m.startPhase s.vbus) with phy := .full }
  | powers (hphase : m.phase = .unpowered) (htime : m.thresholds.vbusDebounce.toNat ≤ m.vbusTime) :
      m.Moves s l (m.go (m.startPhase true) (some .vbusValid))
  | attachesFull (hphase : m.phase = .detached) (hmode : m.mode = .auto ∨ m.mode = .full)
      (hheld : l.heldAt .dPlus m.thresholds.reset = true) : m.Moves s l (m.go .fullActive (some .fullAttach))
  | attachesLow (hphase : m.phase = .detached) (hmode : m.mode = .auto ∨ m.mode = .low)
      (hheld : l.heldAt .dMinus m.thresholds.reset = true) : m.Moves s l m.attachLow
  | deniedFull (hphase : m.phase = .highDenied) (hline : l.line = .dPlus) : m.Moves s l (m.go .fullActive)
  | deniedLow (hphase : m.phase = .highDenied) (hheld : l.heldAt .dMinus m.thresholds.reset = true) :
      m.Moves s l m.attachLow
  -- resets
  | resets (hphase : m.phase = .fullActive ∨ m.phase = .fullSuspended ∨ m.phase = .lowSuspended)
      (hmode : m.mode = .auto) (hheld : l.heldAt .se0 m.thresholds.reset = true) : m.Moves s l m.beginHandshake
  | resetsLow (hphase : m.phase = .lowActive ∨ m.phase = .lowResuming ∨ m.phase = .lowSuspended ∧ m.mode ≠ .auto)
      (hheld : l.heldAt .se0 m.thresholds.reset = true) : m.Moves s l (m.go .lowReset (some .reset))
  | resetsFull
      (hphase : (m.phase = .fullActive ∨ m.phase = .fullSuspended) ∧ m.mode ≠ .auto ∨ m.phase = .fullResuming)
      (hheld : l.heldAt .se0 m.thresholds.reset = true) : m.Moves s l (m.go .fullReset (some .reset))
  | endsLowReset (hphase : m.phase = .lowReset) (hline : l.line = .dMinus) : m.Moves s l (m.go .lowActive)
  | endsFullReset (hphase : m.phase = .fullReset) (hline : l.line = .dPlus) : m.Moves s l (m.go .fullActive)
  | replaces (hphase : m.phase = .lowReset) (hmode : m.mode = .auto)
      (hheld : l.heldAt .dPlus m.thresholds.reset = true) :
      m.Moves s l { m.go .fullActive (some .fullAttach) with phy := .full }
  -- a bus at low or full speed
  | keepsAlive (hphase : m.phase = .lowActive) (hpulse : l.isPulseEnd .dMinus m.thresholds = true) :
      m.Moves s l (m.go .lowActive (some .keepalive))
  | fullSe0 (hphase : m.phase = .fullActive) (hline : l.line = .se0) (hchanged : l.changed = true) :
      m.Moves s l (m.go .fullActive (some .lineSe0))
  | fullJ (hphase : m.phase = .fullActive) (hmode : m.mode ≠ .auto) (hline : l.line = .dPlus)
      (hbefore : l.before = .se0) : m.Moves s l (m.go .fullActive (some .fullJ))
  | suspendsLow (hphase : m.phase = .lowActive) (hheld : l.heldAt .dMinus m.thresholds.suspend = true) :
      m.Moves s l (m.go .lowSuspended (some .suspend))
  | suspendsFull (hphase : m.phase = .fullActive) (hheld : l.heldAt .dPlus m.thresholds.suspend = true) :
      m.Moves s l { m.go .fullSuspended (some .suspend) with wasHigh := false }
  | wakesLow (hphase : m.phase = .lowSuspended) (hmode : m.mode = .auto) (hline : l.line = .dPlus) :
      m.Moves s l (m.go .lowActive (some .resume))
  | wakesFull (hphase : m.phase = .fullSuspended) (hmode : m.mode = .auto) (hline : l.line = .dMinus) :
      m.Moves s l (m.go (if m.wasHigh then .highFound else .fullActive) (some .resume))
  | resumesLow (hphase : m.phase = .lowSuspended) (hmode : m.mode ≠ .auto)
      (hheld : l.heldAt .dPlus m.thresholds.resume = true) : m.Moves s l (m.go .lowResuming (some .resume))
  | resumesFull (hphase : m.phase = .fullSuspended) (hmode : m.mode ≠ .auto)
      (hheld : l.heldAt .dMinus m.thresholds.resume = true) : m.Moves s l (m.go .fullResuming (some .resume))
  | resumedLow (hphase : m.phase = .lowResuming) (hpulse : l.isPulseEnd .dMinus m.thresholds = true) :
      m.Moves s l (m.go .lowActive)
  | resumedFull (hphase : m.phase = .fullResuming) (hpulse : l.isPulseEnd .dPlus m.thresholds = true) :
      m.Moves s l (m.go .fullActive)
  -- a handshake
  | expires (hphase : m.phase.isHandshake = true) (htime : ¬m.HasTime) : m.Moves s l (m.go .highDenied)
  | deviceChirps (hphase : m.phase = .deviceChirpDue) (htime : m.HasTime)
      (hheld : l.heldAt .dMinus m.thresholds.reset = true) : m.Moves s l (m.go .deviceChirping (some .deviceChirp))
  | deviceEnds (hphase : m.phase = .deviceChirping) (htime : m.HasTime) (hline : l.line ≠ .dMinus) :
      m.Moves s l { m.go .hostKDue with restart := true }
  | beginsK (hphase : m.phase = .hostKDue) (hline : l.line = .dMinus) : m.Moves s l (m.go .hostK)
  | beginsJ (hphase : m.phase = .hostJDue) (hline : l.line = .dPlus) : m.Moves s l (m.go .hostJ)
  | breaksK (hphase : m.phase = .hostK) (htime : m.HasTime) (hline : l.line ≠ .dMinus) : m.Moves s l (m.go .hostKDue)
  | breaksJ (hphase : m.phase = .hostJ) (htime : m.HasTime) (hline : l.line ≠ .dPlus) : m.Moves s l (m.go .hostJDue)
  | lastsK (hphase : m.phase = .hostK) (htime : m.HasTime) (hline : l.line = .dMinus)
      (hheld : m.thresholds.reset.toNat ≤ l.held) : m.Moves s l (m.go .hostJDue)
  | lastsJ (hphase : m.phase = .hostJ) (htime : m.HasTime) (hline : l.line = .dPlus)
      (hheld : m.thresholds.reset.toNat ≤ l.held) (hpairs : m.pairs ≠ 2) :
      m.Moves s l { m.go .hostKDue with pairs := m.pairs + 1 }
  | completes (hphase : m.phase = .hostJ) (htime : m.HasTime) (hline : l.line = .dPlus)
      (hheld : m.thresholds.reset.toNat ≤ l.held) (hpairs : m.pairs = 2) :
      m.Moves s l (m.go .highFound (some .hostChirp))
  -- a bus at high speed
  | goesHigh (hphase : m.phase = .highFound) : m.Moves s l { m.go .highActive with phy := .high }
  | squelches (hphase : m.phase = .highActive) (hheld : l.heldAt .se0 m.thresholds.suspend = true) :
      m.Moves s l { m.go .squelched with phy := .full, restart := true }
  | suspendsHigh (hphase : m.phase = .squelched) (htime : ¬m.HasTime) (hline : l.line = .dPlus) :
      m.Moves s l { m.go .fullSuspended (some .suspend) with wasHigh := true }
  | resetsHigh (hphase : m.phase = .squelched) (htime : ¬m.HasTime) (hline : l.line ≠ .dPlus) :
      m.Moves s l m.beginHandshake

variable {m : Monitor} {s : Sample} {l : Sight}

theorem isAuto_iff : m.isAuto = true ↔ m.mode = .auto := by simp [isAuto]

/-! ## Phases that do not wait -/

namespace Moves

theorem rests (h : m.phase.wait? = none) : m.Moves s l m.stay := .stays fun _ hw => by cases h.symm.trans hw

theorem resetTo (hphase : m.phase = .fullActive ∨ m.phase = .fullSuspended ∨ m.phase = .lowSuspended)
    (hheld : l.heldAt .se0 m.thresholds.reset = true) {next : BusPhase}
    (hfixed : m.mode ≠ .auto → m.Moves s l (m.go next (some .reset))) : m.Moves s l (m.resetTo next) := by
  unfold Monitor.resetTo
  split_ifs with hauto
  · exact .resets hphase (isAuto_iff.1 hauto) hheld
  · exact hfixed (mt isAuto_iff.2 hauto)

theorem unpowered (hp : m.phase = .unpowered) : m.Moves s l m.moveUnpowered := by
  unfold moveUnpowered
  split_ifs with htime
  · exact .powers hp htime
  · exact .rests (by rw [hp]; rfl)

theorem detached (hp : m.phase = .detached) : m.Moves s l (m.moveDetached l) := by
  unfold moveDetached
  split_ifs with hfull hlow
  · obtain ⟨hmode, hheld⟩ := Bool.and_eq_true_iff.1 hfull
    exact .attachesFull hp (by simpa [isAuto] using hmode) hheld
  · obtain ⟨hmode, hheld⟩ := Bool.and_eq_true_iff.1 hlow
    exact .attachesLow hp (by simpa [isAuto] using hmode) hheld
  · exact .rests (by rw [hp]; rfl)

theorem lowActive (hp : m.phase = .lowActive) : m.Moves s l (m.moveLowActive l) := by
  unfold moveLowActive
  split_ifs with hreset hsuspend hpulse
  · exact .resetsLow (.inl hp) hreset
  · exact .suspendsLow hp hsuspend
  · exact .keepsAlive hp hpulse
  · exact .rests (by rw [hp]; rfl)

theorem lowReset (hp : m.phase = .lowReset) : m.Moves s l (m.moveLowReset l) := by
  unfold moveLowReset
  split_ifs with hfull hline
  · obtain ⟨hmode, hheld⟩ := Bool.and_eq_true_iff.1 hfull
    exact .replaces hp (isAuto_iff.1 hmode) hheld
  · exact .endsLowReset hp hline
  · exact .rests (by rw [hp]; rfl)

theorem lowSuspended (hp : m.phase = .lowSuspended) :
    m.Moves s l (m.moveSuspended l .dPlus .lowReset .lowActive .lowResuming) := by
  unfold moveSuspended
  split_ifs with hreset hwakes hresumes
  · exact .resetTo (.inr (.inr hp)) hreset fun hmode => .resetsLow (.inr (.inr ⟨hp, hmode⟩)) hreset
  · obtain ⟨hmode, hline⟩ := Bool.and_eq_true_iff.1 hwakes
    exact .wakesLow hp (isAuto_iff.1 hmode) (by simpa using hline)
  · obtain ⟨hmode, hheld⟩ := Bool.and_eq_true_iff.1 hresumes
    exact .resumesLow hp (by simpa [isAuto] using hmode) hheld
  · exact .rests (by rw [hp]; rfl)

theorem lowResuming (hp : m.phase = .lowResuming) :
    m.Moves s l (m.moveResuming l .dMinus .lowReset .lowActive) := by
  unfold moveResuming
  split_ifs with hreset hpulse
  · exact .resetsLow (.inr (.inl hp)) hreset
  · exact .resumedLow hp hpulse
  · exact .rests (by rw [hp]; rfl)

theorem fullActive (hp : m.phase = .fullActive) : m.Moves s l (m.moveFullActive l) := by
  unfold moveFullActive
  split_ifs with hreset hsuspend hse0 hj
  · exact .resetTo (.inl hp) hreset fun hmode => .resetsFull (.inl ⟨.inl hp, hmode⟩) hreset
  · exact .suspendsFull hp hsuspend
  · obtain ⟨hchanged, hline⟩ := Bool.and_eq_true_iff.1 hse0
    exact .fullSe0 hp (by simpa using hline) hchanged
  · simp only [Bool.and_eq_true, Bool.not_eq_true', beq_iff_eq] at hj
    obtain ⟨⟨⟨-, hmode⟩, hline⟩, hbefore⟩ := hj
    exact .fullJ hp (by simpa [isAuto] using hmode) hline hbefore
  · exact .rests (by rw [hp]; rfl)

theorem fullReset (hp : m.phase = .fullReset) : m.Moves s l (m.moveFullReset l) := by
  unfold moveFullReset
  split_ifs with hline
  · exact .endsFullReset hp hline
  · exact .rests (by rw [hp]; rfl)

theorem fullSuspended (hp : m.phase = .fullSuspended) : m.Moves s l
    (m.moveSuspended l .dMinus .fullReset (if m.wasHigh then .highFound else .fullActive) .fullResuming) := by
  -- the phase that is woken to is not looked at here
  generalize hawake : (if m.wasHigh then BusPhase.highFound else .fullActive) = awake
  unfold moveSuspended
  split_ifs with hreset hwakes hresumes
  · exact .resetTo (.inr (.inl hp)) hreset fun hmode => .resetsFull (.inl ⟨.inr hp, hmode⟩) hreset
  · obtain ⟨hmode, hline⟩ := Bool.and_eq_true_iff.1 hwakes
    exact hawake ▸ .wakesFull hp (isAuto_iff.1 hmode) (by simpa using hline)
  · obtain ⟨hmode, hheld⟩ := Bool.and_eq_true_iff.1 hresumes
    exact .resumesFull hp (by simpa [isAuto] using hmode) hheld
  · exact .rests (by rw [hp]; rfl)

theorem fullResuming (hp : m.phase = .fullResuming) :
    m.Moves s l (m.moveResuming l .dPlus .fullReset .fullActive) := by
  unfold moveResuming
  split_ifs with hreset hpulse
  · exact .resetsFull (.inr hp) hreset
  · exact .resumedFull hp hpulse
  · exact .rests (by rw [hp]; rfl)

theorem highActive (hp : m.phase = .highActive) : m.Moves s l (m.moveHighActive l) := by
  unfold moveHighActive
  split_ifs with hheld
  · exact .squelches hp hheld
  · exact .rests (by rw [hp]; rfl)

theorem highDenied (hp : m.phase = .highDenied) : m.Moves s l (m.moveHighDenied l) := by
  unfold moveHighDenied
  split_ifs with hline hheld
  · exact .deniedFull hp hline
  · exact .deniedLow hp hheld
  · exact .rests (by rw [hp]; rfl)

end Moves

/-! ## Phases that wait -/

theorem hasTime_iff {w : Wait} (h : m.phase.wait? = some w) :
    m.HasTime ↔ ¬(w.threshold m.thresholds).toNat ≤ m.timer := by
  unfold HasTime
  rw [h, Nat.not_le]
  constructor
  · intro htime
    exact htime w rfl
  · rintro htime _ ⟨⟩
    exact htime

namespace Moves

theorem deviceChirpDue (hp : m.phase = .deviceChirpDue) : m.Moves s l (m.moveDeviceChirpDue l) := by
  have htimely : m.HasTime ↔ ¬m.thresholds.deviceChirp.toNat ≤ m.timer := hasTime_iff (by rw [hp]; rfl)
  unfold moveDeviceChirpDue
  split_ifs with htime hheld
  · exact .expires (by rw [hp]; rfl) (fun h => htimely.1 h htime)
  · exact .deviceChirps hp (htimely.2 htime) hheld
  · exact .stays (htimely.2 htime)

theorem deviceChirping (hp : m.phase = .deviceChirping) : m.Moves s l (m.moveDeviceChirping l) := by
  have htimely : m.HasTime ↔ ¬m.thresholds.deviceChirp.toNat ≤ m.timer := hasTime_iff (by rw [hp]; rfl)
  unfold moveDeviceChirping
  split_ifs with htime hline
  · exact .expires (by rw [hp]; rfl) (fun h => htimely.1 h htime)
  · exact .deviceEnds hp (htimely.2 htime) hline
  · exact .stays (htimely.2 htime)

theorem hostKDue (hp : m.phase = .hostKDue) : m.Moves s l (m.moveHostDue l .dMinus .hostK) := by
  have htimely : m.HasTime ↔ ¬m.thresholds.hostChirp.toNat ≤ m.timer := hasTime_iff (by rw [hp]; rfl)
  unfold moveHostDue
  split_ifs with hline htime
  · exact .beginsK hp hline
  · exact .expires (by rw [hp]; rfl) (fun h => htimely.1 h htime)
  · exact .stays (htimely.2 htime)

theorem hostK (hp : m.phase = .hostK) : m.Moves s l (m.moveHostK l) := by
  have htimely : m.HasTime ↔ ¬m.thresholds.hostChirp.toNat ≤ m.timer := hasTime_iff (by rw [hp]; rfl)
  unfold moveHostK
  split_ifs with htime hline hheld
  · exact .expires (by rw [hp]; rfl) (fun h => htimely.1 h htime)
  · exact .breaksK hp (htimely.2 htime) hline
  · exact .lastsK hp (htimely.2 htime) (by simpa using hline) hheld
  · exact .stays (htimely.2 htime)

theorem hostJDue (hp : m.phase = .hostJDue) : m.Moves s l (m.moveHostDue l .dPlus .hostJ) := by
  have htimely : m.HasTime ↔ ¬m.thresholds.hostChirp.toNat ≤ m.timer := hasTime_iff (by rw [hp]; rfl)
  unfold moveHostDue
  split_ifs with hline htime
  · exact .beginsJ hp hline
  · exact .expires (by rw [hp]; rfl) (fun h => htimely.1 h htime)
  · exact .stays (htimely.2 htime)

theorem hostJ (hp : m.phase = .hostJ) : m.Moves s l (m.moveHostJ l) := by
  have htimely : m.HasTime ↔ ¬m.thresholds.hostChirp.toNat ≤ m.timer := hasTime_iff (by rw [hp]; rfl)
  unfold moveHostJ
  split_ifs with htime hline hheld hpairs
  · exact .expires (by rw [hp]; rfl) (fun h => htimely.1 h htime)
  · exact .breaksJ hp (htimely.2 htime) hline
  · exact .completes hp (htimely.2 htime) (by simpa using hline) hheld hpairs
  · exact .lastsJ hp (htimely.2 htime) (by simpa using hline) hheld hpairs
  · exact .stays (htimely.2 htime)

theorem squelched (hp : m.phase = .squelched) : m.Moves s l (m.moveSquelched l) := by
  have htimely : m.HasTime ↔ ¬m.thresholds.settle.toNat ≤ m.timer := hasTime_iff (by rw [hp]; rfl)
  unfold moveSquelched
  split_ifs with htime hline
  · exact .stays (htimely.2 (Nat.not_le.2 htime))
  · exact .suspendsHigh hp (fun h => htime (Nat.not_le.1 (htimely.1 h))) hline
  · exact .resetsHigh hp (fun h => htime (Nat.not_le.1 (htimely.1 h))) hline

end Moves

/-- **A tick goes one of these ways.** -/
theorem moves_move (m : Monitor) (s : Sample) (l : Sight) : m.Moves s l (m.move s l) := by
  unfold move
  split
  · rename_i hlost
    simp only [Bool.and_eq_true, Bool.not_eq_true'] at hlost
    exact .lost hlost.2 hlost.1
  · cases hp : m.phase with
    | initial => exact .starts hp
    | unpowered => exact .unpowered hp
    | detached => exact .detached hp
    | lowActive => exact .lowActive hp
    | lowReset => exact .lowReset hp
    | lowSuspended => exact .lowSuspended hp
    | lowResuming => exact .lowResuming hp
    | fullActive => exact .fullActive hp
    | fullReset => exact .fullReset hp
    | fullSuspended => exact .fullSuspended hp
    | fullResuming => exact .fullResuming hp
    | highActive => exact .highActive hp
    | highListening => exact .rests (by rw [hp]; rfl)
    | deviceChirpDue => exact .deviceChirpDue hp
    | deviceChirping => exact .deviceChirping hp
    | hostKDue => exact .hostKDue hp
    | hostK => exact .hostK hp
    | hostJDue => exact .hostJDue hp
    | hostJ => exact .hostJ hp
    | highFound => exact .goesHigh hp
    | highDenied => exact .highDenied hp
    | squelched => exact .squelched hp

end Monitor
end UsbRecorder
