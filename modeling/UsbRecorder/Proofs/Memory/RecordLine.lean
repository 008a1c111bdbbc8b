import UsbRecorder.Proofs.Memory.RingView
/-!
# RecordLine — a ring against a plain line of records

A `RecordLine` has no circle, no cursors and no counters: it is what is still to be read of each record, and the bytes
that may become the next one.  A ring is used beside its line: bytes are pushed where they fit, whole records appended
where nothing is pending, and bytes filled in over positions that were pushed at since the last commit or abandon.
Then the ring tells its users, now and ever after, what the line tells (`tellsLine_of_isPowerOfTwo`).
-/
namespace UsbRecorder

/-- Records to be read, and bytes that may become one. -/
structure RecordLine where
  /-- what is still to be read of each record, the first to be read first -/
  records : List (List UInt8) := []
  /-- the reader has taken a part of the first record -/
  begun : Bool := false
  /-- the bytes pushed since the last record, each with the position that it was pushed at -/
  pending : List (Nat × UInt8) := []
  deriving DecidableEq, Repr, Inhabited

namespace RecordLine

/-- The byte to be read next, marked where nothing of its record follows. -/
def offered (l : RecordLine) : Option Beat :=
  match l.records with
  | (b :: rest) :: _ => some ⟨b, rest.isEmpty⟩
  | _ => none

def take (l : RecordLine) : Option Beat × RecordLine :=
  match l.records with
  | (b :: rest) :: others =>
    (some ⟨b, rest.isEmpty⟩,
      if rest.isEmpty then { l with records := others, begun := false }
      else { l with records := rest :: others, begun := true })
  | _ => (none, l)

def push (l : RecordLine) (position : Nat) (byte : UInt8) : RecordLine :=
  { l with pending := l.pending ++ [(position, byte)] }

/-- Put another byte in the place of the one that was pushed at a position. -/
def overwrite (l : RecordLine) (position : Nat) (byte : UInt8) : RecordLine :=
  { l with pending := l.pending.map fun p => (p.1, if p.1 = position then byte else p.2) }

/-- Overwrite positions that follow one another on a circle of `size`. -/
def fill (l : RecordLine) (size : Nat) : Nat → List UInt8 → RecordLine
  | _, [] => l
  | position, byte :: bytes => (l.overwrite (position % size) byte).fill size (position + 1) bytes

def commit (l : RecordLine) : RecordLine :=
  if l.pending = [] then l else { l with records := l.records ++ [l.pending.map Prod.snd], pending := [] }

def abandon (l : RecordLine) : RecordLine := { l with pending := [] }

def append (l : RecordLine) (bytes : List UInt8) : RecordLine :=
  if bytes = [] then l else { l with records := l.records ++ [bytes] }

/-- The rest of the record that the reader has begun, if there is one. -/
def kept (l : RecordLine) : List (List UInt8) := if l.begun then l.records.take 1 else []

def discard (l : RecordLine) : RecordLine := { l with records := l.kept, pending := [] }

/-- Whole records, of the first of which some bytes were taken. -/
def unread (recs : List (List UInt8)) (taken : Nat) : List (List UInt8) :=
  match recs with
  | [] => []
  | first :: others => first.drop taken :: others

theorem take_fst (l : RecordLine) : l.take.1 = l.offered := by
  unfold take offered
  split <;> rfl

end RecordLine

namespace Ring

/-- **A ring tells its users what its line tells.** -/
structure TellsLine (r : Ring) (l : RecordLine) : Prop where
  offered : r.offered = l.offered
  take : r.take.1 = l.take.1
  contents : r.contents = l.records.flatten
  tailBytes : r.tailBytes = l.pending.map Prod.snd
  committed : r.committed = l.records.flatten.length
  pending : r.pending = l.pending.length
  restOfBegun : r.restOfBegun = l.kept.flatten.length
  isEmpty_iff : r.isEmpty = true ↔ l.records = []
  fits_iff : ∀ extra, r.fits extra = true ↔ l.records.flatten.length + l.pending.length + extra ≤ r.size

inductive Action where
  | push (byte : UInt8)
  | append (bytes : List UInt8)
  | fill (position : Nat) (bytes : List UInt8)
  | commit
  | abandon
  | take
  | discard
  deriving Repr

/-- A ring, its line beside it, and the positions that were pushed at since the last commit or abandon. -/
structure History where
  ring : Ring
  line : RecordLine := {}
  opened : List Nat := []

namespace History

def step (h : History) : Action → History
  | .push byte => { h with
      ring := h.ring.push byte
      line := h.line.push h.ring.writeAt byte
      opened := h.opened ++ [h.ring.writeAt] }
  | .append bytes => { h with ring := h.ring.append bytes, line := h.line.append bytes, opened := [] }
  | .fill position bytes => { h with
      ring := h.ring.fill position bytes
      line := h.line.fill h.ring.size position bytes }
  | .commit => { h with ring := h.ring.commit, line := h.line.commit, opened := [] }
  | .abandon => { h with ring := h.ring.abandon, line := h.line.abandon, opened := [] }
  | .take => { h with ring := h.ring.take.2, line := h.line.take.2 }
  | .discard => { h with ring := h.ring.discard, line := h.line.discard }

def after (h : History) (actions : List Action) : History := actions.foldl step h

/-- What the users of a ring keep to. -/
def Allows (h : History) : Action → Prop
  | .push _ => h.ring.fits 1 = true
  | .append bytes => h.ring.pending = 0 ∧ h.ring.fits bytes.length = true
  | .fill position bytes => ∀ i < bytes.length, (position + i) % h.ring.size ∈ h.opened
  | .commit | .abandon | .take | .discard => True

instance (h : History) : (a : Action) → Decidable (h.Allows a)
  | .push _ => inferInstanceAs (Decidable (_ = true))
  | .append _ => inferInstanceAs (Decidable (_ ∧ _))
  | .fill _ bytes => inferInstanceAs (Decidable (∀ i < bytes.length, _))
  | .commit | .abandon | .take | .discard => inferInstanceAs (Decidable True)

def Allowed (h : History) : List Action → Prop
  | [] => True
  | a :: rest => h.Allows a ∧ (h.step a).Allowed rest

instance decidableAllowed : (h : History) → (actions : List Action) → Decidable (h.Allowed actions)
  | _, [] => inferInstanceAs (Decidable True)
  | h, a :: rest =>
    have := decidableAllowed (h.step a) rest
    inferInstanceAs (Decidable (h.Allows a ∧ (h.step a).Allowed rest))

/-- What every allowed action keeps: the line is that of the records that the ring holds, `recs`. -/
structure Stands (h : History) (recs : List (List UInt8)) : Prop where
  holds : h.ring.Holds recs (h.line.pending.map Prod.snd)
  records : h.line.records = RecordLine.unread recs h.ring.taken
  begun : h.line.begun = true ↔ 0 < h.ring.taken
  positions : ∀ (i : Nat) (p : Nat × UInt8), h.line.pending[i]? = some p →
    (h.ring.readAt + h.ring.committed + i) % h.ring.size = p.1
  /-- no byte to be read is at a position pushed at since the last commit or abandon -/
  opened : ∀ i < h.ring.committed, (h.ring.readAt + i) % h.ring.size ∉ h.opened

end History

/-! ## Reading the line off the ring -/

section
variable {recs : List (List UInt8)} {taken : Nat}

theorem flatten_unread (htaken : taken < ((recs.head?).map List.length).getD 1) :
    (RecordLine.unread recs taken).flatten = recs.flatten.drop taken := by
  cases recs with
  | nil => simp [RecordLine.unread]
  | cons first others =>
    have hle : taken ≤ first.length := Nat.le_of_lt htaken
    rw [RecordLine.unread, List.flatten_cons, List.flatten_cons, List.drop_append_of_le_length hle]

theorem unread_zero : RecordLine.unread recs 0 = recs := by
  cases recs <;> rfl

theorem unread_append (htaken : recs = [] → taken = 0) (bytes : List UInt8) :
    RecordLine.unread (recs ++ [bytes]) taken = RecordLine.unread recs taken ++ [bytes] := by
  cases recs with
  | nil => simp [RecordLine.unread, htaken rfl]
  | cons first others => rfl

theorem unread_take_one : (RecordLine.unread recs taken).take 1 = RecordLine.unread (recs.take 1) taken := by
  cases recs <;> rfl

end

namespace History
namespace Stands

variable {h : History} {recs : List (List UInt8)}

theorem flatten_records (hs : h.Stands recs) : h.line.records.flatten = recs.flatten.drop h.ring.taken := by
  rw [hs.records, flatten_unread hs.holds.taken]

theorem length_records (hs : h.Stands recs) : h.line.records.flatten.length = h.ring.committed := by
  rw [hs.flatten_records, hs.holds.length_unread]

theorem length_pending (hs : h.Stands recs) : h.ring.pending = h.line.pending.length := by
  rw [hs.holds.pending, List.length_map]

theorem kept_eq (hs : h.Stands recs) : h.line.kept = RecordLine.unread (Holds.kept recs h.ring.taken) h.ring.taken := by
  unfold RecordLine.kept Holds.kept
  by_cases hz : h.ring.taken = 0
  · rw [if_neg (by rw [hs.begun]; omega), if_pos hz]
    rfl
  · rw [if_pos (by rw [hs.begun]; omega), if_neg hz, hs.records, unread_take_one]

theorem first_eq {first : List UInt8} {others : List (List UInt8)} (hs : h.Stands (first :: others)) :
    ∃ b, first[h.ring.taken]? = some b ∧ h.line.records = (b :: first.drop (h.ring.taken + 1)) :: others := by
  have htaken : h.ring.taken < first.length := hs.holds.taken
  refine ⟨first[h.ring.taken], List.getElem?_eq_getElem htaken, ?_⟩
  rw [hs.records, RecordLine.unread, List.drop_eq_getElem_cons htaken]

theorem offered_eq (hs : h.Stands recs) : h.ring.offered = h.line.offered := by
  cases recs with
  | nil =>
    rw [hs.holds.offered_nil, RecordLine.offered, hs.records]
    rfl
  | cons first others =>
    have htaken : h.ring.taken < first.length := hs.holds.taken
    obtain ⟨b, hb, hrecords⟩ := hs.first_eq
    rw [List.getElem?_eq_getElem htaken, Option.some.injEq] at hb
    have hlast : (h.ring.taken + 1 == first.length) = (first.drop (h.ring.taken + 1)).isEmpty := by
      rw [Bool.eq_iff_iff, beq_iff_eq, List.isEmpty_iff, List.drop_eq_nil_iff]
      omega
    rw [hs.holds.offered_cons, Beat.getElem?_ofRecord htaken, RecordLine.offered, hrecords, hb, hlast]

theorem records_ne_nil (hs : h.Stands recs) {rec : List UInt8} (hrec : rec ∈ h.line.records) : rec ≠ [] := by
  rw [hs.records] at hrec
  cases recs with
  | nil => cases hrec
  | cons first others =>
    rcases List.mem_cons.1 hrec with rfl | hother
    · exact List.ne_nil_of_length_pos (by rw [List.length_drop]; exact Nat.sub_pos_of_lt hs.holds.taken)
    · exact hs.holds.nonempty rec (List.mem_cons_of_mem first hother)

/-- **What a ring tells is what its line tells**, wherever the line stands for what the ring holds. -/
theorem tellsLine (hs : h.Stands recs) : h.ring.TellsLine h.line where
  offered := hs.offered_eq
  take := by rw [take_fst, hs.offered_eq, RecordLine.take_fst]
  contents := by rw [hs.holds.contents_eq, hs.flatten_records]
  tailBytes := hs.holds.tailBytes_eq
  committed := hs.length_records.symm
  pending := hs.length_pending
  restOfBegun := by
    have htaken : h.ring.taken < (((Holds.kept recs h.ring.taken).head?).map List.length).getD 1 := by
      unfold Holds.kept
      by_cases hz : h.ring.taken = 0
      · rw [if_pos hz, hz]
        exact Nat.zero_lt_one
      · rw [if_neg hz, List.head?_take, if_neg Nat.one_ne_zero]
        exact hs.holds.taken
    rw [hs.holds.restOfBegun_eq, hs.kept_eq, flatten_unread htaken, List.length_drop]
  isEmpty_iff := by
    rw [Ring.isEmpty, beq_iff_eq, ← hs.length_records, List.length_eq_zero_iff, List.flatten_eq_nil_iff]
    refine ⟨fun hempty => List.eq_nil_iff_forall_not_mem.2 fun rec hrec => hs.records_ne_nil hrec (hempty rec hrec), ?_⟩
    intro hnil rec hrec
    rw [hnil] at hrec
    cases hrec
  fits_iff extra := by rw [Ring.fits_iff, hs.length_records, hs.length_pending]

/-! ## What every action keeps -/

theorem push (hs : h.Stands recs) (hroom : h.ring.fits 1 = true) (byte : UInt8) :
    (h.step (.push byte)).Stands recs := by
  have hlt := (Ring.fits_iff _ _).1 hroom
  have hplace : h.ring.writeAt = (h.ring.readAt + h.ring.committed + h.line.pending.length) % h.ring.size := by
    rw [hs.holds.writeAt, hs.length_pending, Nat.add_assoc]
  refine ⟨?_, hs.records, hs.begun, fun i p hp => ?_, fun i hi => ?_⟩
  · show (h.ring.push byte).Holds recs ((h.line.pending ++ [(h.ring.writeAt, byte)]).map Prod.snd)
    rw [List.map_append]
    exact hs.holds.push hlt byte
  · show (h.ring.readAt + h.ring.committed + i) % h.ring.size = p.1
    rcases Nat.lt_or_ge i h.line.pending.length with hold | hnew
    · exact hs.positions i p ((List.getElem?_append_left hold).symm.trans hp)
    · have hlast : [(h.ring.writeAt, byte)][i - h.line.pending.length]? = some p :=
        (List.getElem?_append_right hnew).symm.trans hp
      obtain ⟨hz, rfl⟩ := List.getElem?_eq_some_iff.1 hlast
      have hi : i = h.line.pending.length := by
        simp only [List.length_singleton] at hz
        omega
      simp [hi, hplace]
  · show (h.ring.readAt + i) % h.ring.size ∉ h.opened ++ [h.ring.writeAt]
    rw [List.mem_append, List.mem_singleton, hs.holds.writeAt]
    have hcommitted : i < h.ring.committed := hi
    rintro (hold | hnew)
    · exact hs.opened i hcommitted hold
    · exact circle_ne (by omega) (by omega) hnew

theorem overwrite (hs : h.Stands recs) {position : Nat} (hopened : position % h.ring.size ∈ h.opened) (byte : UInt8) :
    Stands { h with
      ring := h.ring.fill position [byte], line := h.line.overwrite (position % h.ring.size) byte } recs := by
  -- a record that is to be read is nowhere that was pushed at, so only pending bytes change
  have hfree : ∀ i < h.ring.committed, (h.ring.readAt + i) % h.ring.size ≠ position % h.ring.size :=
    fun i hi heq => hs.opened i hi (heq ▸ hopened)
  refine ⟨?_, hs.records, hs.begun, fun i p hp => ?_, hs.opened⟩
  · have hheld := hs.holds.fill_one hfree byte
    have hpending : ((h.line.pending.map Prod.snd).mapIdx fun i b =>
        if (h.ring.readAt + h.ring.committed + i) % h.ring.size = position % h.ring.size then byte else b) =
          (h.line.overwrite (position % h.ring.size) byte).pending.map Prod.snd := by
      refine List.ext_getElem (by simp [RecordLine.overwrite]) fun i hi _ => ?_
      have hlt : i < h.line.pending.length := by simpa using hi
      have hplace := hs.positions i _ (List.getElem?_eq_getElem hlt)
      simp [RecordLine.overwrite, hplace]
    rwa [hpending] at hheld
  · obtain ⟨old, hold, rfl⟩ := Option.map_eq_some_iff.1 ((List.getElem?_map ..).symm.trans hp)
    exact hs.positions i old hold

theorem fill (hs : h.Stands recs) {position : Nat} {bytes : List UInt8}
    (hopened : ∀ i < bytes.length, (position + i) % h.ring.size ∈ h.opened) :
    (h.step (.fill position bytes)).Stands recs := by
  induction bytes generalizing h position with
  | nil => exact hs
  | cons byte bytes ih =>
    have hfirst := hs.overwrite (hopened 0 (Nat.zero_lt_succ _)) byte
    have hrest : ∀ i < bytes.length, (position + 1 + i) % h.ring.size ∈ h.opened := by
      intro i hi
      rw [Nat.add_assoc, Nat.add_comm 1 i]
      exact hopened (i + 1) (Nat.succ_lt_succ hi)
    exact ih hfirst hrest

theorem closed (hs : h.Stands recs) : Stands { h with opened := [] } recs :=
  ⟨hs.holds, hs.records, hs.begun, hs.positions, fun _ _ => List.not_mem_nil⟩

theorem commit (hs : h.Stands recs) : ∃ recs', (h.step .commit).Stands recs' := by
  by_cases hnil : h.line.pending = []
  · have hring : h.ring.commit = h.ring := if_pos (by rw [hs.length_pending, hnil]; rfl)
    have hline : h.line.commit = h.line := if_pos hnil
    refine ⟨recs, ?_⟩
    unfold step
    rw [hring, hline]
    exact hs.closed
  · have hline : h.line.commit =
        { h.line with records := h.line.records ++ [h.line.pending.map Prod.snd], pending := [] } := if_neg hnil
    have hheld := hs.holds.commit (by simpa using hnil)
    refine ⟨recs ++ [h.line.pending.map Prod.snd], ?_⟩
    unfold step
    rw [hline]
    refine ⟨hheld, ?_, by rw [taken_commit]; exact hs.begun, nofun, fun _ _ => List.not_mem_nil⟩
    dsimp only
    rw [taken_commit, hs.records, unread_append fun hrecs => (hrecs ▸ hs.holds).taken_eq_zero]

theorem abandon (hs : h.Stands recs) : (h.step .abandon).Stands recs :=
  ⟨hs.holds.abandon, hs.records, hs.begun, nofun, fun _ _ => List.not_mem_nil⟩

theorem append (hs : h.Stands recs) {bytes : List UInt8} (hpending : h.ring.pending = 0)
    (hroom : h.ring.fits bytes.length = true) : ∃ recs', (h.step (.append bytes)).Stands recs' := by
  have hnil : h.line.pending = [] := List.eq_nil_of_length_eq_zero (hs.length_pending ▸ hpending)
  by_cases hbytes : bytes = []
  · subst hbytes
    have hring : h.ring.append [] = h.ring := if_pos hpending
    refine ⟨recs, ?_⟩
    unfold step
    dsimp only
    rw [hring]
    exact hs.closed
  · have hheld := hs.holds
    rw [hnil] at hheld
    have hline : h.line.append bytes = { h.line with records := h.line.records ++ [bytes] } := if_neg hbytes
    refine ⟨recs ++ [bytes], ?_⟩
    unfold step
    dsimp only
    rw [hline]
    refine ⟨?_, ?_, by rw [taken_append]; exact hs.begun, ?_, fun _ _ => List.not_mem_nil⟩
    · dsimp only
      rw [hnil]
      exact hheld.append hbytes ((Ring.fits_iff _ _).1 hroom)
    · dsimp only
      rw [taken_append, hs.records, unread_append fun hrecs => (hrecs ▸ hs.holds).taken_eq_zero]
    · dsimp only
      rw [hnil]
      exact nofun

/-- The place of a byte is one nearer to the reader when another was read. -/
theorem place_take {b : Beat} (hoffered : h.ring.offered = some b) (i : Nat) :
    (h.ring.take.2.readAt + i) % h.ring.take.2.size = (h.ring.readAt + (i + 1)) % h.ring.size := by
  rw [(cursors_take hoffered).1, (take_frame h.ring).1, Nat.mod_add_mod, Nat.add_assoc, Nat.add_comm 1 i]

theorem line_take {first : List UInt8} {others : List (List UInt8)} (hs : h.Stands (first :: others)) :
    h.line.take.2.pending = h.line.pending ∧
      h.line.take.2.records = RecordLine.unread (Holds.rest (first :: others) h.ring.taken) h.ring.take.2.taken ∧
      (h.line.take.2.begun = true ↔ 0 < h.ring.take.2.taken) := by
  have htaken : h.ring.taken < first.length := hs.holds.taken
  obtain ⟨b, -, hrecords⟩ := hs.first_eq
  rw [hs.holds.take_cons.2.2]
  unfold RecordLine.take Holds.rest
  rw [hrecords]
  -- the record goes with its last byte, and its others are left to be read
  by_cases hdone : h.ring.taken + 1 = first.length
  · simp [hdone, unread_zero]
  · have hmore : ¬ first.length ≤ h.ring.taken + 1 := by omega
    simp [hdone, hmore, RecordLine.unread]

theorem take (hs : h.Stands recs) : ∃ recs', (h.step .take).Stands recs' := by
  cases recs with
  | nil =>
    have hline : h.line.take.2 = h.line := by simp [RecordLine.take, hs.records, RecordLine.unread]
    refine ⟨[], ?_⟩
    unfold step
    rw [hs.holds.take_nil, hline]
    exact hs
  | cons first others =>
    have htaken : h.ring.taken < first.length := hs.holds.taken
    obtain ⟨-, hheld, -⟩ := hs.holds.take_cons
    obtain ⟨hpending, hrecords, hbegun⟩ := hs.line_take
    have hoffered := hs.holds.offered_cons
    rw [Beat.getElem?_ofRecord htaken] at hoffered
    have hcommitted := (cursors_take hoffered).2
    obtain ⟨-, hpos⟩ := hs.holds.writeAt_next
    refine ⟨_, ?_, hrecords, hbegun, fun i p hp => ?_, fun i hi => ?_⟩
    · show h.ring.take.2.Holds _ (h.line.take.2.pending.map Prod.snd)
      rwa [hpending]
    · show (h.ring.take.2.readAt + h.ring.take.2.committed + i) % h.ring.take.2.size = p.1
      have hplace := hs.positions i p (hpending ▸ hp)
      rw [Nat.add_assoc, place_take hoffered, hcommitted, ← hplace,
        show h.ring.readAt + (h.ring.committed - 1 + i + 1) = h.ring.readAt + h.ring.committed + i by omega]
    · show (h.ring.take.2.readAt + i) % h.ring.take.2.size ∉ h.opened
      have hlt : i < h.ring.take.2.committed := hi
      rw [place_take hoffered]
      exact hs.opened (i + 1) (by omega)

theorem discard (hs : h.Stands recs) : ∃ recs', (h.step .discard).Stands recs' := by
  obtain ⟨hheld, htaken, hcommitted⟩ := hs.holds.discard
  refine ⟨Holds.kept recs h.ring.taken, ?_⟩
  unfold step
  refine ⟨hheld, ?_, ?_, nofun, fun i hi => ?_⟩
  · dsimp only
    rw [htaken]
    exact hs.kept_eq
  · dsimp only
    rw [htaken]
    exact hs.begun
  · -- the reader stays where it is as long as there is something left for it
    dsimp only at hi ⊢
    rw [hcommitted] at hi
    have hle : h.ring.restOfBegun ≤ h.ring.committed := hs.holds.restOfBegun_le
    rw [readAt_discard (Nat.lt_of_le_of_lt (Nat.zero_le i) hi), size_discard]
    exact hs.opened i (Nat.lt_of_lt_of_le hi hle)

/-- **Every allowed action keeps the line beside its ring.** -/
theorem step (hs : h.Stands recs) {a : Action} (ha : h.Allows a) : ∃ recs', (h.step a).Stands recs' := by
  cases a with
  | push byte => exact ⟨recs, hs.push ha byte⟩
  | append bytes => exact hs.append ha.1 ha.2
  | fill position bytes => exact ⟨recs, hs.fill ha⟩
  | commit => exact hs.commit
  | abandon => exact ⟨recs, hs.abandon⟩
  | take => exact hs.take
  | discard => exact hs.discard

theorem after (hs : h.Stands recs) {actions : List Action} (hallowed : h.Allowed actions) :
    ∃ recs', (h.after actions).Stands recs' := by
  induction actions generalizing h recs with
  | nil => exact ⟨recs, hs⟩
  | cons a actions ih =>
    obtain ⟨recs', hs'⟩ := hs.step hallowed.1
    exact ih hs' hallowed.2

end Stands

theorem size_step (h : History) (a : Action) : (h.step a).ring.size = h.ring.size := by
  cases a with
  | push | fill | abandon => rfl
  | append bytes => exact size_append h.ring bytes
  | commit => exact size_commit h.ring
  | take => exact (take_frame h.ring).1
  | discard => exact size_discard h.ring

theorem size_after (h : History) (actions : List Action) : (h.after actions).ring.size = h.ring.size := by
  induction actions generalizing h with
  | nil => rfl
  | cons a actions ih => exact (ih (h.step a)).trans (h.size_step a)

/-- **A ring is a line of records**: of every power of two bytes there is a ring, and whatever its users do with it that
they may do, what it offers, counts and holds are those of a line with which the same was done. -/
theorem tellsLine_of_isPowerOfTwo {size : Nat} (hsize : size.isPowerOfTwo) :
    ∃ r, create size = .ok r ∧ ∀ actions, Allowed { ring := r } actions →
      (History.after { ring := r } actions).ring.size = size ∧
        (History.after { ring := r } actions).ring.TellsLine (History.after { ring := r } actions).line := by
  have hcreate : create size = .ok { size } := if_pos hsize
  have hstart : Stands { ring := { size } } [] :=
    ⟨(holds_create hcreate).1, rfl, by simp, nofun, nofun⟩
  refine ⟨{ size }, hcreate, fun actions hallowed => ⟨size_after _ actions, ?_⟩⟩
  obtain ⟨recs, hs⟩ := hstart.after hallowed
  exact hs.tellsLine

/-- In four bytes: a record read out, two bytes taken back, two bytes written over across the end of the circle and
committed, one of them read, and all discarded but the other. -/
def aroundTheEnd : List Action :=
  [.append [1, 2, 3], .take, .take, .take, .push 4, .push 5, .abandon, .push 6, .push 7, .fill 3 [8, 9], .commit, .take,
    .append [10, 11], .push 12, .discard]

theorem tellsLine_aroundTheEnd : Nat.isPowerOfTwo 4 ∧ Allowed { ring := { size := 4 } } aroundTheEnd ∧
    (History.after { ring := { size := 4 } } aroundTheEnd).line = { records := [[9]], begun := true } ∧
      (History.after { ring := { size := 4 } } aroundTheEnd).ring.TellsLine
        (History.after { ring := { size := 4 } } aroundTheEnd).line := by
  have hfour : Nat.isPowerOfTwo 4 := ⟨2, rfl⟩
  have hallowed : Allowed { ring := { size := 4 } } aroundTheEnd := by decide +kernel
  obtain ⟨r, hcreate, htells⟩ := tellsLine_of_isPowerOfTwo hfour
  have hr : r = { size := 4 } := by
    rw [create, if_pos hfour, Except.ok.injEq] at hcreate
    exact hcreate.symm
  subst hr
  exact ⟨hfour, hallowed, by decide +kernel, (htells aroundTheEnd hallowed).2⟩

end History
end Ring
end UsbRecorder
