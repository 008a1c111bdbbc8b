import UsbRecorder.Proofs.Pipeline.Journal
/-!
# Delivery — whole records for the reader, and discards that are exact

The statements about a pipeline as a whole, from its creation on and under any interleaving of what its two sides, its
registers and its user do.  What is delivered are whole records of those that were framed, in order, and at most a part
of one more; and a discard drops what it is meant to, and nothing else.
-/
namespace UsbRecorder

/-- The journal of actions on a new pipeline. -/
def Pipeline.journal (p : Pipeline) (actions : List Action) : Journal := Journal.after { pipeline := p } actions

/-- The records that an action frames. -/
def Pipeline.framed (p : Pipeline) : Action → List Recorder.Framing
  | .sample s => if p.queue.closed then [] else (p.sample s).samples.recorder.framed.reverse
  | _ => []

/-- The records that actions frame, in order. -/
def Pipeline.framings : Pipeline → List Action → List Recorder.Framing
  | _, [] => []
  | p, a :: rest => p.framed a ++ (p.step a).2.framings rest

/-- The mark that an action requests, if it does: what was pushed before, and the rest of a record handed over in part. -/
def Pipeline.request? (p : Pipeline) : Action → Option Nat
  | .sample s =>
    if p.queue.closed = false ∧ (p.sample s).samples.status.discarding = true then
      some (p.queue.sender.pushed + (p.sample s).samples.recorder.retained)
    else none
  | .discard => if p.queue.closed then none else some (p.queue.sender.pushed + p.samples.recorder.ring.restOfBegun)
  | _ => none

/-- The marks that actions request, in order. -/
def Pipeline.marks : Pipeline → List Action → List Nat
  | _, [] => []
  | p, a :: rest => (p.request? a).toList ++ (p.step a).2.marks rest

namespace Pipeline

variable {p : Pipeline} {settings : Settings} {controls : Controls}

theorem tells_create {samples : SampleSide} {register : Register} (h : SampleSide.create settings register = .ok samples) :
    Ledger.Tells {} samples.recorder := by
  obtain ⟨recorder, hr, h⟩ := exists_of_bind_eq_ok h
  cases h
  obtain ⟨hholds, -⟩ := Recorder.holds_create hr []
  exact ⟨hholds.ring.taken_eq_zero, ⟨[], hholds⟩, nofun, .nil, nofun, rfl⟩

theorem carried_create {queue : Crossing} {reports : ReportSide} (hq : Crossing.create settings.queueDepth = .ok queue)
    (hr : ReportSide.create settings = .ok reports) :
    Carried reports.store queue [] 0 ∧ reports.passed = 0 ∧ reports.staleBelow = 0 ∧ reports.inRecord = false := by
  have hw := Crossing.window_create hq
  unfold ReportSide.create at hr
  split at hr
  · cases hr
    exact ⟨⟨0, 0, 0, hw, rfl⟩, rfl, rfl, rfl⟩
  · rename_i s _
    cases hs : ReportSide.createStore s with
    | error e =>
      rw [hs] at hr
      cases hr
    | ok store =>
      rw [hs] at hr
      cases hr
      exact ⟨⟨0, 0, 0, hw, Nat.le_refl 0, Spill.holds_create hs⟩, rfl, rfl, rfl⟩

theorem sound_create (h : create settings controls = .ok p) : Journal.Sound { pipeline := p } := by
  obtain ⟨queue, hq, h⟩ := exists_of_bind_eq_ok h
  obtain ⟨samples, hs, h⟩ := exists_of_bind_eq_ok h
  obtain ⟨reports, hr, h⟩ := exists_of_bind_eq_ok h
  cases h
  obtain ⟨hcarried, hpassed, hstale, hfree⟩ := carried_create hq hr
  have hmark : queue.mark = 0 := by
    unfold Crossing.create at hq
    split at hq
    · cases hq
      rfl
    · cases hq
  refine ⟨tells_create hs, ?_, hpassed, ?_, ?_, ?_⟩
  · dsimp only
    rwa [hpassed]
  · dsimp only
    rw [hstale]
    exact Nat.zero_le _
  · dsimp only
    rw [hmark]
    exact boundary_zero _
  · dsimp only
    rw [hstale, hfree]
    exact Passage.start []

theorem sound_journal (h : create settings controls = .ok p) (actions : List Action) : (p.journal actions).Sound :=
  ((sound_create h).after actions).1

/-! ## What the journal records -/

theorem committed_step (j : Journal) (a : Action) :
    (j.step a).ledger.committed = j.ledger.committed ++ j.pipeline.framed a := by
  cases a with
  | sample s =>
    unfold Journal.step framed
    dsimp only
    split
    · rw [List.append_nil]
    · have hframed := (SampleSide.handOver_frame (j.pipeline.samples.record j.pipeline.queue j.pipeline.controls.state s).1
        (j.pipeline.samples.record j.pipeline.queue j.pipeline.controls.state s).2).1
      rw [← SampleSide.tick_eq] at hframed
      show (Option.elim _ _ _ : Ledger).committed = _ ++ (j.pipeline.samples.tick _ _ s).1.recorder.framed.reverse
      rw [hframed]
      cases SampleSide.handing _ _ <;> rfl
  | report ready => exact (List.append_nil _).symm
  | discard => exact (List.append_nil _).symm
  | request r => exact (List.append_nil _).symm
  | drop => exact (List.append_nil _).symm

theorem committed_after (j : Journal) (actions : List Action) :
    (j.after actions).ledger.committed = j.ledger.committed ++ j.pipeline.framings actions := by
  induction actions generalizing j with
  | nil => exact (List.append_nil _).symm
  | cons a actions ih =>
    show ((j.step a).after actions).ledger.committed = _
    rw [ih, committed_step, Journal.pipeline_step, framings, List.append_assoc]

/-! ## Whole records -/

theorem exists_records : ∀ {whole : List (List UInt8)}, (∀ bytes ∈ whole, ∃ r : Record, r.Framable ∧ bytes = r.toBytes) →
    ∃ rs : List Record, whole = rs.map Record.toBytes ∧ ∀ r ∈ rs, r.Framable
  | [], _ => ⟨[], rfl, nofun⟩
  | bytes :: whole, h => by
    obtain ⟨r, hr, rfl⟩ := h bytes List.mem_cons_self
    obtain ⟨rs, rfl, hrs⟩ := exists_records fun b hb => h b (List.mem_cons_of_mem _ hb)
    exact ⟨r :: rs, rfl, List.forall_mem_cons.2 ⟨hr, hrs⟩⟩

theorem map_payload_streamOf (records : List (List UInt8)) : (streamOf records).map Beat.payload = records.flatten := by
  induction records with
  | nil => rfl
  | cons r records ih =>
    show (Beat.ofRecord r ++ streamOf records).map Beat.payload = r ++ records.flatten
    rw [List.map_append, Beat.map_payload_ofRecord, ih]

/-- **Whole records**: what is delivered are records of those that were framed, in order and none of them twice, and at
most a part of one more. -/
structure DeliversRecords (p : Pipeline) (actions : List Action) (rs : List Record) (part : List Beat) : Prop where
  /-- each record has the mark on its final byte, and on that alone -/
  delivered : p.delivered actions = rs.flatMap (fun r => Beat.ofRecord r.toBytes) ++ part
  framed : part = [] ∧ (rs.map Record.toBytes).Sublist ((p.framings actions).map Recorder.Framing.bytes) ∨
    ∃ next rest, part ≠ [] ∧ rest ≠ [] ∧ Beat.ofRecord next.toBytes = part ++ rest ∧
      ((rs ++ [next]).map Record.toBytes).Sublist ((p.framings actions).map Recorder.Framing.bytes)
  /-- a decoder reads exactly the complete records -/
  decoded : Record.decodeAll ((p.delivered actions).map Beat.payload) = rs

/-- **Whole records are delivered**, for every configuration and under every interleaving. -/
theorem wholeRecords_of_create (h : create settings controls = .ok p) (actions : List Action) :
    ∃ rs part, p.DeliversRecords actions rs part := by
  have hsound := sound_journal h actions
  have hdelivered : deliveredOf (p.journal actions).passed = p.delivered actions :=
    Journal.delivered_after { pipeline := p } actions
  have hcommitted : (p.journal actions).ledger.committed = p.framings actions := committed_after { pipeline := p } actions
  obtain ⟨whole, part, hstream, hcase⟩ := hsound.passage.reading.whole_records
  have hrecords := hsound.tells.records_sublist
  rw [hcommitted] at hrecords
  have hwhole : whole.Sublist (p.journal actions).ledger.records := by
    rcases hcase with ⟨-, hsub⟩ | ⟨r, rest, -, -, -, hsub⟩
    · exact hsub
    · exact (List.sublist_append_left whole [r]).trans hsub
  obtain ⟨rs, rfl, hrs⟩ := exists_records fun bytes hbytes => hsound.tells.exists_record (hwhole.subset hbytes)
  rw [hdelivered] at hstream
  have hbytes : (p.delivered actions).map Beat.payload = rs.flatMap Record.toBytes ++ part.map Beat.payload := by
    rw [hstream, List.map_append, map_payload_streamOf, ← List.flatMap_def]
  refine ⟨rs, part, ?_, ?_, ?_⟩
  · rw [hstream]
    simp [streamOf, List.flatMap_map]
  · rcases hcase with ⟨hpart, hsub⟩ | ⟨r, rest, hpart, hrest, hsplit, hsub⟩
    · exact .inl ⟨hpart, hsub.trans hrecords⟩
    · obtain ⟨next, -, rfl⟩ := hsound.tells.exists_record (hsub.subset (by simp : r ∈ _ ++ [r]))
      refine .inr ⟨next, rest, hpart, hrest, hsplit, ?_⟩
      rw [List.map_append]
      exact hsub.trans hrecords
  · rw [hbytes]
    refine Record.decodeAll_records ?_ rs hrs
    rcases hcase with ⟨rfl, -⟩ | ⟨r, rest, -, hrest, hsplit, hsub⟩
    · rfl
    · obtain ⟨next, hnext, rfl⟩ := hsound.tells.exists_record (hsub.subset (by simp : r ∈ _ ++ [r]))
      have hcut := congrArg (List.map Beat.payload) hsplit
      rw [Beat.map_payload_ofRecord, List.map_append] at hcut
      exact Record.decode?_cut hnext hcut (by simpa using hrest)

/-- A tick on which a byte of a packet is received. -/
def receiving (byte : UInt8) : Action := .sample { active := true, valid := true, byte }

/-- A capture of two packets, the first of which the reader is given in part; then the capture is stopped and asked for
anew. -/
def interrupted : List Action :=
  [.request (.write 1), .sample {}, receiving 1, receiving 2, .sample {}, receiving 3, receiving 4, .sample {}] ++
    List.replicate 5 (.sample {}) ++ List.replicate 4 (.report true) ++
    [.request (.write 0), .sample {}, .request (.write 1)]

/-- A packet of the capture that was asked for anew, and a reader that waits for it. -/
def resumed : List Action :=
  [receiving 5, receiving 6, .sample {}] ++ (List.replicate 16 [.sample {}, .report true]).flatten

/-- The rest of the first packet is delivered, the second is dropped, and the packet of the new capture comes whole. -/
theorem wholeRecords_interrupted : ∃ p, create { ringSize := 32, queueDepth := 8 } .standard = .ok p ∧
    (∃ rs part, p.DeliversRecords (interrupted ++ .sample {} :: .report true :: resumed) rs part) ∧
    (p.delivered (interrupted ++ .sample {} :: .report true :: resumed)).map Beat.payload =
      [0, 2, 0, 0, 1, 2, 0, 2, 0, 0, 5, 6] := by
  obtain ⟨p, hp⟩ : ∃ p, create { ringSize := 32, queueDepth := 8 } .standard = .ok p := ⟨_, rfl⟩
  exact ⟨p, hp, wholeRecords_of_create hp _, by cases hp; decide +kernel⟩

/-! ## Exact discards -/

/-- **Discards are exact.**  Bytes are numbered in the order in which they are pushed, records in that in which they are
framed. -/
structure ExactDiscards (p : Pipeline) : Prop where
  pushed : ∀ actions, (p.journal actions).ledger.sent.length = (p.after actions).queue.sender.pushed
  /-- the bytes pushed are those of the records handed over, one after another -/
  sent : ∀ actions, (p.journal actions).ledger.sent <+: streamOf (p.journal actions).ledger.records
  handed : ∀ actions, (p.journal actions).ledger.handed.Pairwise (· < ·) ∧
    (p.journal actions).ledger.committed = p.framings actions
  /-- what is delivered as the byte of a number is the byte that was pushed with that number -/
  passed : ∀ actions, LeftInOrder (p.journal actions).passed (p.journal actions).ledger.sent ∧
    deliveredOf (p.journal actions).passed = p.delivered actions ∧
    (p.journal actions).passed.length = (p.after actions).reports.passed
  /-- a byte that has not passed is still in the store or in the queue -/
  kept : ∀ actions, ∃ gone, ((p.after actions).reports.store.map Spill.contents).getD [] =
      ((p.journal actions).ledger.sent.take gone).drop (p.journal actions).passed.length ∧
    ∀ n, gone ≤ n → ∀ h : n < (p.journal actions).ledger.sent.length,
      (p.after actions).queue.slots.read (n % (p.after actions).queue.depth) = (p.journal actions).ledger.sent[n].toWord
  /-- a byte below a mark that a tick has seen is delivered on that tick or later only as one of a record that the reader
  had been given a part of before -/
  finished : ∀ before ready later n b, n < (p.after before).queue.mark → (p.journal before).passed.length ≤ n →
    (p.journal (before ++ .report ready :: later)).passed[n]? = some (some b) →
    ∃ i, (p.journal (before ++ .report ready :: later)).ledger.start i < (p.journal before).passed.length ∧
      n < (p.journal (before ++ .report ready :: later)).ledger.start (i + 1) ∧
      ∀ k, (p.journal (before ++ .report ready :: later)).ledger.start i ≤ k → k < (p.journal before).passed.length →
        ∃ x, (p.journal before).passed[k]? = some (some x)
  /-- a byte is dropped only below a mark that was requested -/
  dropped : ∀ actions n, (p.journal actions).passed[n]? = some none → ∃ m ∈ p.marks actions, n < m
  /-- the records framed before a tick that discards end below its mark, those framed on it or later begin there or after -/
  parted : ∀ before s later m, (p.after before).request? (.sample s) = some m → ∀ i k,
    (p.journal (before ++ .sample s :: later)).ledger.handed[i]? = some k →
    (k < (p.framings before).length → (p.journal (before ++ .sample s :: later)).ledger.start (i + 1) ≤ m) ∧
      ((p.framings before).length ≤ k → m ≤ (p.journal (before ++ .sample s :: later)).ledger.start i)

variable {j : Journal}

/-- **Marks**: every mark is the end of the records handed over so far. -/
theorem mark_step (hj : j.Sound) (a : Action) :
    (∀ m, j.pipeline.request? a = some m → m = (streamOf j.ledger.records).length) ∧
      (j.step a).pipeline.queue.mark = (j.pipeline.request? a).elim j.pipeline.queue.mark (max j.pipeline.queue.mark) := by
  obtain ⟨gone, seenGone, seenSent, hw, -⟩ := hj.carried
  cases a with
  | sample s =>
    obtain ⟨-, -, -, hmark, hend⟩ := hj.sampled s
    unfold request? Journal.step
    dsimp only
    cases hclosed : j.pipeline.queue.closed with
    | true => exact ⟨nofun, rfl⟩
    | false =>
      cases hd : (j.pipeline.sample s).samples.status.discarding with
      | false =>
        rw [hd] at hmark
        exact ⟨nofun, hmark⟩
      | true =>
        rw [hd, if_pos rfl, ← hend hd] at hmark
        refine ⟨fun m hm => ?_, hmark⟩
        cases hm
        exact hend hd
  | discard =>
    have hend := hj.mark_discardSent
    rw [← hj.tells.length_sent, ← hw.pushed] at hend ⊢
    unfold request? Journal.step Pipeline.step
    dsimp only
    cases hclosed : j.pipeline.queue.closed with
    | true => exact ⟨nofun, rfl⟩
    | false => exact ⟨fun m hm => by cases hm; rfl, hend⟩
  | report ready =>
    obtain ⟨count, -, -, -, hmark⟩ := hj.passes_report ready
    exact ⟨nofun, hmark⟩
  | request r => exact ⟨nofun, rfl⟩
  | drop => exact ⟨nofun, rfl⟩

theorem exists_mark_of_lt (hj : j.Sound) {actions : List Action} {n : Nat} (hn : n < (j.after actions).pipeline.queue.mark) :
    n < j.pipeline.queue.mark ∨ ∃ m ∈ j.pipeline.marks actions, n < m := by
  induction actions generalizing j with
  | nil => exact .inl hn
  | cons a actions ih =>
    have hmark := (mark_step hj a).2
    rw [marks, ← Journal.pipeline_step]
    rcases ih (hj.step a).1 hn with hold | ⟨m, hm, hlt⟩
    · rw [hmark] at hold
      cases hr : j.pipeline.request? a with
      | none =>
        rw [hr] at hold
        exact .inl hold
      | some m =>
        rw [hr] at hold
        rcases Nat.lt_or_ge n j.pipeline.queue.mark with hlt | hge
        · exact .inl hlt
        · refine .inr ⟨m, by simp, ?_⟩
          change n < max _ _ at hold
          omega
    · exact .inr ⟨m, List.mem_append_right _ hm, hlt⟩

/-- **After a tick that discards only records are handed over that were framed on it or later.** -/
theorem handed_discard (hj : j.Sound) {s : Sample} {m : Nat} (hm : j.pipeline.request? (.sample s) = some m) :
    ∃ more, (j.step (.sample s)).ledger.handed = j.ledger.handed ++ more ∧
      ∀ k ∈ more ++ (j.step (.sample s)).ledger.fresh, j.ledger.committed.length ≤ k := by
  unfold request? at hm
  dsimp only at hm
  split at hm
  · rename_i hcase
    obtain ⟨hopen, hd⟩ := hcase
    obtain ⟨-, hextends, -⟩ := hj.sampled s
    rw [hd] at hextends
    have hstep : j.step (.sample s) = j.sample s := by
      unfold Journal.step
      dsimp only
      rw [hopen]
      rfl
    obtain ⟨more, hmore, hfrom⟩ := hextends.handed
    rw [hstep]
    refine ⟨more, hmore, fun k hk => ?_⟩
    rcases hfrom k hk with hfresh | hnew
    · rw [Ledger.fresh_frame hj.tells.held_ne_nil, if_pos rfl, List.nil_append] at hfresh
      exact (List.mem_range'_1.1 hfresh).1
    · refine Nat.le_trans ?_ hnew
      show j.ledger.committed.length ≤ (j.ledger.committed ++ _).length
      rw [List.length_append]
      exact Nat.le_add_right _ _
  · cases hm

/-- A mark parts the records handed over before from those handed over later. -/
theorem start_of_handed (hj : j.Sound) {l : Ledger} (hextends : j.ledger.Extends l) {more : List Nat}
    (hmore : l.handed = j.ledger.handed ++ more) (hfrom : ∀ k ∈ more, j.ledger.committed.length ≤ k) {i k : Nat}
    (hk : l.handed[i]? = some k) :
    (k < j.ledger.committed.length → l.start (i + 1) ≤ (streamOf j.ledger.records).length) ∧
      (j.ledger.committed.length ≤ k → (streamOf j.ledger.records).length ≤ l.start i) := by
  have hinit := hextends.records hj.tells
  have hlen : j.ledger.records.length = j.ledger.handed.length := List.length_map ..
  rw [hmore] at hk
  rcases Nat.lt_or_ge i j.ledger.handed.length with hold | hnew
  · rw [List.getElem?_append_left hold] at hk
    have hlt := hj.tells.handed_lt k (List.mem_of_getElem? hk)
    refine ⟨fun _ => length_streamOf_le ?_, fun hge => absurd hge (Nat.not_le_of_lt hlt)⟩
    exact List.prefix_of_prefix_length_le (List.take_prefix _ _) hinit (by rw [List.length_take]; omega)
  · rw [List.getElem?_append_right hnew] at hk
    have hge := hfrom k (List.mem_of_getElem? hk)
    refine ⟨fun hlt => absurd hge (Nat.not_le_of_lt hlt), fun _ => length_streamOf_le ?_⟩
    refine List.prefix_of_prefix_length_le hinit (List.take_prefix _ _) ?_
    rw [List.length_take]
    exact Nat.le_min.2 ⟨by omega, hinit.length_le⟩

/-- **What is delivered below a mark that was heard is the rest of a record begun before.** -/
theorem begun_of_heard (hj : j.Sound) {since mark n : Nat} {b : Beat} (hheard : j.Heard since mark) (hsince : since ≤ n)
    (hmark : n < mark) (hb : j.passed[n]? = some (some b)) :
    ∃ i, j.ledger.start i < since ∧ n < j.ledger.start (i + 1) ∧
      ∀ k, j.ledger.start i ≤ k → k < since → ∃ x, j.passed[k]? = some (some x) := by
  obtain ⟨before, r, hinit, hle, hlt, hall⟩ := hj.passage.fromStart n b hb
  obtain ⟨after, hrecords⟩ := hinit
  have hstart : j.ledger.start before.length = (streamOf before).length := by
    unfold Ledger.start
    rw [← hrecords, List.append_assoc, List.take_left]
  have hnext : j.ledger.start (before.length + 1) = (streamOf before).length + r.length := by
    unfold Ledger.start
    rw [← hrecords, show before.length + 1 = (before ++ [r]).length by simp, List.take_left]
    simp
  refine ⟨before.length, ?_, by omega, fun k hk hks => hall k (by omega) (by omega)⟩
  rw [hstart]
  by_contra hge
  -- its first byte would have been delivered after the mark was heard, and is not below it
  obtain ⟨x, hx⟩ := hall _ (Nat.le_refl _) hle
  have hbound : Boundary j.ledger.records (streamOf before).length :=
    ⟨before, ⟨r :: after, by rw [← hrecords]; simp⟩, rfl⟩
  have := hheard.2 _ x (Nat.le_of_not_lt hge) hx hbound
  omega

/-- What is delivered below a mark once a tick has seen it. -/
theorem finished_of_mark (hj : j.Sound) (ready : Bool) (later : List Action) {n : Nat} {b : Beat}
    (hmark : n < j.pipeline.queue.mark) (hn : j.passed.length ≤ n)
    (hb : ((j.step (.report ready)).after later).passed[n]? = some (some b)) :
    ∃ i, ((j.step (.report ready)).after later).ledger.start i < j.passed.length ∧
      n < ((j.step (.report ready)).after later).ledger.start (i + 1) ∧
      ∀ k, ((j.step (.report ready)).after later).ledger.start i ≤ k → k < j.passed.length →
        ∃ x, j.passed[k]? = some (some x) := by
  have hheard : (j.step (.report ready)).Heard j.passed.length j.pipeline.queue.mark := Journal.heard_report hj ready
  have hnext := (hj.step (.report ready)).1
  obtain ⟨i, hi, hlt, hall⟩ := begun_of_heard (hnext.after later).1 (hheard.after hnext later) hn hmark hb
  refine ⟨i, hi, hlt, fun k hk hks => ?_⟩
  obtain ⟨x, hx⟩ := hall k hk hks
  obtain ⟨more, hmore⟩ := (Journal.passed_step j (.report ready)).trans (Journal.passed_after _ later)
  rw [← hmore, List.getElem?_append_left hks] at hx
  exact ⟨x, hx⟩

/-- Where the records begin and end that are handed over before and after a tick that discards. -/
theorem parted_of_request (hj : j.Sound) {s : Sample} {m : Nat} (hm : j.pipeline.request? (.sample s) = some m)
    (later : List Action) {i k : Nat} (hk : ((j.step (.sample s)).after later).ledger.handed[i]? = some k) :
    (k < j.ledger.committed.length → ((j.step (.sample s)).after later).ledger.start (i + 1) ≤ m) ∧
      (j.ledger.committed.length ≤ k → m ≤ ((j.step (.sample s)).after later).ledger.start i) := by
  obtain ⟨hnext, hextends⟩ := hj.step (.sample s)
  obtain ⟨more, hmore, hfrom⟩ := handed_discard hj hm
  obtain ⟨-, hlater⟩ := hnext.after later
  obtain ⟨newer, hnewer, hfrom'⟩ := hlater.handed
  rw [(mark_step hj (.sample s)).1 m hm]
  have hhanded : ((j.step (.sample s)).after later).ledger.handed = j.ledger.handed ++ (more ++ newer) := by
    rw [hnewer, hmore, List.append_assoc]
  refine start_of_handed hj (hextends.trans hlater) hhanded (fun x hx => ?_) hk
  rcases List.mem_append.1 hx with hx | hx
  · exact hfrom x (List.mem_append_left _ hx)
  · rcases hfrom' x (List.mem_append_left _ hx) with hx | hx
    · exact hfrom x (List.mem_append_right _ hx)
    · exact Nat.le_trans hextends.committed.length_le hx

/-- **Discards are exact**, for every configuration and under every interleaving. -/
theorem exactDiscards_of_create (h : create settings controls = .ok p) : p.ExactDiscards := by
  have hsound := sound_journal h
  have hpipeline : ∀ actions, (p.journal actions).pipeline = p.after actions := Journal.pipeline_after { pipeline := p }
  have hcommitted : ∀ actions, (p.journal actions).ledger.committed = p.framings actions :=
    committed_after { pipeline := p }
  have hsplit : ∀ before a later, p.journal (before ++ a :: later) = ((p.journal before).step a).after later :=
    fun before a later => Journal.after_append { pipeline := p } before (a :: later)
  refine ⟨fun actions => ?_, fun actions => ⟨_, (hsound actions).tells.stream⟩, fun actions => ⟨?_, hcommitted actions⟩,
    fun actions => ⟨(hsound actions).passage.in_order, Journal.delivered_after { pipeline := p } actions, ?_⟩,
    fun actions => ?_, ?_, ?_, ?_⟩
  · obtain ⟨gone, seenGone, seenSent, hw, -⟩ := (hsound actions).carried
    rw [← hw.pushed, hpipeline]
  · exact (List.pairwise_append.1 (hsound actions).tells.order).1
  · rw [← hpipeline]
    exact (hsound actions).passed.symm
  · obtain ⟨gone, seenGone, seenSent, hw, hstored⟩ := (hsound actions).carried
    rw [(hsound actions).passed, hpipeline] at hstored
    rw [hpipeline] at hw
    exact ⟨gone, hstored.contents_eq, hw.slots⟩
  · intro before ready later n b hmark hn hb
    rw [hsplit] at hb ⊢
    rw [← hpipeline] at hmark
    exact finished_of_mark (hsound before) ready later hmark hn hb
  · intro actions n hn
    have hlt := Nat.lt_of_lt_of_le ((hsound actions).passage.dropped n hn) (hsound actions).stale_le
    rcases exists_mark_of_lt (sound_create h) hlt with hold | hnew
    · exact absurd hold (Nat.not_lt_of_le (Nat.le_trans (sound_create h).mark.le (Nat.zero_le n)))
    · exact hnew
  · intro before s later m hm i k hk
    rw [hsplit] at hk ⊢
    rw [← hpipeline] at hm
    rw [← hcommitted before]
    exact parted_of_request (hsound before) hm later hk

/-- Of the two packets of the interrupted capture, twelve bytes with numbers below the mark, the reader is within the first;
it is given bytes three to five, the rest of it, the others are dropped, and the new capture begins with byte twelve. -/
theorem exactDiscards_interrupted : ∃ p, create { ringSize := 32, queueDepth := 8 } .standard = .ok p ∧ p.ExactDiscards ∧
    (p.journal (interrupted ++ .sample {} :: .report true :: resumed)).passed.map Option.isSome =
      List.replicate 6 true ++ List.replicate 6 false ++ List.replicate 6 true ∧
    (∃ i, (p.journal (interrupted ++ [.sample {}] ++ .report true :: resumed)).ledger.start i < 3 ∧
      5 < (p.journal (interrupted ++ [.sample {}] ++ .report true :: resumed)).ledger.start (i + 1)) ∧
    (∃ m ∈ p.marks (interrupted ++ .sample {} :: .report true :: resumed), 6 < m) ∧
    12 ≤ (p.journal (interrupted ++ .sample {} :: .report true :: resumed)).ledger.start 2 := by
  obtain ⟨p, hp⟩ : ∃ p, create { ringSize := 32, queueDepth := 8 } .standard = .ok p := ⟨_, rfl⟩
  have hexact := exactDiscards_of_create hp
  refine ⟨p, hp, hexact, ?_, ?_, ?_, ?_⟩
  · cases hp
    decide +kernel
  · obtain ⟨i, hi, hlt, -⟩ := hexact.finished (interrupted ++ [.sample {}]) true resumed 5 ⟨2, true⟩
      (by cases hp; decide +kernel) (by cases hp; decide +kernel) (by cases hp; decide +kernel)
    exact ⟨i, Nat.lt_of_lt_of_eq hi (by cases hp; decide +kernel), hlt⟩
  · exact hexact.dropped _ 6 (by cases hp; decide +kernel)
  · exact (hexact.parted interrupted {} (.report true :: resumed) 12 (by cases hp; decide +kernel) 2 2
      (by cases hp; decide +kernel)).2 (by cases hp; decide +kernel)

end Pipeline
end UsbRecorder
