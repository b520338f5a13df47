import Cadena.Connectors.BackfillLease

/-!
# The end of a backfill job

`finish` counts the chunks, reads the status and then sets the job to
`completed` or `completed_with_errors` if it still runs and the lease is held.
In between, failed chunks can be put back into the queue, and an execution that
has lost the job can write a chunk at any time.
-/

namespace Cadena.Connectors.Backfill

open Cadena.Base

/-- The job is `completed` or `completed_with_errors`. -/
def BackfillState.finished (s : BackfillState) : Bool :=
  s.job.status == .completed || s.job.status == .completedWithErrors

/-- A finished job has no chunk that is pending or running, and a completed one
has all of them done. -/
structure FinishedForGood (s : BackfillState) : Prop where
  closed : s.finished = true → ∀ c ∈ s.chunks, c.status ≠ .pending ∧ c.status ≠ .running
  done : s.job.status = .completed → ∀ c ∈ s.chunks, c.status = .done

/-- `giveUp` of a failure that is recorded. -/
def givesUp (chunk : ChunkRow) : ChunkError → Bool
  | .shed .. => false
  | .remote _ true _ => maxChunkAttempts ≤ chunk.attempts + 1
  | .remote _ false _ | .other _ => true

/-- The steps that would undo the end of a job are not taken: its update finds
the chunks as they were counted, and no late statement opens a chunk again. -/
def leavesFinished (s : BackfillState) : BackfillAction → Bool
  | .complete j =>
    match s.executions j with
    | .completing failed =>
      !(s.job.leaseOwner == some j && s.job.status == .running)
        || openChunks s.chunks == 0 && (failed != 0 || failedChunks s.chunks == 0)
    | _ => true
  | .mark j =>
    match s.executions j with
    | .marking due => !s.finished || due.isEmpty
    | _ => true
  | .commit j id =>
    match s.steps j id with
    | some (.held _ page _) => !s.finished || !hasMore page.nextPageToken
    | _ => true
  | .recordFailure j id =>
    match s.steps j id with
    | some (.failing chunk error) =>
      !s.finished || s.job.status == .completedWithErrors && givesUp chunk error
    | _ => true
  | _ => true

def LeavesFinished (s : BackfillState) (a : BackfillAction) : Prop := leavesFinished s a = true

instance (s : BackfillState) (a : BackfillAction) : Decidable (LeavesFinished s a) :=
  inferInstanceAs (Decidable (_ = true))

/-! ## The rows that executions know -/

section
variable {s t : BackfillState} {a : BackfillAction}

theorem ChunksChange.ids {rows : List BackfillChunk} {commits : List PageCommit}
    (h : ChunksChange s a rows commits) : rows.map (·.id) = s.chunks.map (·.id) := by
  cases h with
  | same => rfl
  | failed hst => exact Table.update_column _ (fun c => (SameProgress.fail _ _ _ c).id) _
  | _ => exact Table.update_column _ (by intro _; rfl) _

theorem chunk_ids_step (h : backfillStep s a = some t) : t.chunks.map (·.id) = s.chunks.map (·.id) :=
  (chunks_step h).ids

/-- Chunks that were selected, or are worked on, are rows of the table. -/
structure RowsKnown (s : BackfillState) : Prop where
  due : ∀ j due, s.executions j = .marking due → ∀ chunk ∈ due, chunk.id ∈ s.chunks.map (·.id)
  steps : ∀ j id st, s.steps j id = some st → st.chunk.id ∈ s.chunks.map (·.id)

theorem RowsKnown.start (now : Millis) (plan : ChunkPlan) : RowsKnown (.start now plan) := ⟨nofun, nofun⟩

theorem RowsKnown.step (h : RowsKnown s) (hstep : backfillStep s a = some t) : RowsKnown t := by
  have hids := chunk_ids_step hstep
  rcases moves_step hstep with ⟨-, he, hs⟩ | ⟨k, phase, steps, -, he, hs, hmove⟩
  · constructor
    · rw [he, hids]
      exact h.due
    · rw [hs, hids]
      exact h.steps
  · constructor
    · intro j due hdue chunk hchunk
      rw [hids]
      rw [he] at hdue
      by_cases hj : j = k
      · subst hj
        rw [setAt_same] at hdue
        cases hmove with
        | prepared _ hphase =>
          rw [hdue] at hphase
          cases hphase
        | selected _ _ =>
          cases hdue
          obtain ⟨c, hc, hid, -, -⟩ := owned_due hchunk
          exact List.mem_map.mpr ⟨c, hc, hid⟩
        | marked => cases hdue
        | stepped => exact h.due j due hdue chunk hchunk
        | ended => exact h.due j due hdue chunk hchunk
        | closing hm _ _ _ => exact absurd hdue (hm due)
        | crashed => cases hdue
      · rw [setAt_other _ _ hj] at hdue
        exact h.due j due hdue chunk hchunk
    · intro j id st hst
      rw [hids]
      rw [hs] at hst
      by_cases hj : j = k
      · subst hj
        rw [setAt_same] at hst
        cases hmove with
        | prepared | selected | closing => exact h.steps j id st hst
        | @marked due hphase _ =>
          obtain ⟨chunk, hchunk, rfl⟩ := Option.map_eq_some_iff.mp hst
          exact h.due j due hphase chunk (List.mem_of_find?_eq_some hchunk)
        | @stepped id' old new hold hnew _ =>
          by_cases hid : id = id'
          · rw [hid, setAt_same] at hst
            obtain rfl := Option.some.inj hst
            rw [hnew]
            exact h.steps j id' old hold
          · rw [setAt_other _ _ hid] at hst
            exact h.steps j id st hst
        | @ended id' old hold _ =>
          by_cases hid : id = id'
          · rw [hid, setAt_same] at hst
            cases hst
          · rw [setAt_other _ _ hid] at hst
            exact h.steps j id st hst
        | crashed => cases hst
      · rw [setAt_other _ _ hj] at hst
        exact h.steps j id st hst

/-! ## The status of the job -/

theorem status_step (h : backfillStep s a = some t) :
    t.job.status = s.job.status ∨ (∃ c, a = .command c) ∨ a = .retryFailed ∨ ∃ j, a = .complete j := by
  cases a with
  | command c => exact .inr (.inl ⟨c, rfl⟩)
  | retryFailed => exact .inr (.inr (.inl rfl))
  | complete j => exact .inr (.inr (.inr ⟨j, rfl⟩))
  | tick =>
    cases h
    exact .inl rfl
  | select j limit outOfTime =>
    simp only [backfillStep, selectStep] at h
    split at h
    · split at h
      · split at h <;> cases h <;> exact .inl rfl
      · cases h
        exact .inl rfl
    · cases h
  | hold j id outcomes =>
    simp only [backfillStep, holdStep] at h
    split at h
    · split at h
      · split at h <;> cases h <;> exact .inl rfl
      · cases h
    · cases h
  | claim | look | extend | endRound | readStatus | release =>
    simp only [backfillStep, claimStep, lookStep, extendStep, endRoundStep, readStatusStep,
      releaseStep] at h
    split at h
    · split at h <;> cases h <;> exact .inl rfl
    · cases h
  | checkRetry | connect | reset | mark | fetch | fetchFailed | commitFailed
  | commit | cleanup | recordFailure | count | abort | crash =>
    simp only [backfillStep, checkRetryStep, connectStep, resetStep, markStep,
      fetchStep, fetchFailedStep, commitFailedStep, commitStep, cleanupStep, recordChunkFailure,
      countStep, abortStep, crashStep] at h
    split at h <;> cases h <;> exact .inl rfl

theorem openChunks_eq_zero {chunks : List BackfillChunk} :
    openChunks chunks = 0 ↔ ∀ c ∈ chunks, c.status ≠ .pending ∧ c.status ≠ .running := by
  rw [openChunks, List.countP_eq_zero]
  refine forall₂_congr fun c _ => ?_
  rw [Bool.or_eq_true, beq_iff_eq, beq_iff_eq, not_or]

theorem failedChunks_eq_zero {chunks : List BackfillChunk} (hopen : openChunks chunks = 0) :
    failedChunks chunks = 0 ↔ ∀ c ∈ chunks, c.status = .done := by
  rw [failedChunks, List.countP_eq_zero]
  refine forall₂_congr fun c hc => ?_
  obtain ⟨hpending, hrunning⟩ := openChunks_eq_zero.mp hopen c hc
  rw [beq_iff_eq]
  cases hstatus : c.status <;> simp_all

theorem FinishedForGood.of_running (h : s.finished = false) : FinishedForGood s := by
  rw [BackfillState.finished, Bool.or_eq_false_iff, beq_eq_false_iff_ne, beq_eq_false_iff_ne] at h
  refine ⟨fun hfinished => ?_, fun hdone => absurd hdone h.1⟩
  rw [BackfillState.finished, Bool.or_eq_true, beq_iff_eq, beq_iff_eq] at hfinished
  exact (hfinished.elim h.1 h.2).elim

theorem finished_of_status (h : t.job.status = s.job.status) : t.finished = s.finished := by
  rw [BackfillState.finished, BackfillState.finished, h]

theorem finished_of_completed (h : s.job.status = .completed) : s.finished = true := by
  rw [BackfillState.finished, h]
  rfl

theorem FinishedForGood.same (h : FinishedForGood s) (hstatus : t.job.status = s.job.status)
    (hchunks : t.chunks = s.chunks) : FinishedForGood t := by
  constructor
  · rw [finished_of_status hstatus, hchunks]
    exact h.closed
  · rw [hstatus, hchunks]
    exact h.done

/-! ## Late statements on the chunks -/

theorem finishedForGood_update {p : BackfillChunk → Bool} {f : BackfillChunk → BackfillChunk}
    (h : FinishedForGood s) (hstatus : t.job.status = s.job.status)
    (hchunks : t.chunks = Table.update p f s.chunks) (hhit : ∃ c ∈ s.chunks, p c = true)
    {status : BackfillChunkStatus} (hset : ∀ c, (f c).status = status) :
    FinishedForGood t ↔ (s.finished = true → status ≠ .pending ∧ status ≠ .running) ∧
      (s.job.status = .completed → status = .done) := by
  constructor
  · intro ht
    obtain ⟨c, hc, hp⟩ := hhit
    have hmem : f c ∈ t.chunks := by
      rw [hchunks]
      exact Table.mem_update.mpr (.inl ⟨c, hc, hp, rfl⟩)
    constructor
    · intro hfinished
      rw [← hset c]
      exact ht.closed ((finished_of_status hstatus).trans hfinished) (f c) hmem
    · intro hcompleted
      rw [← hset c]
      exact ht.done (hstatus.trans hcompleted) (f c) hmem
  · intro hok
    constructor
    · intro hfinished c hc
      rw [finished_of_status hstatus] at hfinished
      rw [hchunks] at hc
      rcases Table.mem_update.mp hc with ⟨q, -, -, rfl⟩ | ⟨hc, -⟩
      · rw [hset q]
        exact hok.1 hfinished
      · exact h.closed hfinished c hc
    · intro hcompleted c hc
      rw [hstatus] at hcompleted
      rw [hchunks] at hc
      rcases Table.mem_update.mp hc with ⟨q, -, -, rfl⟩ | ⟨hc, -⟩
      · rw [hset q]
        exact hok.2 hcompleted
      · exact h.done hcompleted c hc

theorem FinishedForGood.onRunning {p : BackfillChunk → Bool} {f : BackfillChunk → BackfillChunk}
    (h : FinishedForGood s) (hstatus : t.job.status = s.job.status)
    (hchunks : t.chunks = Table.update p f s.chunks) (hp : ∀ c, p c = true → c.status = .running) :
    FinishedForGood t := by
  cases hfinished : s.finished with
  | false => exact .of_running ((finished_of_status hstatus).trans hfinished)
  | true =>
    refine h.same hstatus (hchunks.trans (Table.update_none fun c hc => ?_))
    exact Bool.eq_false_iff.mpr fun hhit => (h.closed hfinished c hc).2 (hp c hhit)

theorem fail_status (now : Millis) (chunk : ChunkRow) (error : ChunkError) (c : BackfillChunk) :
    (c.fail now chunk error).status = if givesUp chunk error then .failed else .pending := by
  cases error with
  | shed message deadline => rfl
  | other message => rfl
  | remote message retryable retryAfterMs =>
    cases retryable with
    | false => rfl
    | true =>
      simp only [BackfillChunk.fail, givesUp, decide_eq_true_eq, ge_iff_le]
      split <;> rfl

theorem finished_iff : s.finished = true ↔
    s.job.status = .completed ∨ s.job.status = .completedWithErrors := by
  rw [BackfillState.finished, Bool.or_eq_true, beq_iff_eq, beq_iff_eq]

/-! ## Steps and runs -/

theorem finished_mark {j : Nat} (hrows : RowsKnown s) (h : FinishedForGood s)
    (hstep : markStep s j = some t) : FinishedForGood t ↔ LeavesFinished s (.mark j) := by
  simp only [markStep] at hstep
  split at hstep <;> cases hstep
  rename_i due hphase
  simp only [LeavesFinished, leavesFinished, hphase, Bool.or_eq_true, Bool.not_eq_true']
  cases due with
  | nil =>
    refine ⟨fun _ => .inr rfl, fun _ => h.same rfl ?_⟩
    exact Table.update_none fun c _ => rfl
  | cons chunk rest =>
    have hmem : chunk.id ∈ s.chunks.map (·.id) := hrows.due j _ hphase chunk List.mem_cons_self
    obtain ⟨c, hc, hid⟩ := List.mem_map.mp hmem
    have hupdate := finishedForGood_update
      (t := { s.setExecution j (.inRound ((chunk :: rest).map (·.id))) with
        chunks := markRunning ((chunk :: rest).map (·.id)) s.chunks
        steps := setAt s.steps j fun id => ((chunk :: rest).find? (·.id == id)).map .fetching })
      h rfl rfl ⟨c, hc, by simp [hid]⟩ fun _ => rfl
    refine hupdate.trans ?_
    constructor
    · intro hok
      exact .inl (Bool.eq_false_iff.mpr fun hfinished => (hok.1 hfinished).2 rfl)
    · intro hrunning
      have hnot : s.finished = false := hrunning.resolve_right (by rintro ⟨⟩)
      refine ⟨fun hfinished => ?_, fun hcompleted => ?_⟩
      · rw [hnot] at hfinished
        cases hfinished
      · rw [finished_of_completed hcompleted] at hnot
        cases hnot

theorem finished_commit {j : Nat} {id : Uuid} (hrows : RowsKnown s) (h : FinishedForGood s)
    (hstep : commitStep s j id = some t) : FinishedForGood t ↔ LeavesFinished s (.commit j id) := by
  simp only [commitStep] at hstep
  split at hstep <;> cases hstep
  rename_i chunk page outcomes hst
  obtain ⟨c, hc, hid⟩ := List.mem_map.mp (hrows.steps j id _ hst)
  have hupdate := finishedForGood_update
    (t := { s.setStep j id none with
      chunks := Table.update (·.id == chunk.id) (·.advance page outcomes) s.chunks
      commits := s.commits ++ [⟨chunk.id, chunk.pageToken, page, outcomes⟩] })
    h rfl rfl ⟨c, hc, beq_iff_eq.mpr hid⟩ fun _ => rfl
  simp only [LeavesFinished, leavesFinished, hst, Bool.or_eq_true, Bool.not_eq_true']
  refine hupdate.trans ?_
  cases hmore : hasMore page.nextPageToken with
  | false =>
    refine ⟨fun _ => .inr rfl, fun _ => ⟨fun _ => ?_, fun _ => rfl⟩⟩
    exact ⟨by rintro ⟨⟩, by rintro ⟨⟩⟩
  | true =>
    constructor
    · intro hok
      exact .inl (Bool.eq_false_iff.mpr fun hfinished => (hok.1 hfinished).1 rfl)
    · intro hopen
      have hnot : s.finished = false := hopen.resolve_right (by rintro ⟨⟩)
      refine ⟨fun hfinished => ?_, fun hcompleted => ?_⟩
      · rw [hnot] at hfinished
        cases hfinished
      · rw [finished_of_completed hcompleted] at hnot
        cases hnot

theorem finished_failure {j : Nat} {id : Uuid} (hrows : RowsKnown s) (h : FinishedForGood s)
    (hstep : recordChunkFailure s j id = some t) :
    FinishedForGood t ↔ LeavesFinished s (.recordFailure j id) := by
  simp only [recordChunkFailure] at hstep
  split at hstep <;> cases hstep
  rename_i chunk error hst
  obtain ⟨c, hc, hid⟩ := List.mem_map.mp (hrows.steps j id _ hst)
  have hupdate := finishedForGood_update
    (t := { s.setStep j id none with
      chunks := Table.update (·.id == chunk.id) (·.fail s.now chunk error) s.chunks })
    h rfl rfl ⟨c, hc, beq_iff_eq.mpr hid⟩ (fail_status s.now chunk error)
  simp only [LeavesFinished, leavesFinished, hst, Bool.or_eq_true, Bool.not_eq_true', Bool.and_eq_true,
    beq_iff_eq]
  refine hupdate.trans ?_
  constructor
  · intro hok
    cases hfinished : s.finished with
    | false => exact .inl rfl
    | true =>
      refine .inr ⟨(finished_iff.mp hfinished).resolve_left fun hcompleted => ?_, ?_⟩
      · have hdone := hok.2 hcompleted
        split at hdone <;> cases hdone
      · by_contra hretry
        rw [if_neg hretry] at hok
        exact (hok.1 hfinished).1 rfl
  · rintro (hnot | ⟨hstatus, hgives⟩)
    · refine ⟨fun hfinished => ?_, fun hcompleted => ?_⟩
      · rw [hnot] at hfinished
        cases hfinished
      · rw [finished_of_completed hcompleted] at hnot
        cases hnot
    · rw [if_pos hgives]
      refine ⟨fun _ => ⟨by rintro ⟨⟩, by rintro ⟨⟩⟩, fun hcompleted => ?_⟩
      rw [hstatus] at hcompleted
      cases hcompleted

theorem finished_complete {j : Nat} (h : FinishedForGood s) (hstep : completeStep s j = some t) :
    FinishedForGood t ↔ LeavesFinished s (.complete j) := by
  simp only [completeStep] at hstep
  split at hstep
  · rename_i failed hphase
    simp only [LeavesFinished, leavesFinished, hphase]
    split at hstep <;> cases hstep
    · rename_i hheld
      obtain ⟨howner, hrunning⟩ := hheld
      rw [howner, hrunning, beq_self_eq_true, beq_self_eq_true, Bool.and_true, Bool.not_true, Bool.false_or,
        Bool.and_eq_true, beq_iff_eq, Bool.or_eq_true, bne_iff_ne, beq_iff_eq]
      have hset : ∀ status : BackfillJobStatus,
          ((s.setExecution j .releasing).setJobStatus status).job.status = status := fun _ => rfl
      by_cases hfailed : failed > 0
      · rw [if_pos hfailed]
        constructor
        · intro ht
          exact ⟨openChunks_eq_zero.mpr (ht.closed rfl), .inl (Nat.ne_of_gt hfailed)⟩
        · intro hok
          exact ⟨fun _ => openChunks_eq_zero.mp hok.1, by rintro ⟨⟩⟩
      · rw [if_neg hfailed]
        constructor
        · intro ht
          have hopen := openChunks_eq_zero.mpr (ht.closed rfl)
          exact ⟨hopen, .inr ((failedChunks_eq_zero hopen).mpr (ht.done rfl))⟩
        · intro hok
          have hnone : failedChunks s.chunks = 0 := hok.2.resolve_left (by omega)
          exact ⟨fun _ => openChunks_eq_zero.mp hok.1, fun _ => (failedChunks_eq_zero hok.1).mp hnone⟩
    · rename_i hlost
      refine ⟨fun _ => ?_, fun _ => h.same rfl rfl⟩
      rw [Bool.or_eq_true, Bool.not_eq_true', Bool.and_eq_false_iff, beq_eq_false_iff_ne, beq_eq_false_iff_ne]
      exact .inl (Decidable.not_and_iff_not_or_not.mp hlost)
  · cases hstep

theorem finished_step (hrows : RowsKnown s) (h : FinishedForGood s) (hstep : backfillStep s a = some t) :
    FinishedForGood t ↔ LeavesFinished s a := by
  have hchunks := chunks_step hstep
  have hstatus := status_step hstep
  cases a with
  | mark j => exact finished_mark hrows h hstep
  | commit j id => exact finished_commit hrows h hstep
  | recordFailure j id => exact finished_failure hrows h hstep
  | complete j => exact finished_complete h hstep
  | command c =>
    refine ⟨fun _ => rfl, fun _ => ?_⟩
    cases c <;> simp only [backfillStep, commandStep] at hstep <;> split at hstep <;> cases hstep <;>
      exact .of_running rfl
  | retryFailed =>
    refine ⟨fun _ => rfl, fun _ => .of_running ?_⟩
    simp only [backfillStep, retryFailedStep] at hstep
    split at hstep <;> cases hstep
    show (_ == _ || _ == _) = false
    by_cases hpaused : s.job.status = .paused <;> simp [hpaused]
  | reset j =>
    refine ⟨fun _ => rfl, fun _ => ?_⟩
    simp only [backfillStep, resetStep] at hstep
    split at hstep <;> cases hstep
    exact h.onRunning rfl rfl fun c hc => beq_iff_eq.mp hc
  | cleanup j id =>
    refine ⟨fun _ => rfl, fun _ => ?_⟩
    simp only [backfillStep, cleanupStep] at hstep
    split at hstep <;> cases hstep
    exact h.onRunning rfl rfl fun c hc => beq_iff_eq.mp (Bool.and_eq_true_iff.mp hc).2
  | _ =>
    refine ⟨fun _ => rfl, fun _ => h.same ?_ ?_⟩
    · rcases hstatus with hsame | ⟨c, hc⟩ | hc | ⟨j, hc⟩
      · exact hsame
      all_goals cases hc
    · generalize t.chunks = rows, t.commits = commits at hchunks
      cases hchunks
      rfl

/-- A job that is finished has no chunk open, and none that has failed if it
says it is completed, in every state of a run exactly if the update of `finish`
finds the chunks as it has counted them and no late statement opens a chunk. -/
theorem finished_for_good_iff (now : Millis) (plan : ChunkPlan) (acts : List BackfillAction)
    (hrun : backfill.run (.start now plan) acts = some t) :
    backfill.Throughout FinishedForGood (.start now plan) acts ↔
      backfill.Along LeavesFinished (.start now plan) acts :=
  backfill.throughout_iff (P := RowsKnown) (fun h hstep => h.step hstep)
    (fun hrows h hstep => finished_step hrows h hstep) (.start now plan) (.of_running rfl) hrun

end

/-- The only chunk of the job fails for good. -/
def failedRound : List BackfillAction :=
  [.command .start] ++ takesChunk 0 ++
    [.fetchFailed 0 1 (.other "410 Gone"), .recordFailure 0 1, .endRound 0 true]

/-- The operator retries between the count and the update of `finish`. -/
def retriedWhileFinishing : List BackfillAction :=
  failedRound ++ [.count 0, .readStatus 0, .checkRetry, .retryFailed, .complete 0, .release 0]

theorem stranded_chunk : ¬ ∀ (now : Millis) (plan : ChunkPlan) (acts : List BackfillAction)
    (t : BackfillState), backfill.run (.start now plan) acts = some t →
      backfill.Throughout FinishedForGood (.start now plan) acts := by
  intro h
  have hrun : (backfill.run (.start 0 examplePlan) retriedWhileFinishing).map
      (fun t => (t.job.status, t.chunks.map (·.status))) = some (.completedWithErrors, [.pending]) := by
    decide
  obtain ⟨t, ht, hend⟩ := Option.map_eq_some_iff.mp hrun
  rw [Prod.mk.injEq] at hend
  have hfinished := backfill.throughout_end (h 0 examplePlan retriedWhileFinishing t ht) ht
  have hpending : BackfillChunkStatus.pending ∈ t.chunks.map (·.status) := by
    rw [hend.2]
    exact List.mem_singleton_self _
  obtain ⟨c, hc, hstatus⟩ := List.mem_map.mp hpending
  exact (hfinished.closed (finished_iff.mpr (.inr hend.1)) c hc).1 hstatus

/-- The operator retries when the job is finished. -/
theorem finished_for_good_retried : backfill.Throughout FinishedForGood (.start 0 examplePlan)
    (failedRound ++ [.count 0, .readStatus 0, .complete 0, .release 0, .checkRetry, .retryFailed]) := by
  have hrun : (backfill.run (.start 0 examplePlan)
      (failedRound ++ [.count 0, .readStatus 0, .complete 0, .release 0, .checkRetry, .retryFailed])).isSome =
      true := by decide
  obtain ⟨t, ht⟩ := Option.isSome_iff_exists.mp hrun
  exact (finished_for_good_iff 0 examplePlan _ ht).mpr (by decide)

end Cadena.Connectors.Backfill
