import Cadena.Connectors.Backfill

/-!
# What a step of a backfill can do

One inversion lemma for the chunks and the log, and one for the executions
and the steps of their rounds.
-/

namespace Cadena.Connectors.Backfill

open Cadena.Base

variable {s t : BackfillState}

def StepPhase.chunk : StepPhase → ChunkRow
  | .fetching chunk | .fetched chunk _ | .held chunk _ _ | .lost chunk | .failing chunk _ => chunk

/-- What a step does to the chunks and the log of the commits. -/
inductive ChunksChange (s : BackfillState) :
    BackfillAction → List BackfillChunk → List PageCommit → Prop where
  | same {a : BackfillAction} : ChunksChange s a s.chunks s.commits
  | retried : ChunksChange s .retryFailed (retryFailed s.chunks) s.commits
  | reset {j : Nat} : s.executions j = .resetting →
      ChunksChange s (.reset j) (resetRunning s.chunks) s.commits
  | marked {j : Nat} {due : List ChunkRow} : s.executions j = .marking due →
      ChunksChange s (.mark j) (markRunning (due.map (·.id)) s.chunks) s.commits
  | committed {j : Nat} {id : Uuid} {chunk : ChunkRow} {page : BackfillPage}
      {outcomes : List RecordOutcome} : s.steps j id = some (.held chunk page outcomes) →
      ChunksChange s (.commit j id)
        (Table.update (·.id == chunk.id) (·.advance page outcomes) s.chunks)
        (s.commits ++ [⟨chunk.id, chunk.pageToken, page, outcomes⟩])
  | cleaned {j : Nat} {id : Uuid} {chunk : ChunkRow} : s.steps j id = some (.lost chunk) →
      ChunksChange s (.cleanup j id)
        (Table.update (fun c => c.id == chunk.id && c.status == .running)
          (fun c => { c with status := .pending }) s.chunks) s.commits
  | failed {j : Nat} {id : Uuid} {chunk : ChunkRow} {error : ChunkError} :
      s.steps j id = some (.failing chunk error) →
      ChunksChange s (.recordFailure j id)
        (Table.update (·.id == chunk.id) (·.fail s.now chunk error) s.chunks) s.commits

variable {a : BackfillAction}

theorem chunks_step (h : backfillStep s a = some t) : ChunksChange s a t.chunks t.commits := by
  cases a with
  | tick =>
    cases h
    exact .same
  | command c =>
    cases c <;> simp only [backfillStep, commandStep] at h <;> split at h <;> cases h <;>
      exact .same
  | retryFailed =>
    simp only [backfillStep, retryFailedStep] at h
    split at h <;> cases h
    exact .retried
  | reset j =>
    simp only [backfillStep, resetStep] at h
    split at h <;> cases h
    exact .reset ‹_›
  | mark j =>
    simp only [backfillStep, markStep] at h
    split at h <;> cases h
    exact .marked ‹_›
  | commit j id =>
    simp only [backfillStep, commitStep] at h
    split at h <;> cases h
    exact .committed ‹_›
  | cleanup j id =>
    simp only [backfillStep, cleanupStep] at h
    split at h <;> cases h
    exact .cleaned ‹_›
  | recordFailure j id =>
    simp only [backfillStep, recordChunkFailure] at h
    split at h <;> cases h
    exact .failed ‹_›
  | checkRetry =>
    simp only [backfillStep, checkRetryStep] at h
    split at h <;> cases h
    exact .same
  | select j limit outOfTime =>
    simp only [backfillStep, selectStep] at h
    split at h
    · split at h
      · split at h <;> cases h <;> exact .same
      · cases h
        exact .same
    · cases h
  | claim | look | extend | endRound | readStatus | complete | release =>
    simp only [backfillStep, claimStep, lookStep, extendStep, endRoundStep, readStatusStep,
      completeStep, releaseStep] at h
    split at h
    · split at h <;> cases h <;> exact .same
    · cases h
  | hold j id outcomes =>
    simp only [backfillStep, holdStep] at h
    split at h
    · split at h
      · split at h <;> cases h <;> exact .same
      · cases h
    · cases h
  | connect | fetch | fetchFailed | commitFailed | count | abort | crash =>
    simp only [backfillStep, connectStep, fetchStep, fetchFailedStep, commitFailedStep, countStep,
      abortStep, crashStep] at h
    split at h <;> cases h <;> exact .same

def BackfillAction.execution : BackfillAction → Option Nat
  | .tick _ | .command _ | .checkRetry | .retryFailed => none
  | .claim j | .connect j _ | .reset j | .look j | .extend j | .select j _ _ | .mark j
  | .fetch j _ _ | .fetchFailed j _ _ | .hold j _ _ | .commitFailed j _ _ | .commit j _
  | .cleanup j _ | .recordFailure j _ | .endRound j _ | .count j | .readStatus j | .complete j
  | .release j | .abort j | .crash j => some j

/-- The phases up to the first round, and between two rounds. -/
def ExecutionPhase.preparing : ExecutionPhase → Bool
  | .idle | .claimed | .resetting | .looping | .extending | .selecting => true
  | _ => false

inductive ExecutionMove (s t : BackfillState) (a : BackfillAction) (j : Nat) :
    ExecutionPhase → (Uuid → Option StepPhase) → Prop where
  /-- Before a round, or at its end. -/
  | prepared {phase : ExecutionPhase} : (s.executions j).preparing = true ∨
        (∃ ids, s.executions j = .inRound ids ∧ ∀ id ∈ ids, s.steps j id = none) →
      phase.preparing = true → ExecutionMove s t a j phase (s.steps j)
  | selected {limit : Nat} : s.executions j = .selecting → t.chunks = s.chunks →
      ExecutionMove s t a j (.marking (dueChunks s.chunks s.now limit)) (s.steps j)
  | marked {due : List ChunkRow} : s.executions j = .marking due →
      t.chunks = markRunning (due.map (·.id)) s.chunks →
      ExecutionMove s t a j (.inRound (due.map (·.id)))
        (fun id => (due.find? (·.id == id)).map .fetching)
  /-- A step goes on with its chunk. -/
  | stepped {id : Uuid} {old new : StepPhase} : s.steps j id = some old →
      new.chunk = old.chunk → t.chunks = s.chunks →
      ExecutionMove s t a j (s.executions j) (setAt (s.steps j) id (some new))
  | ended {id : Uuid} {old : StepPhase} : s.steps j id = some old →
      a = .commit j id ∨ a = .cleanup j id ∨ a = .recordFailure j id →
      ExecutionMove s t a j (s.executions j) (setAt (s.steps j) id none)
  /-- After the rounds, or after an exception. -/
  | closing {phase : ExecutionPhase} : (∀ due, phase ≠ .marking due) →
      (∀ ids, phase ≠ .inRound ids) → phase.preparing = false → t.chunks = s.chunks →
      ExecutionMove s t a j phase (s.steps j)
  | crashed : ExecutionMove s t a j .over (fun _ => none)

def Moves (s : BackfillState) (a : BackfillAction) (t : BackfillState) : Prop :=
  ∃ j phase steps, a.execution = some j ∧ t.executions = setAt s.executions j phase ∧
    t.steps = setAt s.steps j steps ∧ ExecutionMove s t a j phase steps

theorem Moves.of_phase {j : Nat} {phase : ExecutionPhase}
    (ha : a.execution = some j) (he : t.executions = setAt s.executions j phase)
    (hs : t.steps = s.steps) (hmove : ExecutionMove s t a j phase (s.steps j)) : Moves s a t :=
  ⟨j, phase, s.steps j, ha, he, by rw [hs, setAt_self], hmove⟩

theorem Moves.of_step {j : Nat} {steps : Uuid → Option StepPhase}
    (ha : a.execution = some j) (he : t.executions = s.executions)
    (hs : t.steps = setAt s.steps j steps)
    (hmove : ExecutionMove s t a j (s.executions j) steps) : Moves s a t :=
  ⟨j, s.executions j, steps, ha, by rw [he, setAt_self], hs, hmove⟩

theorem Moves.closing {j : Nat} {phase : ExecutionPhase}
    (ha : a.execution = some j) (he : t.executions = setAt s.executions j phase)
    (hs : t.steps = s.steps) (hc : t.chunks = s.chunks) (hm : ∀ due, phase ≠ .marking due)
    (hr : ∀ ids, phase ≠ .inRound ids) (hp : phase.preparing = false) : Moves s a t :=
  .of_phase ha he hs (.closing hm hr hp hc)

theorem Moves.stepped {j : Nat} {id : Uuid} {old new : StepPhase}
    (hold : s.steps j id = some old) (ha : a.execution = some j)
    (ht : t = s.setStep j id (some new)) (hnew : new.chunk = old.chunk) : Moves s a t :=
  .of_step ha (ht ▸ rfl) (ht ▸ rfl) (.stepped hold hnew (ht ▸ rfl))

theorem moves_step (h : backfillStep s a = some t) :
    (a.execution = none ∧ t.executions = s.executions ∧ t.steps = s.steps) ∨ Moves s a t := by
  cases a with
  | tick =>
    cases h
    exact .inl ⟨rfl, rfl, rfl⟩
  | command c =>
    cases c <;> simp only [backfillStep, commandStep] at h <;> split at h <;> cases h <;>
      exact .inl ⟨rfl, rfl, rfl⟩
  | checkRetry | retryFailed =>
    simp only [backfillStep, checkRetryStep, retryFailedStep] at h
    split at h <;> cases h
    exact .inl ⟨rfl, rfl, rfl⟩
  | claim j =>
    simp only [backfillStep, claimStep] at h
    split at h
    · rename_i hphase
      split at h <;> cases h
      exact .inr (.of_phase rfl rfl rfl (.prepared (.inl (hphase ▸ rfl)) rfl))
    · cases h
  | connect j active =>
    simp only [backfillStep, connectStep] at h
    split at h <;> cases h
    rename_i hphase
    cases active with
    | true => exact .inr (.of_phase rfl rfl rfl (.prepared (.inl (hphase ▸ rfl)) rfl))
    | false => exact .inr (.closing rfl rfl rfl rfl nofun nofun rfl)
  | reset j =>
    simp only [backfillStep, resetStep] at h
    split at h <;> cases h
    rename_i hphase
    exact .inr (.of_phase rfl rfl rfl (.prepared (.inl (hphase ▸ rfl)) rfl))
  | look j =>
    simp only [backfillStep, lookStep] at h
    split at h
    · rename_i hphase
      split at h <;> cases h
      · exact .inr (.of_phase rfl rfl rfl (.prepared (.inl (hphase ▸ rfl)) rfl))
      · exact .inr (.closing rfl rfl rfl rfl nofun nofun rfl)
    · cases h
  | extend j =>
    simp only [backfillStep, extendStep] at h
    split at h
    · rename_i hphase
      split at h <;> cases h <;>
        exact .inr (.of_phase rfl rfl rfl (.prepared (.inl (hphase ▸ rfl)) rfl))
    · cases h
  | select j limit outOfTime =>
    simp only [backfillStep, selectStep] at h
    split at h
    · rename_i hphase
      split at h
      · split at h <;> cases h
        · exact .inr (.closing rfl rfl rfl rfl nofun nofun rfl)
        · exact .inr (.of_phase rfl rfl rfl (.prepared (.inl (hphase ▸ rfl)) rfl))
      · cases h
        exact .inr (.of_phase rfl rfl rfl (.selected hphase rfl))
    · cases h
  | mark j =>
    simp only [backfillStep, markStep] at h
    split at h <;> cases h
    exact .inr ⟨j, _, _, rfl, rfl, rfl, .marked ‹_› rfl⟩
  | fetch j id page =>
    simp only [backfillStep, fetchStep] at h
    split at h <;> cases h
    rename_i hold
    exact .inr (.stepped hold rfl rfl rfl)
  | fetchFailed j id error =>
    simp only [backfillStep, fetchFailedStep] at h
    split at h <;> cases h
    rename_i hold
    exact .inr (.stepped hold rfl rfl rfl)
  | hold j id outcomes =>
    simp only [backfillStep, holdStep] at h
    split at h
    · rename_i hold
      split at h
      · split at h <;> cases h <;> exact .inr (.stepped hold rfl rfl rfl)
      · cases h
    · cases h
  | commitFailed j id error =>
    simp only [backfillStep, commitFailedStep] at h
    split at h <;> cases h <;> rename_i hold <;> exact .inr (.stepped hold rfl rfl rfl)
  | commit j id =>
    simp only [backfillStep, commitStep] at h
    split at h <;> cases h
    exact .inr (.of_step rfl rfl rfl (.ended ‹_› (.inl rfl)))
  | cleanup j id =>
    simp only [backfillStep, cleanupStep] at h
    split at h <;> cases h
    exact .inr (.of_step rfl rfl rfl (.ended ‹_› (.inr (.inl rfl))))
  | recordFailure j id =>
    simp only [backfillStep, recordChunkFailure] at h
    split at h <;> cases h
    exact .inr (.of_step rfl rfl rfl (.ended ‹_› (.inr (.inr rfl))))
  | endRound j outOfTime =>
    simp only [backfillStep, endRoundStep] at h
    split at h
    · rename_i ids hphase
      split at h <;> cases h
      rename_i hover
      cases outOfTime with
      | true => exact .inr (.closing rfl rfl rfl rfl nofun nofun rfl)
      | false =>
        have hnone : ∀ id ∈ ids, s.steps j id = none := fun id hid => by
          simpa using List.all_eq_true.mp hover id hid
        exact .inr (.of_phase rfl rfl rfl (.prepared (.inr ⟨ids, hphase, hnone⟩) rfl))
    · cases h
  | count | abort =>
    simp only [backfillStep, countStep, abortStep] at h
    split at h <;> cases h
    exact .inr (.closing rfl rfl rfl rfl nofun nofun rfl)
  | readStatus | complete | release =>
    simp only [backfillStep, readStatusStep, completeStep, releaseStep] at h
    split at h
    · split at h <;> cases h <;> exact .inr (.closing rfl rfl rfl rfl nofun nofun rfl)
    · cases h
  | crash j =>
    simp only [backfillStep, crashStep] at h
    split at h <;> cases h
    exact .inr ⟨j, _, _, rfl, rfl, rfl, .crashed⟩

theorem latest_step (h : backfillStep s a = some t) :
    t.latest = s.latest ∨ ∃ j, a = .claim j ∧ t.latest = some j ∧ s.executions j = .idle := by
  cases a with
  | claim j =>
    simp only [backfillStep, claimStep] at h
    split at h
    · split at h <;> cases h
      exact .inr ⟨j, rfl, rfl, ‹_›⟩
    · cases h
  | tick =>
    cases h
    exact .inl rfl
  | command c =>
    cases c <;> simp only [backfillStep, commandStep] at h <;> split at h <;> cases h <;>
      exact .inl rfl
  | select j limit outOfTime =>
    simp only [backfillStep, selectStep] at h
    split at h
    · split at h
      · split at h <;> cases h <;> exact .inl rfl
      · cases h
        exact .inl rfl
    · cases h
  | hold j id outcomes =>
    simp only [backfillStep, holdStep] at h
    split at h
    · split at h
      · split at h <;> cases h <;> exact .inl rfl
      · cases h
    · cases h
  | look | extend | endRound | readStatus | complete | release =>
    simp only [backfillStep, lookStep, extendStep, endRoundStep, readStatusStep, completeStep,
      releaseStep] at h
    split at h
    · split at h <;> cases h <;> exact .inl rfl
    · cases h
  | checkRetry | retryFailed | connect | reset | mark | fetch | fetchFailed | commitFailed
  | commit | cleanup | recordFailure | count | abort | crash =>
    simp only [backfillStep, checkRetryStep, retryFailedStep, connectStep, resetStep, markStep,
      fetchStep, fetchFailedStep, commitFailedStep, commitStep, cleanupStep, recordChunkFailure,
      countStep, abortStep, crashStep] at h
    split at h <;> cases h <;> exact .inl rfl

end Cadena.Connectors.Backfill
