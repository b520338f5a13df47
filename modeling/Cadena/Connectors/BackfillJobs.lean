import Cadena.Connectors.BackfillFinish

/-!
# The backfill jobs of one connector

Requests of operators over all jobs of a connector: `start` and `resume` read
the job, look for another one that runs, and then change the status; `pause`
and `cancel` are one guarded update; `retryFailed` reads the job and its counts,
looks for another job if this one is finished, and then writes the status
without a look at it. The jobs themselves run as before.
-/

namespace Cadena.Connectors.Backfill

open Cadena.Base

structure JobEntry where
  id : Uuid
  state : BackfillState

def JobEntry.status (e : JobEntry) : BackfillJobStatus := e.state.job.status

/-- A request under way, at the statement it makes next. -/
inductive JobRequest where
  /-- `start` or `resume` has found the status it asks for. -/
  | activating (id : Uuid) (command : JobCommand)
  /-- No other job was running. -/
  | transitioning (id : Uuid) (command : JobCommand)
  /-- `retryFailed` has read the job. -/
  | counting (id : Uuid) (status : BackfillJobStatus)
  | checking (id : Uuid)
  | retrying (id : Uuid)

/-- `ended` are the jobs that have become cancelled or completed. -/
structure JobsState where
  jobs : List JobEntry
  requests : Nat → Option JobRequest
  ended : List (Uuid × BackfillJobStatus)

inductive JobsAction where
  | create (id : Uuid) (now : Millis) (plan : ChunkPlan)
  /-- The runner, or the clock. -/
  | work (id : Uuid) (a : BackfillAction)
  | beginActivate (r : Nat) (id : Uuid) (command : JobCommand)
  | assertNoOtherActive (r : Nat)
  | transition (r : Nat)
  | pause (id : Uuid)
  | cancel (id : Uuid)
  | beginRetry (r : Nat) (id : Uuid)
  | countFailed (r : Nat)
  | retryFailed (r : Nat)

/-- The steps that are not those of a runner. -/
def BackfillAction.byOperator : BackfillAction → Bool
  | .command _ | .checkRetry | .retryFailed => true
  | _ => false

/-- The status that `start` and `resume` ask for. -/
def JobCommand.activates : JobCommand → Option BackfillJobStatus
  | .start => some .pending
  | .resume => some .paused
  | .pause | .cancel => none

/-- A status that a job keeps for good. -/
def BackfillJobStatus.ends : BackfillJobStatus → Bool
  | .cancelled | .completed => true
  | _ => false

/-! ## Statements -/

def JobsState.find (s : JobsState) (id : Uuid) : Option JobEntry := s.jobs.find? (·.id == id)

def JobsState.setJob (s : JobsState) (id : Uuid) (state : BackfillState) : JobsState :=
  { s with
    jobs := Table.update (·.id == id) (fun e => { e with state := state }) s.jobs
    ended := s.ended ++ if state.job.status.ends then [(id, state.job.status)] else [] }

def JobsState.setRequest (s : JobsState) (r : Nat) (request : Option JobRequest) : JobsState :=
  { s with requests := setAt s.requests r request }

/-- `assertNoOtherActive`. -/
def otherActive (s : JobsState) (id : Uuid) : Bool := s.jobs.any fun e => e.id != id && e.status == .running

/-- The guarded update of `transition`; a conflict changes nothing. -/
def transitionJob (s : JobsState) (id : Uuid) (command : JobCommand) : JobsState :=
  match (s.find id).bind fun e => commandStep e.state command with
  | some state => s.setJob id state
  | none => s

/-- The transaction of `retryFailed`. -/
def retriedState (state : BackfillState) : BackfillState :=
  { state with
    chunks := retryFailed state.chunks
    job := { state.job with
      status := if state.job.status = .paused then .paused else .running } }

def jobsStep (s : JobsState) : JobsAction → Option JobsState
  | .create id now plan =>
    if s.jobs.any (·.id == id) then none else some { s with jobs := s.jobs ++ [⟨id, .start now plan⟩] }
  | .work id a =>
    if a.byOperator then none
    else
      match s.find id with
      | some e => (backfillStep e.state a).map (s.setJob id)
      | none => none
  | .beginActivate r id command =>
    match s.requests r, s.find id with
    | none, some e =>
      if command.activates = some e.status then some (s.setRequest r (some (.activating id command)))
      else none
    | _, _ => none
  | .assertNoOtherActive r =>
    match s.requests r with
    | some (.activating id command) =>
      some (s.setRequest r (if otherActive s id then none else some (.transitioning id command)))
    | some (.checking id) => some (s.setRequest r (if otherActive s id then none else some (.retrying id)))
    | _ => none
  | .transition r =>
    match s.requests r with
    | some (.transitioning id command) => some ((transitionJob s id command).setRequest r none)
    | _ => none
  | .pause id => some (transitionJob s id .pause)
  | .cancel id => some (transitionJob s id .cancel)
  | .beginRetry r id =>
    match s.requests r, s.find id with
    | none, some e =>
      if e.status = .completedWithErrors ∨ e.status = .running ∨ e.status = .paused then
        some (s.setRequest r (some (.counting id e.status)))
      else none
    | _, _ => none
  | .countFailed r =>
    match s.requests r with
    | some (.counting id status) =>
      match s.find id with
      | some e =>
        some (s.setRequest r
          (if failedChunks e.state.chunks = 0 then none
          else if status = .completedWithErrors then some (.checking id)
          else some (.retrying id)))
      | none => none
    | _ => none
  | .retryFailed r =>
    match s.requests r with
    | some (.retrying id) =>
      match s.find id with
      | some e => some ((s.setJob id (retriedState e.state)).setRequest r none)
      | none => none
    | _ => none

def jobsSystem : System JobsState JobsAction := ⟨jobsStep⟩

def JobsState.start : JobsState := ⟨[], fun _ => none, []⟩

/-- At most one job runs, and a job that was cancelled or completed stays so. -/
structure OneMigration (s : JobsState) : Prop where
  one : ∀ e ∈ s.jobs, ∀ e' ∈ s.jobs, e.status = .running → e'.status = .running → e.id = e'.id
  ended : ∀ id status, (id, status) ∈ s.ended → ∀ e ∈ s.jobs, e.id = id → e.status = status

/-- The status changes that go wrong are not made: a job begins to run when no
other one runs, and no job is retried that was cancelled or completed. -/
def keepsApart (s : JobsState) : JobsAction → Bool
  | .transition r =>
    match s.requests r with
    | some (.transitioning id command) =>
      ((s.find id).bind fun e => commandStep e.state command).isNone || !otherActive s id
    | _ => true
  | .retryFailed r =>
    match s.requests r with
    | some (.retrying id) =>
      match s.find id with
      | some e => !e.status.ends && (e.status == .paused || !otherActive s id)
      | none => true
    | _ => true
  | _ => true

def KeepsApart (s : JobsState) (a : JobsAction) : Prop := keepsApart s a = true

instance (s : JobsState) (a : JobsAction) : Decidable (KeepsApart s a) :=
  inferInstanceAs (Decidable (_ = true))

/-! ## What one update does -/

section
variable {s t : JobsState} {id : Uuid} {e : JobEntry} {state : BackfillState}

/-- The ids are distinct, and the ends of jobs are all in the log. -/
structure JobsInv (s : JobsState) : Prop where
  ids : (s.jobs.map (·.id)).Nodup
  created : ∀ entry ∈ s.ended, ∃ e ∈ s.jobs, e.id = entry.1
  logged : ∀ e ∈ s.jobs, e.status.ends = true → (e.id, e.status) ∈ s.ended
  ends : ∀ entry ∈ s.ended, entry.2.ends = true
  known : ∀ r command id, s.requests r = some (.transitioning id command) ∨
    s.requests r = some (.activating id command) → command.activates.isSome = true

theorem find_some (h : s.find id = some e) : e ∈ s.jobs ∧ e.id = id :=
  ⟨List.mem_of_find?_eq_some h, by simpa using List.find?_some h⟩

theorem otherActive_iff : otherActive s id = true ↔
    ∃ e ∈ s.jobs, e.id ≠ id ∧ e.status = .running := by
  simp only [otherActive, List.any_eq_true, Bool.and_eq_true, bne_iff_ne, beq_iff_eq]

theorem mem_setJob {e' : JobEntry} :
    e' ∈ (s.setJob id state).jobs ↔
      (∃ q ∈ s.jobs, q.id = id ∧ { q with state := state } = e') ∨ (e' ∈ s.jobs ∧ e'.id ≠ id) := by
  simp only [JobsState.setJob, Table.mem_update, beq_iff_eq, beq_eq_false_iff_ne]

theorem setJob_ids (id : Uuid) (state : BackfillState) :
    (s.setJob id state).jobs.map (·.id) = s.jobs.map (·.id) :=
  Table.update_column _ (by intro _; rfl) _

theorem exists_setJob {id' : Uuid} : (∃ e ∈ (s.setJob id state).jobs, e.id = id') ↔ ∃ e ∈ s.jobs, e.id = id' := by
  rw [← List.mem_map, setJob_ids, List.mem_map]

theorem JobsInv.setJob (h : JobsInv s) (he : e ∈ s.jobs) (state : BackfillState) :
    JobsInv (s.setJob e.id state) where
  ids := by
    rw [setJob_ids]
    exact h.ids
  created entry hentry := by
    refine exists_setJob.mpr ?_
    rcases List.mem_append.mp hentry with hold | hnew
    · exact h.created entry hold
    · split at hnew
      · obtain rfl := List.mem_singleton.mp hnew
        exact ⟨e, he, rfl⟩
      · cases hnew
  logged e' he' hends := by
    rcases mem_setJob.mp he' with ⟨q, -, hq, rfl⟩ | ⟨hmem, -⟩
    · have hended : state.job.status.ends = true := hends
      refine List.mem_append_right _ ?_
      rw [if_pos hended]
      exact List.mem_singleton.mpr (congrArg (·, state.job.status) hq)
    · exact List.mem_append_left _ (h.logged e' hmem hends)
  ends entry hentry := by
    rcases List.mem_append.mp hentry with hold | hnew
    · exact h.ends entry hold
    · split at hnew
      · rename_i hends
        obtain rfl := List.mem_singleton.mp hnew
        exact hends
      · cases hnew
  known := h.known

/-- A new status: nothing goes wrong exactly if it is not a second one that
runs, and the job has not ended before. -/
theorem oneMigration_setJob (hinv : JobsInv s) (h : OneMigration s) (he : e ∈ s.jobs) :
    OneMigration (s.setJob e.id state) ↔
      (state.job.status = .running → ¬ otherActive s e.id = true) ∧
      (e.status.ends = true → state.job.status = e.status) := by
  have hmem : (⟨e.id, state⟩ : JobEntry) ∈ (s.setJob e.id state).jobs :=
    mem_setJob.mpr (.inl ⟨e, he, rfl, rfl⟩)
  constructor
  · intro ht
    constructor
    · intro hrunning hother
      obtain ⟨e', he', hne, hactive⟩ := otherActive_iff.mp hother
      exact hne (ht.one e' (mem_setJob.mpr (.inr ⟨he', hne⟩)) ⟨e.id, state⟩ hmem hactive hrunning)
    · intro hends
      exact ht.ended e.id e.status (List.mem_append_left _ (hinv.logged e he hends)) ⟨e.id, state⟩ hmem rfl
  · rintro ⟨hone, hended⟩
    constructor
    · intro e₁ h₁ e₂ h₂ hr₁ hr₂
      rcases mem_setJob.mp h₁ with ⟨q₁, -, hq₁, rfl⟩ | ⟨hm₁, hn₁⟩ <;>
        rcases mem_setJob.mp h₂ with ⟨q₂, -, hq₂, rfl⟩ | ⟨hm₂, hn₂⟩
      · exact hq₁.trans hq₂.symm
      · exact absurd (otherActive_iff.mpr ⟨e₂, hm₂, hn₂, hr₂⟩) (hone hr₁)
      · exact absurd (otherActive_iff.mpr ⟨e₁, hm₁, hn₁, hr₁⟩) (hone hr₂)
      · exact h.one e₁ hm₁ e₂ hm₂ hr₁ hr₂
    · intro id status hlog e' he' hid
      rcases List.mem_append.mp hlog with hold | hnew
      · rcases mem_setJob.mp he' with ⟨q, hq, hqid, rfl⟩ | ⟨hmem', -⟩
        · have hsame : q = e := Table.eq_of_key hinv.ids hq he hqid
          have hstatus : e.status = status := h.ended id status hold e he (by rw [← hsame]; exact hid)
          have hends : e.status.ends = true := by
            rw [hstatus]
            exact hinv.ends (id, status) hold
          exact (hended hends).trans hstatus
        · exact h.ended id status hold e' hmem' hid
      · split at hnew
        · obtain ⟨rfl, rfl⟩ := Prod.mk.inj (List.mem_singleton.mp hnew)
          rcases mem_setJob.mp he' with ⟨q, -, -, rfl⟩ | ⟨-, hne⟩
          · rfl
          · exact absurd hid hne
        · cases hnew

theorem OneMigration.setJob (hinv : JobsInv s) (h : OneMigration s) (he : e ∈ s.jobs)
    (hstatus : state.job.status = e.status ∨ state.job.status ≠ .running ∧ e.status.ends = false) :
    OneMigration (s.setJob e.id state) := by
  refine (oneMigration_setJob hinv h he).mpr ⟨fun hrunning hother => ?_, fun hends => ?_⟩
  · obtain ⟨e', he', hne, hactive⟩ := otherActive_iff.mp hother
    rcases hstatus with hsame | ⟨hnot, -⟩
    · exact hne (h.one e' he' e he hactive (hsame.symm.trans hrunning))
    · exact hnot hrunning
  · rcases hstatus with hsame | ⟨-, hopen⟩
    · exact hsame
    · rw [hends] at hopen
      cases hopen

variable {command : JobCommand}

theorem commandStep_activates {t : BackfillState} (h : commandStep e.state command = some t)
    (hcommand : command.activates.isSome = true) : t.job.status = .running ∧ e.status.ends = false := by
  cases command with
  | start =>
    simp only [commandStep] at h
    split at h <;> cases h
    rename_i hpending
    exact ⟨rfl, by rw [JobEntry.status, hpending]; rfl⟩
  | resume =>
    simp only [commandStep] at h
    split at h <;> cases h
    rename_i hpaused
    exact ⟨rfl, by rw [JobEntry.status, hpaused]; rfl⟩
  | pause | cancel => cases hcommand

theorem commandStep_stops {t : BackfillState} (h : commandStep e.state command = some t)
    (hcommand : command.activates = none) : t.job.status ≠ .running ∧ e.status.ends = false := by
  cases command with
  | start | resume => cases hcommand
  | pause =>
    simp only [commandStep] at h
    split at h <;> cases h
    rename_i hrunning
    exact ⟨by rintro ⟨⟩, by rw [JobEntry.status, hrunning]; rfl⟩
  | cancel =>
    simp only [commandStep] at h
    split at h <;> cases h
    rename_i hopen
    refine ⟨by rintro ⟨⟩, ?_⟩
    rw [JobEntry.status]
    rcases hopen with hstatus | hstatus | hstatus <;> rw [hstatus] <;> rfl

theorem work_status {a : BackfillAction} {t : BackfillState} (ha : a.byOperator = false)
    (h : backfillStep e.state a = some t) :
    t.job.status = e.status ∨ t.job.status ≠ .running ∧ e.status.ends = false := by
  rcases status_step h with hsame | ⟨c, rfl⟩ | rfl | ⟨j, rfl⟩
  · exact .inl hsame
  · cases ha
  · cases ha
  · simp only [backfillStep, completeStep] at h
    split at h
    · split at h <;> cases h
      · rename_i hheld
        refine .inr ⟨?_, by rw [JobEntry.status, hheld.2]; rfl⟩
        show (if _ then _ else _) ≠ BackfillJobStatus.running
        split <;> rintro ⟨⟩
      · exact .inl rfl
    · cases h

theorem retriedState_status (state : BackfillState) :
    (retriedState state).job.status = if state.job.status = .paused then .paused else .running := rfl

/-! ## Steps -/

theorem OneMigration.setRequest (r : Nat) (request : Option JobRequest) :
    OneMigration (s.setRequest r request) ↔ OneMigration s :=
  ⟨fun h => ⟨h.one, h.ended⟩, fun h => ⟨h.one, h.ended⟩⟩

theorem JobsInv.setRequest (h : JobsInv s) (r : Nat) {request : Option JobRequest}
    (hknown : ∀ command id, request = some (.transitioning id command) ∨
      request = some (.activating id command) → command.activates.isSome = true) :
    JobsInv (s.setRequest r request) where
  ids := h.ids
  created := h.created
  logged := h.logged
  ends := h.ends
  known q command id hq := by
    simp only [JobsState.setRequest] at hq
    by_cases hqr : q = r
    · subst hqr
      rw [setAt_same] at hq
      exact hknown command id hq
    · rw [setAt_other _ _ hqr] at hq
      exact h.known q command id hq

theorem JobsInv.transitionJob (h : JobsInv s) (id : Uuid) (command : JobCommand) :
    JobsInv (transitionJob s id command) := by
  unfold Backfill.transitionJob
  split
  · rename_i state hstate
    obtain ⟨e, hfind, -⟩ := Option.bind_eq_some_iff.mp hstate
    obtain ⟨hmem, rfl⟩ := find_some hfind
    exact h.setJob hmem state
  · exact h

theorem OneMigration.stop (hinv : JobsInv s) (h : OneMigration s)
    (hcommand : command.activates = none) : OneMigration (Backfill.transitionJob s id command) := by
  unfold Backfill.transitionJob
  split
  · rename_i state hstate
    obtain ⟨e, hfind, hstep⟩ := Option.bind_eq_some_iff.mp hstate
    obtain ⟨hmem, rfl⟩ := find_some hfind
    exact h.setJob hinv hmem (.inr (commandStep_stops hstep hcommand))
  · exact h

theorem JobsInv.step (h : JobsInv s) {a : JobsAction} (hstep : jobsStep s a = some t) : JobsInv t := by
  cases a with
  | create id now plan =>
    simp only [jobsStep] at hstep
    split at hstep <;> cases hstep
    rename_i hnew
    refine ⟨Table.nodup_insert_unless h.ids (by simpa using hnew), fun entry hentry => ?_,
      fun e he hends => ?_, h.ends, h.known⟩
    · obtain ⟨e, he, hid⟩ := h.created entry hentry
      exact ⟨e, List.mem_append_left _ he, hid⟩
    rcases List.mem_append.mp he with hold | hcreated
    · exact h.logged e hold hends
    · obtain rfl := List.mem_singleton.mp hcreated
      cases hends
  | work id a =>
    simp only [jobsStep] at hstep
    split at hstep
    · cases hstep
    · split at hstep
      · rename_i e hfind
        obtain ⟨state, -, rfl⟩ := Option.map_eq_some_iff.mp hstep
        obtain ⟨hmem, rfl⟩ := find_some hfind
        exact h.setJob hmem state
      · cases hstep
  | beginActivate r id command =>
    simp only [jobsStep] at hstep
    split at hstep
    · split at hstep <;> cases hstep
      rename_i hstatus
      refine h.setRequest r fun command' id' hrequest => ?_
      rcases hrequest with hrequest | hrequest <;> cases hrequest
      rw [hstatus]
      rfl
    · cases hstep
  | assertNoOtherActive r =>
    simp only [jobsStep] at hstep
    split at hstep
    · rename_i id command hrequest
      cases hstep
      refine h.setRequest r fun command' id' hnext => ?_
      have hactivates := h.known r command id (.inr hrequest)
      split at hnext
      · rcases hnext with hnext | hnext <;> cases hnext
      · rcases hnext with hnext | hnext <;> cases hnext
        exact hactivates
    · cases hstep
      refine h.setRequest r fun command' id' hnext => ?_
      split at hnext <;> rcases hnext with hnext | hnext <;> cases hnext
    · cases hstep
  | transition r =>
    simp only [jobsStep] at hstep
    split at hstep <;> cases hstep
    exact (h.transitionJob _ _).setRequest r (by rintro _ _ (hnext | hnext) <;> cases hnext)
  | pause id =>
    cases hstep
    exact h.transitionJob id .pause
  | cancel id =>
    cases hstep
    exact h.transitionJob id .cancel
  | beginRetry r id =>
    simp only [jobsStep] at hstep
    split at hstep
    · split at hstep <;> cases hstep
      exact h.setRequest r (by rintro _ _ (hnext | hnext) <;> cases hnext)
    · cases hstep
  | countFailed r =>
    simp only [jobsStep] at hstep
    split at hstep
    · split at hstep <;> cases hstep
      refine h.setRequest r fun command' id' hnext => ?_
      split at hnext
      · rcases hnext with hnext | hnext <;> cases hnext
      · split at hnext <;> rcases hnext with hnext | hnext <;> cases hnext
    · cases hstep
  | retryFailed r =>
    simp only [jobsStep] at hstep
    split at hstep
    · split at hstep <;> cases hstep
      rename_i e hfind
      obtain ⟨hmem, rfl⟩ := find_some hfind
      exact (h.setJob hmem _).setRequest r (by rintro _ _ (hnext | hnext) <;> cases hnext)
    · cases hstep

theorem oneMigration_transition (hinv : JobsInv s) (h : OneMigration s) {r : Nat}
    (hstep : jobsStep s (.transition r) = some t) : OneMigration t ↔ KeepsApart s (.transition r) := by
  simp only [jobsStep] at hstep
  split at hstep <;> cases hstep
  rename_i id command hrequest
  rw [OneMigration.setRequest]
  simp only [KeepsApart, keepsApart, hrequest, transitionJob]
  cases hstate : (s.find id).bind fun e => commandStep e.state command with
  | none => exact ⟨fun _ => rfl, fun _ => h⟩
  | some state =>
    obtain ⟨e, hfind, hcommand⟩ := Option.bind_eq_some_iff.mp hstate
    obtain ⟨hmem, rfl⟩ := find_some hfind
    obtain ⟨hrunning, hopen⟩ := commandStep_activates hcommand (hinv.known r command e.id (.inl hrequest))
    refine (oneMigration_setJob hinv h hmem).trans ?_
    rw [Option.isNone_some, Bool.false_or, Bool.not_eq_true', ← Bool.not_eq_true]
    refine ⟨fun hok => hok.1 hrunning, fun hnone => ⟨fun _ => hnone, fun hends => ?_⟩⟩
    rw [hopen] at hends
    cases hends

theorem oneMigration_retryFailed (hinv : JobsInv s) (h : OneMigration s) {r : Nat}
    (hstep : jobsStep s (.retryFailed r) = some t) : OneMigration t ↔ KeepsApart s (.retryFailed r) := by
  simp only [jobsStep] at hstep
  split at hstep
  · rename_i id hrequest
    split at hstep <;> cases hstep
    rename_i e hfind
    obtain ⟨hmem, rfl⟩ := find_some hfind
    rw [OneMigration.setRequest, oneMigration_setJob hinv h hmem, retriedState_status]
    simp only [KeepsApart, keepsApart, hrequest, hfind, Bool.and_eq_true, Bool.or_eq_true, Bool.not_eq_true',
      beq_iff_eq, ← Bool.not_eq_true]
    show (((if e.status = .paused then _ else _) = _) → _) ∧ (_ → (if e.status = .paused then _ else _) = _) ↔ _
    by_cases hpaused : e.status = .paused
    · rw [if_pos hpaused, hpaused]
      exact ⟨fun _ => ⟨nofun, .inl rfl⟩, fun _ => ⟨nofun, nofun⟩⟩
    · rw [if_neg hpaused]
      constructor
      · intro hok
        refine ⟨fun hends => ?_, .inr (hok.1 rfl)⟩
        have hrunning := hok.2 hends
        rw [← hrunning] at hends
        cases hends
      · intro hok
        exact ⟨fun _ => hok.2.resolve_left hpaused, fun hends => absurd hends hok.1⟩
  · cases hstep

theorem oneMigration_step (hinv : JobsInv s) (h : OneMigration s) {a : JobsAction}
    (hstep : jobsStep s a = some t) : OneMigration t ↔ KeepsApart s a := by
  cases a with
  | transition r => exact oneMigration_transition hinv h hstep
  | retryFailed r => exact oneMigration_retryFailed hinv h hstep
  | create id now plan =>
    refine ⟨fun _ => rfl, fun _ => ?_⟩
    simp only [jobsStep] at hstep
    split at hstep <;> cases hstep
    rename_i hnew
    have hfresh : ∀ e ∈ s.jobs, e.id ≠ id := by simpa using hnew
    constructor
    · intro e he e' he' hr hr'
      rcases List.mem_append.mp he with hold | hcreated <;>
        rcases List.mem_append.mp he' with hold' | hcreated'
      · exact h.one e hold e' hold' hr hr'
      · obtain rfl := List.mem_singleton.mp hcreated'
        cases hr'
      all_goals
        obtain rfl := List.mem_singleton.mp hcreated
        cases hr
    · intro id' status hlog e he hid
      rcases List.mem_append.mp he with hold | hcreated
      · exact h.ended id' status hlog e hold hid
      · obtain rfl := List.mem_singleton.mp hcreated
        obtain ⟨old, hold, hsame⟩ := hinv.created (id', status) hlog
        exact absurd (hsame.trans hid.symm) (hfresh old hold)
  | work id a =>
    refine ⟨fun _ => rfl, fun _ => ?_⟩
    simp only [jobsStep] at hstep
    split at hstep
    · cases hstep
    · rename_i hrunner
      split at hstep
      · rename_i e hfind
        obtain ⟨state, hwork, rfl⟩ := Option.map_eq_some_iff.mp hstep
        obtain ⟨hmem, rfl⟩ := find_some hfind
        exact h.setJob hinv hmem (work_status (Bool.eq_false_iff.mpr hrunner) hwork)
      · cases hstep
  | pause id =>
    cases hstep
    exact ⟨fun _ => rfl, fun _ => h.stop hinv rfl⟩
  | cancel id =>
    cases hstep
    exact ⟨fun _ => rfl, fun _ => h.stop hinv rfl⟩
  | beginActivate r id command =>
    simp only [jobsStep] at hstep
    split at hstep
    · split at hstep <;> cases hstep
      exact ⟨fun _ => rfl, fun _ => (OneMigration.setRequest r _).mpr h⟩
    · cases hstep
  | assertNoOtherActive r =>
    simp only [jobsStep] at hstep
    split at hstep <;> cases hstep <;>
      exact ⟨fun _ => rfl, fun _ => (OneMigration.setRequest r _).mpr h⟩
  | beginRetry r id =>
    simp only [jobsStep] at hstep
    split at hstep
    · split at hstep <;> cases hstep
      exact ⟨fun _ => rfl, fun _ => (OneMigration.setRequest r _).mpr h⟩
    · cases hstep
  | countFailed r =>
    simp only [jobsStep] at hstep
    split at hstep
    · split at hstep <;> cases hstep
      exact ⟨fun _ => rfl, fun _ => (OneMigration.setRequest r _).mpr h⟩
    · cases hstep

theorem JobsInv.start : JobsInv .start := ⟨List.nodup_nil, nofun, nofun, nofun, nofun⟩

theorem OneMigration.start : OneMigration .start := ⟨nofun, nofun⟩

/-- At most one job runs and the ended ones stay so in every state of a run,
exactly if no job begins to run beside another, and no ended job is retried. -/
theorem one_migration_iff (acts : List JobsAction) (hrun : jobsSystem.run .start acts = some t) :
    jobsSystem.Throughout OneMigration .start acts ↔ jobsSystem.Along KeepsApart .start acts :=
  jobsSystem.throughout_iff (P := JobsInv) (fun h hstep => h.step hstep)
    (fun hinv h hstep => oneMigration_step hinv h hstep) .start .start hrun

end

def twoJobs : List JobsAction := [.create 1 0 examplePlan, .create 2 0 examplePlan]

/-- Each request looks for another running job before the other one has set its
status. -/
def startedTogether : List JobsAction :=
  twoJobs ++ [.beginActivate 0 1 .start, .beginActivate 1 2 .start, .assertNoOtherActive 0,
    .assertNoOtherActive 1, .transition 0, .transition 1]

theorem two_migrations : ¬ ∀ (acts : List JobsAction) (t : JobsState),
    jobsSystem.run .start acts = some t → jobsSystem.Throughout OneMigration .start acts := by
  intro h
  have hrun : (jobsSystem.run .start startedTogether).map
      (fun t => t.jobs.map fun e => (e.id, e.status)) = some [(1, .running), (2, .running)] := by
    decide
  obtain ⟨t, ht, hend⟩ := Option.map_eq_some_iff.mp hrun
  have hone := (jobsSystem.throughout_end (h startedTogether t ht) ht).one
  have hfirst : ((1 : Uuid), BackfillJobStatus.running) ∈ t.jobs.map fun e => (e.id, e.status) := by
    rw [hend]
    exact List.mem_cons_self
  have hsecond : ((2 : Uuid), BackfillJobStatus.running) ∈ t.jobs.map fun e => (e.id, e.status) := by
    rw [hend]
    exact List.mem_cons_of_mem _ List.mem_cons_self
  obtain ⟨e, he, hes⟩ := List.mem_map.mp hfirst
  obtain ⟨e', he', hes'⟩ := List.mem_map.mp hsecond
  rw [Prod.mk.injEq] at hes hes'
  have hsame := hone e he e' he' hes.2 hes'.2
  rw [hes.1, hes'.1] at hsame
  exact absurd hsame (by decide)

/-- The first job is paused before the second one is started. -/
def startedInTurn : List JobsAction :=
  twoJobs ++ [.beginActivate 0 1 .start, .assertNoOtherActive 0, .transition 0, .pause 1,
    .beginActivate 1 2 .start, .assertNoOtherActive 1, .transition 1, .cancel 2]

theorem one_migration_in_turn : jobsSystem.Throughout OneMigration .start startedInTurn := by
  have hrun : (jobsSystem.run .start startedInTurn).isSome = true := by decide
  obtain ⟨t, ht⟩ := Option.isSome_iff_exists.mp hrun
  exact (one_migration_iff startedInTurn ht).mpr (by decide)

/-- A job that was cancelled between the count of `retryFailed` and its update
runs again. -/
def cancelledWhileRetrying : List JobsAction :=
  [.create 1 0 examplePlan, .beginActivate 0 1 .start, .assertNoOtherActive 0, .transition 0] ++
    failedRound.tail.map (.work 1) ++ [.beginRetry 1 1, .countFailed 1, .cancel 1, .retryFailed 1]

example : (jobsSystem.run .start cancelledWhileRetrying).map (fun t => t.jobs.map JobEntry.status) =
    some [.running] := by decide

end Cadena.Connectors.Backfill
