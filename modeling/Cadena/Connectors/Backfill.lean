import Cadena.Base.Table
import Cadena.Base.Transition
import Cadena.Connectors.Types

/-!
# Backfill jobs

One job of `integration_backfill_jobs` with its chunks, the workers that
claim it and the operators that start, pause, resume, cancel and retry it:
`BackfillRunnerService` and the lifecycle of `BackfillService`. A worker runs
`execute` once for each claim, and one statement of it is one step; a page
is committed in a transaction whose lease check and last update are two
statements.

The lease owner is drawn anew for each claim, so the number of the execution
stands for it. The limiter decides how many chunks a round takes and when a
request starts, and the provider and the ingestion queue what comes back:
these are given with the steps.
-/

namespace Cadena.Connectors.Backfill

open Cadena.Base

/-! ## Rows -/

inductive BackfillJobStatus where
  | pending | running | paused | completed | completedWithErrors | cancelled
  deriving DecidableEq

structure BackfillJob where
  status : BackfillJobStatus
  leaseOwner : Option Nat
  leaseExpiresAt : Option Millis

inductive BackfillChunkStatus where
  | pending | running | done | failed
  deriving DecidableEq

/-- A row of `integration_backfill_chunks`. -/
structure BackfillChunk where
  id : Uuid
  seq : Nat
  windowStart : Millis
  windowEnd : Millis
  status : BackfillChunkStatus
  attempts : Nat
  pageToken : Option String
  pages : Nat
  fetched : Nat
  enqueued : Nat
  duplicates : Nat
  lastError : Option String
  nextAttemptAt : Option Millis
  deriving DecidableEq

/-- What a round reads of a chunk. -/
structure ChunkRow where
  id : Uuid
  seq : Nat
  windowStart : Millis
  windowEnd : Millis
  attempts : Nat
  pageToken : Option String

def BackfillChunk.read (c : BackfillChunk) : ChunkRow where
  id := c.id
  seq := c.seq
  windowStart := c.windowStart
  windowEnd := c.windowEnd
  attempts := c.attempts
  pageToken := c.pageToken

/-- What identifies a record of a page. -/
structure RecordKey where
  externalId : String
  updatedAt : String
  deriving DecidableEq

structure BackfillPage where
  records : List RecordKey
  nextPageToken : Option String
  deriving DecidableEq

/-- What the ingestion queue made of a record. -/
inductive RecordOutcome where
  | enqueued | duplicate
  deriving DecidableEq

inductive ChunkError where
  /-- `ConnectorLoadShedError`. -/
  | shed (message : String) (deadline : Millis)
  /-- `ConnectorRemoteError`. -/
  | remote (message : String) (retryable : Bool) (retryAfterMs : Option Nat)
  | other (message : String)

/-! ## The statements on the chunks -/

def jobLeaseMs : Millis := 120000

def maxChunkAttempts : Nat := 5

def maxBackoffMs : Nat := 60000

/-- A missing time, or one that has come. -/
def reached (t : Option Millis) (now : Millis) : Bool :=
  match t with
  | none => true
  | some t => t ≤ now

def BackfillChunk.due (c : BackfillChunk) (now : Millis) : Bool :=
  c.status == .pending && reached c.nextAttemptAt now

/-- `ORDER BY (pages > 0) DESC, seq ASC LIMIT $2`; the rows stand in the order
of their numbers. -/
def dueChunks (chunks : List BackfillChunk) (now : Millis) (limit : Nat) : List ChunkRow :=
  let due := chunks.filter (·.due now)
  ((due.filter (0 < ·.pages) ++ due.filter (·.pages == 0)).take limit).map (·.read)

def resetRunning (chunks : List BackfillChunk) : List BackfillChunk :=
  Table.update (·.status == .running) (fun c => { c with status := .pending }) chunks

def markRunning (ids : List Uuid) (chunks : List BackfillChunk) : List BackfillChunk :=
  Table.update (fun c => ids.contains c.id) (fun c => { c with status := .running }) chunks

/-- A token that is not empty. -/
def hasMore (token : Option String) : Bool :=
  match token with
  | none => false
  | some t => t != ""

def insertedCount (outcomes : List RecordOutcome) : Nat := outcomes.count .enqueued

def BackfillChunk.advance (page : BackfillPage) (outcomes : List RecordOutcome)
    (c : BackfillChunk) : BackfillChunk :=
  { c with
    status := if hasMore page.nextPageToken then .pending else .done
    pageToken := page.nextPageToken
    pages := c.pages + 1
    fetched := c.fetched + page.records.length
    enqueued := c.enqueued + insertedCount outcomes
    duplicates := c.duplicates + (outcomes.length - insertedCount outcomes)
    attempts := 0
    lastError := none
    nextAttemptAt := none }

/-- What `recordChunkFailure` sets, from the chunk as it was read. -/
def BackfillChunk.fail (now : Millis) (chunk : ChunkRow) (error : ChunkError) (c : BackfillChunk) :
    BackfillChunk :=
  let attempts := chunk.attempts + 1
  let backoff (retryAfterMs : Nat) : Millis :=
    min maxBackoffMs (max retryAfterMs (500 * 2 ^ (attempts - 1)))
  match error with
  | .shed message deadline =>
    { c with
      status := .pending
      lastError := some (sliceString ("Deferred: " ++ sliceString message 500) 500)
      nextAttemptAt := some deadline }
  | .remote message true retryAfterMs =>
    if attempts ≥ maxChunkAttempts then
      { c with
        status := .failed, attempts := attempts
        lastError := some (sliceString message 500), nextAttemptAt := none }
    else
      { c with
        status := .pending, attempts := attempts
        lastError := some (sliceString message 500)
        nextAttemptAt := some (now + backoff (retryAfterMs.getD 0)) }
  | .remote message false _ | .other message =>
    { c with
      status := .failed, attempts := attempts
      lastError := some (sliceString message 500), nextAttemptAt := none }

def retryFailed (chunks : List BackfillChunk) : List BackfillChunk :=
  Table.update (·.status == .failed)
    (fun c => { c with
      status := .pending, attempts := 0, nextAttemptAt := none, lastError := none }) chunks

def openChunks (chunks : List BackfillChunk) : Nat :=
  chunks.countP fun c => c.status == .pending || c.status == .running

def failedChunks (chunks : List BackfillChunk) : Nat := chunks.countP (·.status == .failed)

/-! ## The system -/

/-- Where `execute` stands. -/
inductive ExecutionPhase where
  | idle
  | claimed
  /-- The connector is active; chunks that are marked running are reset next. -/
  | resetting
  /-- At the look at the job that begins a round. -/
  | looping
  | extending
  | selecting
  | marking (chunks : List ChunkRow)
  | inRound (chunks : List Uuid)
  | finishing
  | counted (opened failed : Nat)
  | completing (failed : Nat)
  | releasing
  | over

/-- Where the `step` of one chunk stands. -/
inductive StepPhase where
  | fetching (chunk : ChunkRow)
  | fetched (chunk : ChunkRow) (page : BackfillPage)
  /-- The transaction has found the lease held. -/
  | held (chunk : ChunkRow) (page : BackfillPage) (outcomes : List RecordOutcome)
  /-- The transaction was rolled back because the lease is lost. -/
  | lost (chunk : ChunkRow)
  | failing (chunk : ChunkRow) (error : ChunkError)

structure PageCommit where
  chunk : Uuid
  token : Option String
  page : BackfillPage
  outcomes : List RecordOutcome
  deriving DecidableEq

/-- The database, the executions with the steps of their rounds, the calls of
`retryFailed` that have found failed chunks, the execution that claimed the
job last, and the log of the pages that were committed. -/
structure BackfillState where
  now : Millis
  job : BackfillJob
  chunks : List BackfillChunk
  executions : Nat → ExecutionPhase
  steps : Nat → Uuid → Option StepPhase
  retries : Nat
  latest : Option Nat
  commits : List PageCommit

inductive JobCommand where
  | start | resume | pause | cancel

inductive BackfillAction where
  | tick (elapsed : Nat)
  | command (c : JobCommand)
  | checkRetry
  | retryFailed
  | claim (j : Nat)
  | connect (j : Nat) (active : Bool)
  | reset (j : Nat)
  | look (j : Nat)
  | extend (j : Nat)
  | select (j : Nat) (limit : Nat) (outOfTime : Bool)
  | mark (j : Nat)
  | fetch (j : Nat) (chunk : Uuid) (page : BackfillPage)
  | fetchFailed (j : Nat) (chunk : Uuid) (error : ChunkError)
  | hold (j : Nat) (chunk : Uuid) (outcomes : List RecordOutcome)
  | commitFailed (j : Nat) (chunk : Uuid) (error : ChunkError)
  | commit (j : Nat) (chunk : Uuid)
  | cleanup (j : Nat) (chunk : Uuid)
  | recordFailure (j : Nat) (chunk : Uuid)
  | endRound (j : Nat) (outOfTime : Bool)
  | count (j : Nat)
  | readStatus (j : Nat)
  | complete (j : Nat)
  | release (j : Nat)
  /-- A statement of `execute` or of one of its steps throws. -/
  | abort (j : Nat)
  | crash (j : Nat)

def BackfillState.setExecution (s : BackfillState) (j : Nat) (phase : ExecutionPhase) :
    BackfillState :=
  { s with executions := setAt s.executions j phase }

def BackfillState.setStep (s : BackfillState) (j : Nat) (chunk : Uuid) (step : Option StepPhase) :
    BackfillState :=
  { s with steps := setAt s.steps j (setAt (s.steps j) chunk step) }

def BackfillState.setJobStatus (s : BackfillState) (status : BackfillJobStatus) : BackfillState :=
  { s with job := { s.job with status := status } }

/-- The update of `transition`: the lease is kept by a job that runs or is
paused. -/
def commandStep (s : BackfillState) : JobCommand → Option BackfillState
  | .start => if s.job.status = .pending then some (s.setJobStatus .running) else none
  | .resume => if s.job.status = .paused then some (s.setJobStatus .running) else none
  | .pause => if s.job.status = .running then some (s.setJobStatus .paused) else none
  | .cancel =>
    if s.job.status = .pending ∨ s.job.status = .running ∨ s.job.status = .paused then
      some { s with job := ⟨.cancelled, none, none⟩ }
    else none

/-- What `retryFailed` asks of the job before its transaction. -/
def checkRetryStep (s : BackfillState) : Option BackfillState :=
  if (s.job.status = .completedWithErrors ∨ s.job.status = .running ∨ s.job.status = .paused) ∧
      failedChunks s.chunks ≠ 0 then
    some { s with retries := s.retries + 1 }
  else none

def retryFailedStep (s : BackfillState) : Option BackfillState :=
  match s.retries with
  | 0 => none
  | n + 1 =>
    some { s with
      retries := n
      chunks := retryFailed s.chunks
      job := { s.job with
        status := if s.job.status = .paused then .paused else .running } }

/-! ## Executions -/

/-- A worker takes a running job whose lease is free. -/
def claimStep (s : BackfillState) (j : Nat) : Option BackfillState :=
  match s.executions j with
  | .idle =>
    if s.job.status = .running ∧ reached s.job.leaseExpiresAt s.now then
      some { s.setExecution j .claimed with
        job := { s.job with leaseOwner := some j, leaseExpiresAt := some (s.now + jobLeaseMs) }
        latest := some j }
    else none
  | _ => none

def connectStep (s : BackfillState) (j : Nat) (active : Bool) : Option BackfillState :=
  match s.executions j with
  | .claimed => some (s.setExecution j (if active then .resetting else .releasing))
  | _ => none

def resetStep (s : BackfillState) (j : Nat) : Option BackfillState :=
  match s.executions j with
  | .resetting => some { s.setExecution j .looping with chunks := resetRunning s.chunks }
  | _ => none

def lookStep (s : BackfillState) (j : Nat) : Option BackfillState :=
  match s.executions j with
  | .looping =>
    if s.job.leaseOwner = some j ∧ s.job.status = .running then some (s.setExecution j .extending)
    else some (s.setExecution j .finishing)
  | _ => none

def extendStep (s : BackfillState) (j : Nat) : Option BackfillState :=
  match s.executions j with
  | .extending =>
    if s.job.leaseOwner = some j then
      some { s.setExecution j .selecting with
        job := { s.job with leaseExpiresAt := some (s.now + jobLeaseMs) } }
    else some (s.setExecution j .selecting)
  | _ => none

/-- With nothing due the worker waits for the earliest retry if that fits. -/
def selectStep (s : BackfillState) (j limit : Nat) (outOfTime : Bool) : Option BackfillState :=
  match s.executions j with
  | .selecting =>
    match dueChunks s.chunks s.now limit with
    | [] =>
      if outOfTime || s.chunks.countP (·.status == .pending) == 0 then
        some (s.setExecution j .finishing)
      else some (s.setExecution j .looping)
    | due => some (s.setExecution j (.marking due))
  | _ => none

def markStep (s : BackfillState) (j : Nat) : Option BackfillState :=
  match s.executions j with
  | .marking due =>
    some { s.setExecution j (.inRound (due.map (·.id))) with
      chunks := markRunning (due.map (·.id)) s.chunks
      steps := setAt s.steps j fun id => (due.find? (·.id == id)).map .fetching }
  | _ => none

def fetchStep (s : BackfillState) (j : Nat) (id : Uuid) (page : BackfillPage) :
    Option BackfillState :=
  match s.steps j id with
  | some (.fetching chunk) => some (s.setStep j id (some (.fetched chunk page)))
  | _ => none

def fetchFailedStep (s : BackfillState) (j : Nat) (id : Uuid) (error : ChunkError) :
    Option BackfillState :=
  match s.steps j id with
  | some (.fetching chunk) => some (s.setStep j id (some (.failing chunk error)))
  | _ => none

/-- The records are put into the ingestion queue and the lease is checked. -/
def holdStep (s : BackfillState) (j : Nat) (id : Uuid) (outcomes : List RecordOutcome) :
    Option BackfillState :=
  match s.steps j id with
  | some (.fetched chunk page) =>
    if outcomes.length = page.records.length then
      if s.job.leaseOwner = some j ∧ (s.job.status = .running ∨ s.job.status = .paused) then
        some (s.setStep j id (some (.held chunk page outcomes)))
      else some (s.setStep j id (some (.lost chunk)))
    else none
  | _ => none

def commitFailedStep (s : BackfillState) (j : Nat) (id : Uuid) (error : ChunkError) :
    Option BackfillState :=
  match s.steps j id with
  | some (.fetched chunk _) | some (.held chunk _ _) =>
    some (s.setStep j id (some (.failing chunk error)))
  | _ => none

def commitStep (s : BackfillState) (j : Nat) (id : Uuid) : Option BackfillState :=
  match s.steps j id with
  | some (.held chunk page outcomes) =>
    some { s.setStep j id none with
      chunks := Table.update (·.id == chunk.id) (·.advance page outcomes) s.chunks
      commits := s.commits ++ [⟨chunk.id, chunk.pageToken, page, outcomes⟩] }
  | _ => none

/-- The update after a lost lease. -/
def cleanupStep (s : BackfillState) (j : Nat) (id : Uuid) : Option BackfillState :=
  match s.steps j id with
  | some (.lost chunk) =>
    some { s.setStep j id none with
      chunks := Table.update (fun c => c.id == chunk.id && c.status == .running)
        (fun c => { c with status := .pending }) s.chunks }
  | _ => none

def recordChunkFailure (s : BackfillState) (j : Nat) (id : Uuid) : Option BackfillState :=
  match s.steps j id with
  | some (.failing chunk error) =>
    some { s.setStep j id none with
      chunks := Table.update (·.id == chunk.id) (·.fail s.now chunk error) s.chunks }
  | _ => none

def endRoundStep (s : BackfillState) (j : Nat) (outOfTime : Bool) : Option BackfillState :=
  match s.executions j with
  | .inRound ids =>
    if ids.all fun id => (s.steps j id).isNone then
      some (s.setExecution j (if outOfTime then .finishing else .looping))
    else none
  | _ => none

def countStep (s : BackfillState) (j : Nat) : Option BackfillState :=
  match s.executions j with
  | .finishing =>
    some (s.setExecution j (.counted (openChunks s.chunks) (failedChunks s.chunks)))
  | _ => none

def readStatusStep (s : BackfillState) (j : Nat) : Option BackfillState :=
  match s.executions j with
  | .counted opened failed =>
    if s.job.status = .running ∧ opened = 0 then some (s.setExecution j (.completing failed))
    else some (s.setExecution j .releasing)
  | _ => none

def completeStep (s : BackfillState) (j : Nat) : Option BackfillState :=
  match s.executions j with
  | .completing failed =>
    if s.job.leaseOwner = some j ∧ s.job.status = .running then
      some ((s.setExecution j .releasing).setJobStatus
        (if failed > 0 then .completedWithErrors else .completed))
    else some (s.setExecution j .releasing)
  | _ => none

def releaseStep (s : BackfillState) (j : Nat) : Option BackfillState :=
  match s.executions j with
  | .releasing =>
    if s.job.leaseOwner = some j then
      some { s.setExecution j .over with
        job := { s.job with leaseOwner := none, leaseExpiresAt := none } }
    else some (s.setExecution j .over)
  | _ => none

/-- The `finally` of `execute` is next; steps of a round go on by themselves. -/
def abortStep (s : BackfillState) (j : Nat) : Option BackfillState :=
  match s.executions j with
  | .idle | .releasing | .over => none
  | _ => some (s.setExecution j .releasing)

def crashStep (s : BackfillState) (j : Nat) : Option BackfillState :=
  match s.executions j with
  | .idle => none
  | _ => some { s.setExecution j .over with steps := setAt s.steps j fun _ => none }

def backfillStep (s : BackfillState) : BackfillAction → Option BackfillState
  | .tick elapsed => some { s with now := s.now + elapsed }
  | .command c => commandStep s c
  | .checkRetry => checkRetryStep s
  | .retryFailed => retryFailedStep s
  | .claim j => claimStep s j
  | .connect j active => connectStep s j active
  | .reset j => resetStep s j
  | .look j => lookStep s j
  | .extend j => extendStep s j
  | .select j limit outOfTime => selectStep s j limit outOfTime
  | .mark j => markStep s j
  | .fetch j id page => fetchStep s j id page
  | .fetchFailed j id error => fetchFailedStep s j id error
  | .hold j id outcomes => holdStep s j id outcomes
  | .commitFailed j id error => commitFailedStep s j id error
  | .commit j id => commitStep s j id
  | .cleanup j id => cleanupStep s j id
  | .recordFailure j id => recordChunkFailure s j id
  | .endRound j outOfTime => endRoundStep s j outOfTime
  | .count j => countStep s j
  | .readStatus j => readStatusStep s j
  | .complete j => completeStep s j
  | .release j => releaseStep s j
  | .abort j => abortStep s j
  | .crash j => crashStep s j

def backfill : System BackfillState BackfillAction where
  step := backfillStep

/-- The chunks that `create` has planned. -/
structure ChunkPlan where
  ids : List Uuid
  window : Nat → Millis × Millis
  distinct : ids.Nodup

def plannedChunk (plan : ChunkPlan) (seq : Nat) (id : Uuid) : BackfillChunk where
  id := id
  seq := seq
  windowStart := (plan.window seq).1
  windowEnd := (plan.window seq).2
  status := .pending
  attempts := 0
  pageToken := none
  pages := 0
  fetched := 0
  enqueued := 0
  duplicates := 0
  lastError := none
  nextAttemptAt := none

/-- A job that has just been created. -/
def BackfillState.start (now : Millis) (plan : ChunkPlan) : BackfillState where
  now := now
  job := ⟨.pending, none, none⟩
  chunks := plan.ids.mapIdx (plannedChunk plan)
  executions _ := .idle
  steps _ _ := none
  retries := 0
  latest := none
  commits := []

end Cadena.Connectors.Backfill
