import Cadena.Connectors.Types
import Cadena.Base.Transition

/-!
# Pausing a connector

The operations that write the status of a connector: synchronization,
connection tests and schema discovery read the row, talk to the provider and
write the status that follows from what they read; `activate` and `pause` set
it. None of the writes tests the status it replaces.
-/

namespace Cadena.Connectors.Admin

open Cadena.Base

inductive ConnectorStatus where
  | unconfigured | connected | discovering | discovered | active | degraded | error | paused
  deriving DecidableEq

/-- A capability report, with the number of its blocking limitations. -/
structure CapabilityReport where
  blocking : Nat
  deriving DecidableEq

def CapabilityReport.ready (report : CapabilityReport) : Bool := report.blocking = 0

/-- The columns of `integration_connectors` that the operations read and set. -/
structure ConnectorRow where
  status : ConnectorStatus
  activatedAt : Option Millis
  capabilityReport : Option CapabilityReport
  errorMessage : Option String
  consecutiveFailures : Nat
  deriving DecidableEq

/-! ## The statuses that the operations write -/

def setStatus (status : ConnectorStatus) (errorMessage : Option String) (row : ConnectorRow) : ConnectorRow :=
  { row with status := status, errorMessage := errorMessage }

/-- The status after a successful `testConnection`. -/
def testedStatus (connector : ConnectorRow) : ConnectorStatus :=
  if connector.status = .paused then .paused
  else if connector.activatedAt.isSome then .active
  else if connector.capabilityReport.isSome then .discovered
  else .connected

def testConnection (connector : ConnectorRow) (outcome : Except String Unit) (row : ConnectorRow) :
    ConnectorRow :=
  match outcome with
  | .ok _ => setStatus (testedStatus connector) none row
  | .error message => setStatus .error (some message) row

def discoveredStatus (connector : ConnectorRow) (report : CapabilityReport) : ConnectorStatus :=
  if connector.activatedAt.isNone then .discovered
  else if report.ready then .active
  else .degraded

def blockingMessage (report : CapabilityReport) : Option String :=
  if report.ready then none
  else some ("Capability check found " ++ toString report.blocking ++ " blocking limitation(s)")

def discoverSchema (connector : ConnectorRow) (outcome : Except String CapabilityReport) (row : ConnectorRow) :
    ConnectorRow :=
  match outcome with
  | .ok report =>
    { row with
      status := discoveredStatus connector report
      capabilityReport := some report
      errorMessage := blockingMessage report }
  | .error message => setStatus .error (some message) row

def recordPollFailure (message : String) (row : ConnectorRow) : ConnectorRow :=
  { row with
    status := .error
    errorMessage := some (sliceString message 500)
    consecutiveFailures := row.consecutiveFailures + 1 }

/-- What a synchronization has come to: the reason of load shedding, the errors
of records and the failures in the queue. -/
structure SyncOutcome where
  shed : Option String
  recordErrors : List String
  queuedFailures : Nat
  lastError : Option String

def SyncOutcome.status (o : SyncOutcome) : ConnectorStatus :=
  if o.shed.isSome || !o.recordErrors.isEmpty || o.queuedFailures != 0 then .degraded else .active

def SyncOutcome.errorMessage (o : SyncOutcome) : Option String :=
  match o.shed, o.recordErrors with
  | some reason, _ => some (sliceString ("Load shedding: " ++ reason) 500)
  | none, first :: rest =>
    some (sliceString (toString (rest.length + 1) ++ " record(s) failed; first: " ++ first) 500)
  | none, [] =>
    if o.queuedFailures = 0 then none
    else
      some (sliceString (toString o.queuedFailures
        ++ " twin queue record(s) require retry or operator review; latest: "
        ++ orText o.lastError "processing failed") 500)

def syncCompleted (o : SyncOutcome) (row : ConnectorRow) : ConnectorRow :=
  { row with
    status := o.status
    errorMessage := o.errorMessage
    consecutiveFailures := if o.shed.isSome then row.consecutiveFailures else 0 }

def activated (now : Millis) (row : ConnectorRow) : ConnectorRow :=
  { row with
    status := .active
    activatedAt := some (row.activatedAt.getD now)
    errorMessage := none }

/-! ## The system -/

/-- An operation that is under way, with the row it has read. -/
inductive ConnectorRun where
  | testing (connector : ConnectorRow)
  /-- `discoverSchema` before it has set the status `discovering`. -/
  | announcing (connector : ConnectorRow)
  | discovering (connector : ConnectorRow)
  /-- `syncConnector` before it has taken the lease. -/
  | leasing
  | syncing
  | activating
  | pausing

/-- `pauseStands` from the commit of a pause to that of the next `activate`. -/
structure ConnectorState where
  row : ConnectorRow
  syncLease : Option Nat
  runs : Nat → Option ConnectorRun
  pauseStands : Bool

/-- The steps of the operation `r`. -/
inductive ConnectorAction where
  | beginTest (r : Nat)
  | tested (r : Nat) (outcome : Except String Unit)
  | beginDiscovery (r : Nat)
  | announce (r : Nat)
  | discovered (r : Nat) (outcome : Except String CapabilityReport)
  | beginSync (r : Nat)
  | acquireSyncLease (r : Nat)
  | pollFailed (r : Nat) (message : String)
  | synced (r : Nat) (outcome : SyncOutcome)
  | releaseSyncLease (r : Nat)
  | leaseExpired
  | beginActivate (r : Nat) (report : CapabilityReport)
  | activate (r : Nat) (now : Millis)
  | beginPause (r : Nat)
  | pause (r : Nat)
  | stop (r : Nat)

def beginRun (s : ConnectorState) (r : Nat) (run : ConnectorRun) : Option ConnectorState :=
  match s.runs r with
  | none => some { s with runs := setAt s.runs r (some run) }
  | some _ => none

def connectorStep (s : ConnectorState) : ConnectorAction → Option ConnectorState
  | .beginTest r => beginRun s r (.testing s.row)
  | .tested r outcome =>
    match s.runs r with
    | some (.testing connector) =>
      some { s with row := testConnection connector outcome s.row, runs := setAt s.runs r none }
    | _ => none
  | .beginDiscovery r => if s.row.status = .paused then none else beginRun s r (.announcing s.row)
  | .announce r =>
    match s.runs r with
    | some (.announcing connector) =>
      some { s with
        row := setStatus .discovering connector.errorMessage s.row
        runs := setAt s.runs r (some (.discovering connector)) }
    | _ => none
  | .discovered r outcome =>
    match s.runs r with
    | some (.discovering connector) =>
      some { s with row := discoverSchema connector outcome s.row, runs := setAt s.runs r none }
    | _ => none
  | .beginSync r =>
    if s.row.activatedAt.isNone || s.row.status = .paused then none else beginRun s r .leasing
  | .acquireSyncLease r =>
    match s.runs r, s.syncLease with
    | some .leasing, none => some { s with syncLease := some r, runs := setAt s.runs r (some .syncing) }
    | _, _ => none
  | .pollFailed r message =>
    match s.runs r with
    | some .syncing => some { s with row := recordPollFailure message s.row, runs := setAt s.runs r none }
    | _ => none
  | .synced r outcome =>
    match s.runs r with
    | some .syncing => some { s with row := syncCompleted outcome s.row, runs := setAt s.runs r none }
    | _ => none
  | .releaseSyncLease r => if s.syncLease = some r then some { s with syncLease := none } else none
  | .leaseExpired => some { s with syncLease := none }
  | .beginActivate r report =>
    if s.row.capabilityReport.isSome && report.ready then beginRun s r .activating else none
  | .activate r now =>
    match s.runs r with
    | some .activating =>
      some { s with
        row := activated now s.row
        runs := setAt s.runs r none
        pauseStands := false }
    | _ => none
  | .beginPause r => beginRun s r .pausing
  | .pause r =>
    match s.runs r with
    | some .pausing =>
      some { s with
        row := { s.row with status := .paused }
        runs := setAt s.runs r none
        pauseStands := true }
    | _ => none
  | .stop r => some { s with runs := setAt s.runs r none }

def connectorSystem : System ConnectorState ConnectorAction := ⟨connectorStep⟩

def ConnectorState.start (row : ConnectorRow) : ConnectorState := ⟨row, none, fun _ => none, false⟩

def PauseHolds (s : ConnectorState) : Prop := s.pauseStands = true → s.row.status = .paused

/-- The operation has read the connector when it was paused. -/
def readPaused : Option ConnectorRun → Bool
  | some (.testing connector) => connector.status = .paused
  | _ => false

/-- What may be done while a pause stands: of the operations that write a
status, only a connection test that has read the connector paused and that
the provider has answered. -/
def sparesPause (s : ConnectorState) : ConnectorAction → Bool
  | .tested r (.ok _) => readPaused (s.runs r)
  | .tested _ (.error _) => false
  | .announce _ | .discovered .. | .pollFailed .. | .synced .. => false
  | _ => true

def SparesPause (s : ConnectorState) (a : ConnectorAction) : Prop :=
  s.pauseStands = true → sparesPause s a = true

instance (s : ConnectorState) (a : ConnectorAction) : Decidable (SparesPause s a) :=
  inferInstanceAs (Decidable (_ → _))

/-! ## What is written -/

section
variable {s t : ConnectorState} {r : Nat}

@[simp] theorem setStatus_status (status : ConnectorStatus) (message : Option String) (row : ConnectorRow) :
    (setStatus status message row).status = status := rfl

theorem testedStatus_paused {connector : ConnectorRow} :
    testedStatus connector = .paused ↔ connector.status = .paused := by
  unfold testedStatus
  split
  · rename_i h
    exact ⟨fun _ => h, fun _ => rfl⟩
  · rename_i h
    refine ⟨fun hpaused => ?_, fun hpaused => absurd hpaused h⟩
    split at hpaused
    · cases hpaused
    · split at hpaused <;> cases hpaused

theorem testConnection_paused {connector row : ConnectorRow} {outcome : Except String Unit} :
    (testConnection connector outcome row).status = .paused ↔
      outcome = .ok () ∧ connector.status = .paused := by
  cases outcome with
  | ok u => simp [testConnection, testedStatus_paused]
  | error message => simp [testConnection]

theorem discoverSchema_ne_paused (connector row : ConnectorRow) (outcome : Except String CapabilityReport) :
    (discoverSchema connector outcome row).status ≠ .paused := by
  cases outcome with
  | error message => simp [discoverSchema]
  | ok report =>
    simp only [discoverSchema, discoveredStatus]
    split
    · nofun
    · split <;> nofun

theorem syncCompleted_ne_paused (o : SyncOutcome) (row : ConnectorRow) :
    (syncCompleted o row).status ≠ .paused := by
  simp only [syncCompleted, SyncOutcome.status]
  split <;> nofun

theorem beginRun_row {run : ConnectorRun} (h : beginRun s r run = some t) :
    t.row = s.row ∧ t.pauseStands = s.pauseStands := by
  unfold beginRun at h
  split at h
  · obtain rfl := Option.some.inj h
    exact ⟨rfl, rfl⟩
  · cases h

theorem pauseHolds_iff_of_row (hpause : PauseHolds s) (hrow : t.row = s.row ∧ t.pauseStands = s.pauseStands)
    {P : Prop} (hP : P) : PauseHolds t ↔ P := by
  refine ⟨fun _ => hP, fun _ hstands => ?_⟩
  rw [hrow.2] at hstands
  rw [hrow.1]
  exact hpause hstands

theorem pauseHolds_iff_of_write (hstands : t.pauseStands = s.pauseStands) {b : Bool}
    (hwrite : t.row.status = .paused ↔ b = true) : PauseHolds t ↔ (s.pauseStands = true → b = true) := by
  rw [PauseHolds, hstands, hwrite]

/-! ## Steps and runs -/

theorem pauseHolds_step {a : ConnectorAction} (hpause : PauseHolds s) (hstep : connectorStep s a = some t) :
    PauseHolds t ↔ SparesPause s a := by
  cases a with
  | beginTest r => exact pauseHolds_iff_of_row hpause (beginRun_row hstep) fun _ => rfl
  | tested r outcome =>
    simp only [connectorStep] at hstep
    split at hstep
    · rename_i connector hrun
      obtain rfl := Option.some.inj hstep
      refine pauseHolds_iff_of_write rfl (testConnection_paused.trans ?_)
      cases outcome <;> simp [sparesPause, readPaused, hrun]
    · cases hstep
  | beginDiscovery r =>
    simp only [connectorStep] at hstep
    split at hstep
    · cases hstep
    · exact pauseHolds_iff_of_row hpause (beginRun_row hstep) fun _ => rfl
  | announce r =>
    simp only [connectorStep] at hstep
    split at hstep
    · obtain rfl := Option.some.inj hstep
      exact pauseHolds_iff_of_write rfl (by simp [sparesPause])
    · cases hstep
  | discovered r outcome =>
    simp only [connectorStep] at hstep
    split at hstep
    · obtain rfl := Option.some.inj hstep
      exact pauseHolds_iff_of_write rfl (by simp [sparesPause, discoverSchema_ne_paused])
    · cases hstep
  | beginSync r =>
    simp only [connectorStep] at hstep
    split at hstep
    · cases hstep
    · exact pauseHolds_iff_of_row hpause (beginRun_row hstep) fun _ => rfl
  | acquireSyncLease r =>
    simp only [connectorStep] at hstep
    split at hstep
    · obtain rfl := Option.some.inj hstep
      exact pauseHolds_iff_of_row hpause ⟨rfl, rfl⟩ fun _ => rfl
    · cases hstep
  | pollFailed r message =>
    simp only [connectorStep] at hstep
    split at hstep
    · obtain rfl := Option.some.inj hstep
      exact pauseHolds_iff_of_write rfl (by simp [sparesPause, recordPollFailure])
    · cases hstep
  | synced r outcome =>
    simp only [connectorStep] at hstep
    split at hstep
    · obtain rfl := Option.some.inj hstep
      exact pauseHolds_iff_of_write rfl (by simp [sparesPause, syncCompleted_ne_paused])
    · cases hstep
  | releaseSyncLease r =>
    simp only [connectorStep] at hstep
    split at hstep
    · obtain rfl := Option.some.inj hstep
      exact pauseHolds_iff_of_row hpause ⟨rfl, rfl⟩ fun _ => rfl
    · cases hstep
  | leaseExpired =>
    obtain rfl := Option.some.inj hstep
    exact pauseHolds_iff_of_row hpause ⟨rfl, rfl⟩ fun _ => rfl
  | beginActivate r report =>
    simp only [connectorStep] at hstep
    split at hstep
    · exact pauseHolds_iff_of_row hpause (beginRun_row hstep) fun _ => rfl
    · cases hstep
  | activate r now =>
    simp only [connectorStep] at hstep
    split at hstep
    · obtain rfl := Option.some.inj hstep
      exact ⟨fun _ _ => rfl, fun _ => nofun⟩
    · cases hstep
  | beginPause r => exact pauseHolds_iff_of_row hpause (beginRun_row hstep) fun _ => rfl
  | pause r =>
    simp only [connectorStep] at hstep
    split at hstep
    · obtain rfl := Option.some.inj hstep
      exact ⟨fun _ _ => rfl, fun _ _ => rfl⟩
    · cases hstep
  | stop r =>
    obtain rfl := Option.some.inj hstep
    exact pauseHolds_iff_of_row hpause ⟨rfl, rfl⟩ fun _ => rfl

/-- The connector stays paused as long as a pause stands exactly if, in this
time, no operation writes a status but a test that has read it paused and that
the provider has answered. -/
theorem pause_holds_iff (row : ConnectorRow) (acts : List ConnectorAction)
    (hrun : connectorSystem.run (.start row) acts = some t) :
    connectorSystem.Throughout PauseHolds (.start row) acts ↔
      connectorSystem.Along SparesPause (.start row) acts :=
  connectorSystem.throughout_iff (P := fun _ => True) (fun _ _ => trivial)
    (fun _ hpause hstep => pauseHolds_step hpause hstep) trivial nofun hrun

end

def activeConnector : ConnectorRow := ⟨.active, some 0, some ⟨0⟩, none, 0⟩

/-- The pause is committed while a synchronization is under way. -/
def pausedDuringSync : List ConnectorAction :=
  [.beginSync 0, .acquireSyncLease 0, .beginPause 1, .pause 1, .synced 0 ⟨none, [], 0, none⟩]

theorem pause_undone : ¬ ∀ (row : ConnectorRow) (acts : List ConnectorAction) (t : ConnectorState),
    connectorSystem.run (.start row) acts = some t →
      connectorSystem.Throughout PauseHolds (.start row) acts := by
  intro h
  have hrun : (connectorSystem.run (.start activeConnector) pausedDuringSync).map
      (fun t => (t.pauseStands, t.row.status)) = some (true, .active) := by decide
  obtain ⟨t, ht, hend⟩ := Option.map_eq_some_iff.mp hrun
  have hpaused := connectorSystem.throughout_end (h activeConnector pausedDuringSync t ht) ht
  rw [Prod.mk.injEq] at hend
  exact absurd (hend.2.symm.trans (hpaused hend.1)) nofun

/-- A paused connector that is tested and activated again. -/
theorem pause_holds_tested : connectorSystem.Throughout PauseHolds (.start activeConnector)
    [.beginPause 0, .pause 0, .beginTest 1, .tested 1 (.ok ()), .beginActivate 2 ⟨0⟩, .activate 2 1] := by
  have hrun : (connectorSystem.run (.start activeConnector)
      [.beginPause 0, .pause 0, .beginTest 1, .tested 1 (.ok ()), .beginActivate 2 ⟨0⟩, .activate 2 1]).isSome =
      true := by decide
  obtain ⟨t, ht⟩ := Option.isSome_iff_exists.mp hrun
  exact (pause_holds_iff activeConnector _ ht).mpr (by decide)

end Cadena.Connectors.Admin
