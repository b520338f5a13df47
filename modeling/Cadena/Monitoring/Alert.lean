import Cadena.Monitoring.Mitigation
import Cadena.WorkItems.WorkflowVersions

/-!
# Handling alerts

What the monitoring integration does with one delivery: `alert_fired` records
the alert and opens or updates its incident, `alert_resolved` proposes the
mitigation of it. The handlers read at their start, since deliveries are
handled one at a time, and answer with the statements that they make, in order.
-/

namespace Cadena.Monitoring

open Cadena.Base Cadena.Connectors Cadena.WorkItems

def severityAliases : List (String × WorkItemSeverity) :=
  [("sev1", .sev1), ("s1", .sev1), ("p1", .sev1), ("1", .sev1), ("critical", .sev1),
    ("crit", .sev1), ("fatal", .sev1), ("emergency", .sev1), ("disaster", .sev1), ("page", .sev1),
    ("sev2", .sev2), ("s2", .sev2), ("p2", .sev2), ("2", .sev2), ("error", .sev2), ("high", .sev2),
    ("major", .sev2), ("severe", .sev2), ("alert", .sev2),
    ("sev3", .sev3), ("s3", .sev3), ("p3", .sev3), ("3", .sev3), ("warning", .sev3),
    ("warn", .sev3), ("medium", .sev3), ("moderate", .sev3), ("degraded", .sev3),
    ("sev4", .sev4), ("s4", .sev4), ("p4", .sev4), ("4", .sev4), ("info", .sev4),
    ("informational", .sev4), ("low", .sev4), ("minor", .sev4), ("notice", .sev4), ("ok", .sev4)]

def defaultSeverity : WorkItemSeverity := .sev3

def severityPriority : WorkItemSeverity → WorkItemPriority
  | .sev1 => .p0
  | .sev2 => .p1
  | .sev3 => .p2
  | .sev4 => .p3

def severityRank : WorkItemSeverity → Nat
  | .sev1 => 0
  | .sev2 => 1
  | .sev3 => 2
  | .sev4 => 3

def severityText : WorkItemSeverity → String
  | .sev1 => "SEV1"
  | .sev2 => "SEV2"
  | .sev3 => "SEV3"
  | .sev4 => "SEV4"

structure SeverityMapping where
  providerValue : Option String
  mapped : WorkItemSeverity
  priority : WorkItemPriority
  matched : Bool
  deriving DecidableEq

def mapSeverity (P : Platform) (value : Option String) : SeverityMapping :=
  let providerValue := (value.map trimString).filter (· != "")
  let mapped := providerValue.bind fun v => severityAliases.lookup (P.toLowerCase v)
  let severity := mapped.getD defaultSeverity
  ⟨providerValue, severity, severityPriority severity, mapped.isSome⟩

/-- `MonitoringAlertPayload`; the times are those that the texts stand for. -/
structure MonitoringAlert where
  id : String
  dedupeKey : Option String
  title : String
  description : Option String
  severity : Option String
  url : Option String
  runbookUrl : Option String
  monitorName : Option String
  environment : Option String
  triggeredAt : Option Millis
  resolvedAt : Option Millis
  deriving DecidableEq

inductive MonitoringEventType where
  | alertFired | alertResolved
  deriving DecidableEq

structure MonitoringDelivery where
  provider : String
  deliveryId : String
  eventType : MonitoringEventType
  alert : MonitoringAlert
  deriving DecidableEq

/-- The provider and the dedupe key, by which an alert artifact is found. -/
abbrev AlertKey := String × String

def resolveDedupeKey (P : Platform) (alert : MonitoringAlert) : String :=
  P.toLowerCase (orText (alert.dedupeKey.map trimString) (trimString alert.id))

def MonitoringDelivery.key (P : Platform) (d : MonitoringDelivery) : AlertKey :=
  (d.provider, resolveDedupeKey P d.alert)

/-- The payload of an alert artifact. `alert` stands for what it copies from the
alert without reading it again. -/
structure AlertPayload where
  alert : MonitoringAlert
  dedupeKey : String
  severity : SeverityMapping
  occurrences : Nat
  firstSeen : Millis
  lastSeen : Millis
  resolvedAt : Option Millis
  currentIncidentId : Option Uuid
  currentIncidentKey : Option String
  lastDeliveryId : String

/-- A row of `external_artifacts` for an alert. -/
structure AlertArtifact where
  title : String
  url : Option String
  status : String
  payload : AlertPayload

/-- The rows of one tenant, each by its key. -/
structure AlertDb where
  artifact : AlertKey → Option AlertArtifact
  item : Uuid → Option WorkItem
  artifactLinks : List (AlertKey × Uuid)
  serviceLinks : List (Uuid × Uuid)
  events : List String

/-- A statement that the handling of a delivery makes. -/
inductive AlertWrite where
  | insertItem (item : WorkItem)
  | setItem (item : WorkItem)
  | upsertArtifact (key : AlertKey) (artifact : AlertArtifact)
  | linkArtifact (key : AlertKey) (itemId : Uuid)
  | linkService (itemId serviceId : Uuid)
  | publish (eventType : String)

def AlertWrite.apply (db : AlertDb) : AlertWrite → AlertDb
  | .insertItem item | .setItem item => { db with item := setAt db.item item.id (some item) }
  | .upsertArtifact key artifact => { db with artifact := setAt db.artifact key (some artifact) }
  | .linkArtifact key itemId =>
    if db.artifactLinks.contains (key, itemId) then db
    else { db with artifactLinks := db.artifactLinks ++ [(key, itemId)] }
  | .linkService itemId serviceId =>
    if db.serviceLinks.contains (itemId, serviceId) then db
    else { db with serviceLinks := db.serviceLinks ++ [(itemId, serviceId)] }
  | .publish eventType => { db with events := db.events ++ [eventType] }

def applyWrites (db : AlertDb) (writes : List AlertWrite) : AlertDb := writes.foldl AlertWrite.apply db

inductive MonitoringOutcome where
  | incidentCreated | incidentDeduplicated | mitigationProposed | suppressedBelowThreshold
  | noLinkedIncident
  deriving DecidableEq

structure IncidentSummary where
  id : Uuid
  key : String
  status : String
  severity : Option WorkItemSeverity
  priority : WorkItemPriority
  created : Bool
  deriving DecidableEq

structure MonitoringResult where
  outcome : MonitoringOutcome
  reason : Option String
  dedupeKey : String
  occurrences : Nat
  severity : SeverityMapping
  incident : Option IncidentSummary
  transitions : List TransitionResult
  deriving DecidableEq

/-- The statements of a handler and the result that it returns. -/
structure Handling where
  writes : List AlertWrite
  result : MonitoringResult

inductive AlertError where
  | noOwningTeam
  | invalidCustomFields (errors : List String)
  | duplicateItem
  deriving DecidableEq

structure MonitoringSettings where
  minSeverity : WorkItemSeverity
  dedupeWindowMinutes : Nat
  defaultTeamId : Option Uuid
  automationActorRole : String

/-- What the handlers read and do not write. `pick` is the choice of the
database among workflow rows of one version. -/
structure MonitoringTenant where
  platform : Platform
  orgId : Uuid
  settings : MonitoringSettings
  workflows : List WorkflowRow
  pick : Nat
  policies : List SlaPolicy

structure AffectedService where
  id : Uuid
  serviceKey : String
  ownerTeamId : Option Uuid
  environment : Option String

/-- What one handling meets: the clock, the answers of the service registry and
of the schema of incidents, and the id drawn for an incident. -/
structure AlertContext where
  now : Millis
  service : Option AffectedService
  schemaErrors : List String
  newId : Uuid

def incidentSettledStates : List String := ["Mitigated", "Resolved", "Closed", "Post-incident Review"]

def settled (incident : WorkItem) : Bool := incidentSettledStates.contains incident.status

section
variable (T : MonitoringTenant)

/-- The time lies further after the last occurrence than the window allows. -/
def outsideWindow (lastSeen alertTime : Millis) : Bool :=
  decide (T.settings.dedupeWindowMinutes * msPerMinute < alertTime - lastSeen)

/-- The incident that a repeated alert updates. -/
def findDedupeTarget (db : AlertDb) (prior : Option AlertPayload) (alertTime : Millis) :
    Option WorkItem :=
  prior.bind fun payload =>
    payload.currentIncidentId.bind fun id =>
      if outsideWindow T payload.lastSeen alertTime then none
      else (db.item id).filter (!settled ·)

def belowThreshold (severity : SeverityMapping) : Bool :=
  decide (severityRank T.settings.minSeverity < severityRank severity.mapped)

/-! ## Alert fired -/

/-- `writeAlertArtifact`. -/
def alertArtifact (d : MonitoringDelivery) (severity : SeverityMapping) (status : String)
    (occurrences : Nat) (firstSeen lastSeen : Millis) (resolvedAt : Option Millis)
    (currentIncidentId : Option Uuid) (currentIncidentKey : Option String) : AlertArtifact where
  title := trimString d.alert.title
  url := d.alert.url
  status := status
  payload :=
    { alert := d.alert
      dedupeKey := (d.key T.platform).2
      severity := severity
      occurrences := occurrences
      firstSeen := firstSeen
      lastSeen := lastSeen
      resolvedAt := resolvedAt
      currentIncidentId := currentIncidentId
      currentIncidentKey := currentIncidentKey
      lastDeliveryId := d.deliveryId }

/-- `escalateSeverity`: the row and the severity if it is raised. -/
def escalateSeverity (incident : WorkItem) (severity : SeverityMapping) :
    Option (WorkItem × WorkItemSeverity) :=
  if incident.source.isSome then none
  else if incident.severity.any fun existing =>
      decide (severityRank existing ≤ severityRank severity.mapped) then none
  else
    some ({ incident with severity := some severity.mapped, priority := severity.priority },
      severity.mapped)

def optionalText (value : Option String) : Json :=
  match value.filter (· != "") with
  | some s => .str s
  | none => .null

/-- What `createWorkItem` is asked to create. -/
def newIncident (d : MonitoringDelivery) (severity : SeverityMapping) (alertTime : Millis)
    (teamId : Uuid) (ctx : AlertContext) : NewWorkItem where
  id := ctx.newId
  orgId := T.orgId
  type := .incident
  title := trimString d.alert.title
  description :=
    orText (d.alert.description.map trimString)
      ("Auto-created from " ++ d.provider ++ " alert " ++
        quoted (orText d.alert.monitorName d.alert.id) ++ ".")
  priority := severity.priority
  severity := some severity.mapped
  ownerId := none
  teamId := teamId
  customFields :=
    [("alert_source", .str d.provider), ("alert_dedupe_key", .str (d.key T.platform).2),
      ("alert_external_id", .str d.alert.id), ("monitor_name", optionalText d.alert.monitorName),
      ("alert_url", optionalText d.alert.url), ("runbook_url", optionalText d.alert.runbookUrl),
      ("environment",
        optionalText ((d.alert.environment.filter (· != "")).or (ctx.service.bind (·.environment)))),
      ("provider_severity", optionalText severity.providerValue),
      ("detected_at", .str (toISOString alertTime))]
  tags := ["auto-created", "provider:" ++ d.provider]
  now := ctx.now

/-- The row that a lookup of the newest version governs. -/
def createIncident (db : AlertDb) (dto : NewWorkItem) (ctx : AlertContext) : Except AlertError WorkItem :=
  if ctx.schemaErrors ≠ [] then .error (.invalidCustomFields ctx.schemaErrors)
  else if (db.item dto.id).isSome then .error .duplicateItem
  else .ok (createdItem dto (getWorkflowDefinition T.workflows T.pick dto.type.text none))

/-- The alert as the fired handler reads it. -/
structure FiredAlert where
  severity : SeverityMapping
  alertTime : Millis
  occurrences : Nat
  firstSeen : Millis
  target : Option WorkItem

def readFired (db : AlertDb) (d : MonitoringDelivery) (ctx : AlertContext) : FiredAlert :=
  let prior := (db.artifact (d.key T.platform)).map (·.payload)
  let alertTime := d.alert.triggeredAt.getD ctx.now
  { severity := mapSeverity T.platform d.alert.severity
    alertTime := alertTime
    occurrences := (prior.map (·.occurrences)).getD 0 + 1
    firstSeen := (prior.map (·.firstSeen)).getD alertTime
    target := findDedupeTarget T db prior alertTime }

/-- The statement that records the alert, pointing to the incident. -/
def recordFired (d : MonitoringDelivery) (fired : FiredAlert) (status : String)
    (incident : Option WorkItem) : AlertWrite :=
  .upsertArtifact (d.key T.platform)
    (alertArtifact T d fired.severity status fired.occurrences fired.firstSeen fired.alertTime none
      (incident.map (·.id)) (incident.map (·.itemKey)))

def linkWrites (d : MonitoringDelivery) (incident : WorkItem) (ctx : AlertContext) : List AlertWrite :=
  .linkArtifact (d.key T.platform) incident.id ::
    (ctx.service.toList.map fun service => .linkService incident.id service.id)

def suppressAlert (d : MonitoringDelivery) (fired : FiredAlert) : Handling where
  writes := [recordFired T d fired "suppressed" none]
  result :=
    { outcome := .suppressedBelowThreshold
      reason := some ("Alert severity " ++ severityText fired.severity.mapped ++
        " is below the configured " ++ severityText T.settings.minSeverity ++ " threshold for this tenant")
      dedupeKey := (d.key T.platform).2
      occurrences := fired.occurrences
      severity := fired.severity
      incident := none
      transitions := [] }

def deduplicateAlert (d : MonitoringDelivery) (fired : FiredAlert) (incident : WorkItem)
    (ctx : AlertContext) : Handling :=
  let escalated := escalateSeverity incident fired.severity
  { writes :=
      recordFired T d fired "firing" (some incident) :: linkWrites T d incident ctx ++
        (escalated.toList.map fun e => .setItem e.1) ++ [.publish "MonitoringAlertDeduplicated"]
    result :=
      { outcome := .incidentDeduplicated
        reason := some ("Alert recurred within the " ++ toString T.settings.dedupeWindowMinutes ++
          "-minute dedupe window for " ++ incident.itemKey)
        dedupeKey := (d.key T.platform).2
        occurrences := fired.occurrences
        severity := fired.severity
        incident := some
          { id := incident.id
            key := incident.itemKey
            status := incident.status
            severity := (escalated.map (·.2)).or incident.severity
            priority := severityPriority ((escalated.map (·.2)).getD fired.severity.mapped)
            created := false }
        transitions := [] } }

def openIncident (d : MonitoringDelivery) (fired : FiredAlert) (incident : WorkItem)
    (ctx : AlertContext) : Handling where
  writes :=
    .insertItem incident :: recordFired T d fired "firing" (some incident) ::
      linkWrites T d incident ctx ++ [.publish "IncidentAutoCreated"]
  result :=
    { outcome := .incidentCreated
      reason := none
      dedupeKey := (d.key T.platform).2
      occurrences := fired.occurrences
      severity := fired.severity
      incident := some
        { id := incident.id
          key := incident.itemKey
          status := incident.status
          severity := incident.severity
          priority := incident.priority
          created := true }
      transitions := [] }

def handleAlertFired (db : AlertDb) (d : MonitoringDelivery) (ctx : AlertContext) :
    Except AlertError Handling :=
  let fired := readFired T db d ctx
  match fired.target with
  | some incident => .ok (deduplicateAlert T d fired incident ctx)
  | none =>
    if belowThreshold T fired.severity then .ok (suppressAlert T d fired)
    else
      match (ctx.service.bind (·.ownerTeamId)).or T.settings.defaultTeamId with
      | none => .error .noOwningTeam
      | some teamId =>
        (createIncident T db (newIncident T d fired.severity fired.alertTime teamId ctx) ctx).map
          fun incident => openIncident T d fired incident ctx

/-! ## Alert resolved -/

def turnWrites (walk : AutomationWalk) (turn : WalkTurn) : List AlertWrite :=
  if turn.made.isSome then [.setItem turn.item]
  else if walk.request.isSome then [.publish "MonitoringAutoTransitionSkipped"]
  else []

/-- The turns of a walk that nobody interferes with, until its path is used
up. -/
def walkWrites (wf : Option PublishedWorkflow) (policies : List SlaPolicy) (now : Millis) :
    Nat → AutomationWalk → WorkItem → List AlertWrite × AutomationWalk × WorkItem
  | 0, walk, item => ([], walk, item)
  | n + 1, walk, item =>
    let turn := walkStep walk item wf policies now
    let rest := walkWrites wf policies now n turn.walk turn.item
    (turnWrites walk turn ++ rest.1, rest.2)

def proposeMitigation (d : MonitoringDelivery) (incident : WorkItem) (resolvedAt now : Millis) :
    List AlertWrite × AutomationWalk × WorkItem :=
  let wf := getWorkflowDefinition T.workflows T.pick incident.type.text (some incident.workflowVersion)
  let walk := beginWalk incident wf T.settings.automationActorRole
    (mitigationSummary d.provider (orText d.alert.monitorName d.alert.title) resolvedAt)
  walkWrites wf T.policies now walk.path.length walk incident

/-- `Number(priorPayload.occurrences || 1)`. -/
def priorOccurrences (prior : Option AlertPayload) : Nat :=
  let occurrences := (prior.map (·.occurrences)).getD 0
  if occurrences = 0 then 1 else occurrences

/-- The statement that records the resolution: the incident and the last
occurrence stay as they are. -/
def recordResolved (prior : Option AlertPayload) (d : MonitoringDelivery) (severity : SeverityMapping)
    (resolvedAt : Millis) : AlertWrite :=
  .upsertArtifact (d.key T.platform)
    (alertArtifact T d { severity with mapped := (prior.map (·.severity.mapped)).getD severity.mapped }
      "resolved" (priorOccurrences prior) ((prior.map (·.firstSeen)).getD resolvedAt)
      ((prior.map (·.lastSeen)).getD resolvedAt) (some resolvedAt)
      (prior.bind (·.currentIncidentId)) (prior.bind (·.currentIncidentKey)))

def handleAlertResolved (db : AlertDb) (d : MonitoringDelivery) (ctx : AlertContext) : Handling :=
  let severity := mapSeverity T.platform d.alert.severity
  let resolvedAt := d.alert.resolvedAt.getD ctx.now
  let prior := (db.artifact (d.key T.platform)).map (·.payload)
  let record := recordResolved T prior d severity resolvedAt
  let result : MonitoringResult :=
    { outcome := .noLinkedIncident
      reason := some ("No open Incident is linked to alert " ++ quoted (d.key T.platform).2 ++
        " in this tenant; the resolution was recorded as evidence only")
      dedupeKey := (d.key T.platform).2
      occurrences := priorOccurrences prior
      severity := severity
      incident := none
      transitions := [] }
  match (prior.bind (·.currentIncidentId)).bind db.item with
  | none => ⟨[record], result⟩
  | some incident =>
    let (writes, walk, moved) := proposeMitigation T d incident resolvedAt ctx.now
    let applied := walk.results.any (·.reason.isNone)
    { writes :=
        [record, .linkArtifact (d.key T.platform) incident.id] ++ writes ++
          [.publish "IncidentMitigationProposed"]
      result :=
        { result with
          outcome := .mitigationProposed
          reason := some
            (if applied then
              incident.itemKey ++ " moved to " ++ proposedState ++
                "; resolution and closure still require human confirmation"
            else
              incident.itemKey ++ " was left in " ++ incident.status ++ "; the proposed move to " ++
                proposedState ++ " was not applied")
          incident := some
            { id := incident.id
              key := incident.itemKey
              status := moved.status
              severity := moved.severity
              priority := severityPriority severity.mapped
              created := false }
          transitions := walk.results } }

def handleDelivery (db : AlertDb) (d : MonitoringDelivery) (ctx : AlertContext) :
    Except AlertError Handling :=
  match d.eventType with
  | .alertFired => handleAlertFired T db d ctx
  | .alertResolved => .ok (handleAlertResolved T db d ctx)

end

/-! ## What a handling records -/

def AlertWrite.recordsNothing : AlertWrite → Bool
  | .upsertArtifact .. => false
  | _ => true

theorem AlertWrite.apply_artifact {w : AlertWrite} (h : w.recordsNothing = true) (db : AlertDb) :
    (w.apply db).artifact = db.artifact := by
  cases w with
  | insertItem | setItem | publish => rfl
  | upsertArtifact => cases h
  | linkArtifact | linkService =>
    simp only [apply]
    split <;> rfl

theorem applyWrites_artifact {writes : List AlertWrite} (h : ∀ w ∈ writes, w.recordsNothing = true)
    (db : AlertDb) : (applyWrites db writes).artifact = db.artifact := by
  induction writes generalizing db with
  | nil => rfl
  | cons w writes ih =>
    refine (ih (fun v hv => h v (List.mem_cons_of_mem w hv)) (w.apply db)).trans ?_
    exact AlertWrite.apply_artifact (h w List.mem_cons_self) db

theorem applyWrites_cons_artifact {w : AlertWrite} {writes : List AlertWrite}
    (h : ∀ v ∈ writes, v.recordsNothing = true) (db : AlertDb) :
    (applyWrites db (w :: writes)).artifact = (w.apply db).artifact :=
  applyWrites_artifact h (w.apply db)

/-- Every row is found by its own id. -/
def AlertDb.RowsKeyed (db : AlertDb) : Prop := ∀ id row, db.item id = some row → row.id = id

theorem rowsKeyed_set {item : Uuid → Option WorkItem} (h : ∀ id row, item id = some row → row.id = id)
    {id : Uuid} {value : Option WorkItem} (hvalue : ∀ row ∈ value, row.id = id) :
    ∀ id' row, setAt item id value id' = some row → row.id = id' := by
  intro id' row hrow
  by_cases hid : id' = id
  · subst hid
    rw [setAt_same] at hrow
    exact hvalue row hrow
  · rw [setAt_other _ _ hid] at hrow
    exact h id' row hrow

theorem AlertDb.RowsKeyed.applyWrites {db : AlertDb} (h : db.RowsKeyed) (writes : List AlertWrite) :
    (applyWrites db writes).RowsKeyed := by
  induction writes generalizing db with
  | nil => exact h
  | cons w writes ih =>
    refine @ih (w.apply db) ?_
    cases w with
    | insertItem item | setItem item =>
      exact rowsKeyed_set h fun row hrow => congrArg WorkItem.id (Option.some.inj hrow).symm
    | upsertArtifact | publish => exact h
    | linkArtifact | linkService =>
      simp only [AlertWrite.apply]
      split <;> exact h

theorem applyWrites_append (db : AlertDb) (before after : List AlertWrite) :
    applyWrites db (before ++ after) = applyWrites (applyWrites db before) after :=
  List.foldl_append

section
variable {T : MonitoringTenant} {db : AlertDb} {d : MonitoringDelivery} {ctx : AlertContext}

theorem linkWrites_recordsNothing (incident : WorkItem) :
    ∀ w ∈ linkWrites T d incident ctx, w.recordsNothing = true := by
  intro w hw
  rcases List.mem_cons.mp hw with rfl | hw
  · rfl
  · obtain ⟨service, -, rfl⟩ := List.mem_map.mp hw
    rfl

theorem walkWrites_recordsNothing (wf : Option PublishedWorkflow) (policies : List SlaPolicy)
    (now : Millis) (n : Nat) (walk : AutomationWalk) (item : WorkItem) :
    ∀ w ∈ (walkWrites wf policies now n walk item).1, w.recordsNothing = true := by
  induction n generalizing walk item with
  | zero => exact fun w hw => absurd hw List.not_mem_nil
  | succ n ih =>
    intro w hw
    rcases List.mem_append.mp hw with hw | hw
    · unfold turnWrites at hw
      split at hw
      · rw [List.mem_singleton.mp hw]
        rfl
      · split at hw
        · rw [List.mem_singleton.mp hw]
          rfl
        · exact absurd hw List.not_mem_nil
    · exact ih _ _ w hw

theorem handleAlertFired_cases {handling : Handling} (h : handleAlertFired T db d ctx = .ok handling) :
    (∃ incident, (readFired T db d ctx).target = some incident ∧
        handling = deduplicateAlert T d (readFired T db d ctx) incident ctx) ∨
      ((readFired T db d ctx).target = none ∧
        belowThreshold T (readFired T db d ctx).severity = true ∧
        handling = suppressAlert T d (readFired T db d ctx)) ∨
      ((readFired T db d ctx).target = none ∧
        belowThreshold T (readFired T db d ctx).severity = false ∧
        ∃ teamId incident, createIncident T db (newIncident T d (readFired T db d ctx).severity
            (readFired T db d ctx).alertTime teamId ctx) ctx = .ok incident ∧
          handling = openIncident T d (readFired T db d ctx) incident ctx) := by
  unfold handleAlertFired at h
  dsimp only at h
  split at h
  · rename_i incident htarget
    exact .inl ⟨incident, htarget, (Except.ok.inj h).symm⟩
  · rename_i htarget
    split at h
    · rename_i hbelow
      exact .inr (.inl ⟨htarget, hbelow, (Except.ok.inj h).symm⟩)
    · rename_i hbelow
      split at h
      · cases h
      · rename_i teamId hteam
        refine .inr (.inr ⟨htarget, Bool.not_eq_true _ ▸ hbelow, teamId, ?_⟩)
        cases hcreate : createIncident T db (newIncident T d (readFired T db d ctx).severity
            (readFired T db d ctx).alertTime teamId ctx) ctx with
        | error e => rw [hcreate] at h; cases h
        | ok incident =>
          rw [hcreate] at h
          exact ⟨incident, rfl, (Except.ok.inj h).symm⟩

theorem createIncident_ok {dto : NewWorkItem} {incident : WorkItem}
    (h : createIncident T db dto ctx = .ok incident) :
    db.item dto.id = none ∧
      incident = createdItem dto (getWorkflowDefinition T.workflows T.pick dto.type.text none) := by
  unfold createIncident at h
  split at h
  · cases h
  · split at h
    · cases h
    · rename_i hnew
      exact ⟨by simpa using hnew, (Except.ok.inj h).symm⟩

theorem deduplicateAlert_artifact (fired : FiredAlert) (incident : WorkItem) :
    (applyWrites db (deduplicateAlert T d fired incident ctx).writes).artifact =
      ((recordFired T d fired "firing" (some incident)).apply db).artifact := by
  refine @applyWrites_cons_artifact (recordFired T d fired "firing" (some incident))
    (linkWrites T d incident ctx ++ ((escalateSeverity incident fired.severity).toList.map fun e => .setItem e.1) ++
      [.publish "MonitoringAlertDeduplicated"]) (fun w hw => ?_) db
  rcases List.mem_append.mp hw with hw | hw
  · rcases List.mem_append.mp hw with hw | hw
    · exact linkWrites_recordsNothing incident w hw
    · obtain ⟨e, -, rfl⟩ := List.mem_map.mp hw
      rfl
  · rw [List.mem_singleton.mp hw]
    rfl

theorem openIncident_artifact (fired : FiredAlert) (incident : WorkItem) :
    (applyWrites db (openIncident T d fired incident ctx).writes).artifact =
      ((recordFired T d fired "firing" (some incident)).apply db).artifact := by
  refine @applyWrites_cons_artifact (recordFired T d fired "firing" (some incident))
    (linkWrites T d incident ctx ++ [.publish "IncidentAutoCreated"]) (fun w hw => ?_)
    ((AlertWrite.insertItem incident).apply db)
  rcases List.mem_append.mp hw with hw | hw
  · exact linkWrites_recordsNothing incident w hw
  · rw [List.mem_singleton.mp hw]
    rfl

theorem handleAlertResolved_artifact :
    (applyWrites db (handleAlertResolved T db d ctx).writes).artifact =
      ((recordResolved T ((db.artifact (d.key T.platform)).map (·.payload)) d
        (mapSeverity T.platform d.alert.severity) (d.alert.resolvedAt.getD ctx.now)).apply db).artifact := by
  unfold handleAlertResolved
  dsimp only
  split
  · rfl
  · refine applyWrites_cons_artifact (fun w hw => ?_) db
    rcases List.mem_append.mp hw with hw | hw
    · rcases List.mem_cons.mp hw with rfl | hw
      · rfl
      · exact walkWrites_recordsNothing _ _ _ _ _ _ w hw
    · rw [List.mem_singleton.mp hw]
      rfl

end

end Cadena.Monitoring
