import Cadena.Monitoring.Alert

/-!
# An alert and its open incident

Deliveries handled one after the other, while people and other integrations
change work items. A dedupe key keeps its incident by two values of the
artifact's payload: the pointer and the time of the last occurrence. The pointer
is given up by an alert below the threshold that finds no incident to update,
and the time is that of the alert handled last, not the greatest one. The open
incident is kept exactly where neither shows (`remembers`).
-/

namespace Cadena.Monitoring

open Cadena.Base Cadena.Connectors Cadena.WorkItems

/-- What has been delivered for a key: the incident opened last, the times of
the alert handled last and of the latest one, and whether an alert below the
threshold has found nothing to update since the opening. -/
structure KeyHistory where
  opened : Option Uuid
  previous : Option Millis
  latest : Option Millis
  forgotten : Bool

/-- A delivery that has been handled, with the incident that was open for its
key and the latest alert before it. -/
structure HandledAlert where
  eventType : MonitoringEventType
  alertTime : Millis
  openIncident : Option Uuid
  latest : Option Millis
  result : MonitoringResult
  deriving DecidableEq

structure OpenIncidentState where
  db : AlertDb
  history : AlertKey → KeyHistory
  log : List HandledAlert

/-- `store` and `delete` are what others do to work items. -/
inductive OpenIncidentAction where
  | deliver (d : MonitoringDelivery) (ctx : AlertContext)
  | store (row : WorkItem)
  | delete (id : Uuid)

/-- The incident opened last for the key, if it exists and is not settled. -/
def OpenIncidentState.stillOpen (s : OpenIncidentState) (key : AlertKey) : Option Uuid :=
  (s.history key).opened.filter fun id => (s.db.item id).any (!settled ·)

/-- The incident that the handling has opened. -/
def MonitoringResult.created (result : MonitoringResult) : Option Uuid :=
  (result.incident.filter (·.created)).map (·.id)

section
variable (T : MonitoringTenant)

/-- The alert lies within the window of the alert handled last. -/
def KeyHistory.recent (h : KeyHistory) (alertTime : Millis) : Bool :=
  h.previous.any fun previous => !outsideWindow T previous alertTime

def KeyHistory.fired (h : KeyHistory) (below recalled : Bool) (alertTime : Millis)
    (created : Option Uuid) : KeyHistory where
  opened := created.or h.opened
  previous := some alertTime
  latest := some (max (h.latest.getD alertTime) alertTime)
  forgotten := created.isNone && (h.forgotten || (below && !recalled))

/-- The incident that the key's payload points to. -/
def KeyHistory.pointer (h : KeyHistory) : Option Uuid := if h.forgotten then none else h.opened

theorem KeyHistory.pointer_recalled {h : KeyHistory} (hkept : h.forgotten = false) (below : Bool)
    (alertTime : Millis) : (h.fired below true alertTime none).pointer = h.opened := by
  simp [pointer, fired, hkept]

theorem KeyHistory.pointer_lost {h : KeyHistory} {recalled : Bool}
    (hlost : (h.forgotten || !recalled) = true) (alertTime : Millis) :
    (h.fired true recalled alertTime none).pointer = none := by
  simp only [pointer, fired, Option.isNone_none, Bool.true_and, hlost, if_true]

theorem KeyHistory.pointer_created (h : KeyHistory) (below recalled : Bool) (alertTime : Millis)
    (id : Uuid) : (h.fired below recalled alertTime (some id)).pointer = some id := rfl

def OpenIncidentState.historyAfter (s : OpenIncidentState) (d : MonitoringDelivery) (ctx : AlertContext)
    (result : MonitoringResult) : KeyHistory :=
  let h := s.history (d.key T.platform)
  match d.eventType with
  | .alertFired =>
    let alertTime := d.alert.triggeredAt.getD ctx.now
    h.fired (belowThreshold T (mapSeverity T.platform d.alert.severity))
      ((s.stillOpen (d.key T.platform)).isSome && h.recent T alertTime) alertTime
      result.created
  | .alertResolved => h

def deliverStep (s : OpenIncidentState) (d : MonitoringDelivery) (ctx : AlertContext) :
    Option OpenIncidentState :=
  let key := d.key T.platform
  match handleDelivery T s.db d ctx with
  | .error _ => none
  | .ok handling =>
    some
      { db := applyWrites s.db handling.writes
        history := setAt s.history key (s.historyAfter T d ctx handling.result)
        log := s.log ++
          [{ eventType := d.eventType
             alertTime := d.alert.triggeredAt.getD ctx.now
             openIncident := s.stillOpen key
             latest := (s.history key).latest
             result := handling.result }] }

def openIncidentStep (s : OpenIncidentState) : OpenIncidentAction → Option OpenIncidentState
  | .deliver d ctx => deliverStep T s d ctx
  | .store row => some { s with db := { s.db with item := setAt s.db.item row.id (some row) } }
  | .delete id => some { s with db := { s.db with item := setAt s.db.item id none } }

def openIncidents : System OpenIncidentState OpenIncidentAction := ⟨openIncidentStep T⟩

/-- A tenant that no alert has reached yet. -/
def noAlerts (item : Uuid → Option WorkItem) : OpenIncidentState :=
  ⟨⟨fun _ => none, item, [], [], []⟩, fun _ => ⟨none, none, none, false⟩, []⟩

/-- With an incident open, an alert within the window of the latest one opens no
other, and a resolution finds the incident. -/
def HandledAlert.keepsIncident (r : HandledAlert) : Bool :=
  r.openIncident.all fun id =>
    match r.eventType with
    | .alertFired =>
      r.result.outcome != .incidentCreated ||
        r.latest.all fun latest => outsideWindow T latest r.alertTime
    | .alertResolved =>
      r.result.outcome != .noLinkedIncident && r.result.incident.map (·.id) == some id

def KeepsOpenIncident (s : OpenIncidentState) : Prop := ∀ r ∈ s.log, r.keepsIncident T = true

/-- With an incident open, nothing has forgotten it, and an alert within the
window of the latest one is within that of the alert handled last too, unless
it is below the threshold. -/
def remembers (s : OpenIncidentState) : OpenIncidentAction → Bool
  | .deliver d ctx =>
    let h := s.history (d.key T.platform)
    let alertTime := d.alert.triggeredAt.getD ctx.now
    (s.stillOpen (d.key T.platform)).isNone ||
      match d.eventType with
      | .alertFired =>
        belowThreshold T (mapSeverity T.platform d.alert.severity) ||
          (h.latest.all fun latest => outsideWindow T latest alertTime) ||
          (!h.forgotten && h.recent T alertTime)
      | .alertResolved => !h.forgotten
  | .store _ | .delete _ => true

end

/-! ## The pointer and the history -/

section
variable {T : MonitoringTenant} {s t : OpenIncidentState} {d : MonitoringDelivery} {ctx : AlertContext}

/-- The payload of the key says what has been delivered for it. -/
structure Pointed (s : OpenIncidentState) (key : AlertKey) : Prop where
  pointer : (s.db.artifact key).bind (·.payload.currentIncidentId) = (s.history key).pointer
  seen : (s.history key).opened.isSome → ∃ artifact, s.db.artifact key = some artifact ∧
    (s.history key).previous = some artifact.payload.lastSeen

theorem Pointed.target (h : Pointed s (d.key T.platform)) :
    (readFired T s.db d ctx).target =
      if (s.history (d.key T.platform)).forgotten then none
      else if (s.history (d.key T.platform)).recent T (d.alert.triggeredAt.getD ctx.now) then
        ((s.history (d.key T.platform)).opened.bind s.db.item).filter (!settled ·)
      else none := by
  obtain ⟨hpointer, hseen⟩ := h
  unfold KeyHistory.pointer at hpointer
  unfold readFired findDedupeTarget KeyHistory.recent
  dsimp only
  cases hforgotten : (s.history (d.key T.platform)).forgotten with
  | true =>
    rw [hforgotten, if_pos rfl] at hpointer
    cases hartifact : s.db.artifact (d.key T.platform) with
    | none => rfl
    | some artifact =>
      rw [hartifact, Option.bind_some] at hpointer
      simp [hpointer]
  | false =>
    rw [hforgotten, if_neg Bool.false_ne_true] at hpointer
    rw [if_neg Bool.false_ne_true]
    cases hopened : (s.history (d.key T.platform)).opened with
    | none =>
      rw [hopened] at hpointer
      cases hartifact : s.db.artifact (d.key T.platform) with
      | none => simp
      | some artifact =>
        rw [hartifact, Option.bind_some] at hpointer
        simp [hpointer]
    | some id =>
      rw [hopened] at hpointer hseen
      obtain ⟨artifact, hartifact, hprevious⟩ := hseen rfl
      rw [hartifact, Option.bind_some] at hpointer
      have hid : artifact.payload.currentIncidentId = some id := hpointer
      rw [hartifact, hprevious]
      simp only [Option.map_some, Option.bind_some, hid, Option.any_some]
      cases outsideWindow T artifact.payload.lastSeen (d.alert.triggeredAt.getD ctx.now) <;> rfl

theorem stillOpen_row {key : AlertKey} {id : Uuid} (h : s.stillOpen key = some id) :
    (s.history key).opened = some id ∧ ∃ row, s.db.item id = some row ∧ settled row = false := by
  obtain ⟨hopened, hrow⟩ := Option.filter_eq_some_iff.mp h
  refine ⟨hopened, ?_⟩
  cases hitem : s.db.item id with
  | none => rw [hitem] at hrow; cases hrow
  | some row =>
    rw [hitem, Option.any_some, Bool.not_eq_true'] at hrow
    exact ⟨row, rfl, hrow⟩

theorem Pointed.target_open (ctx : AlertContext) (h : Pointed s (d.key T.platform)) {id : Uuid}
    (hopen : s.stillOpen (d.key T.platform) = some id) :
    (readFired T s.db d ctx).target.isSome =
      (!(s.history (d.key T.platform)).forgotten &&
        (s.history (d.key T.platform)).recent T (d.alert.triggeredAt.getD ctx.now)) := by
  obtain ⟨hopened, row, hitem, hunsettled⟩ := stillOpen_row hopen
  rw [h.target, hopened, Option.bind_some, hitem]
  cases (s.history (d.key T.platform)).forgotten with
  | true => rfl
  | false =>
    cases (s.history (d.key T.platform)).recent T (d.alert.triggeredAt.getD ctx.now) with
    | true => simp [hunsettled]
    | false => rfl

theorem Pointed.recorded {key : AlertKey} (artifact : AlertArtifact)
    (hartifact : t.db.artifact key = some artifact)
    (hpointer : artifact.payload.currentIncidentId = (t.history key).pointer)
    (hseen : (t.history key).opened.isSome →
      (t.history key).previous = some artifact.payload.lastSeen) : Pointed t key := by
  refine ⟨?_, fun hopened => ⟨artifact, hartifact, hseen hopened⟩⟩
  rw [hartifact]
  exact hpointer

theorem Pointed.other {key key' : AlertKey} (h : Pointed s key) (hne : key ≠ key')
    {artifact : AlertKey → Option AlertArtifact} (hartifact : artifact key = s.db.artifact key)
    {history : KeyHistory} (hdb : t.db.artifact = artifact)
    (hhistory : t.history = setAt s.history key' history) : Pointed t key := by
  have hsame : t.history key = s.history key := by rw [hhistory, setAt_other _ _ hne]
  exact ⟨by rw [hdb, hartifact, hsame]; exact h.pointer, by rw [hdb, hartifact, hsame]; exact h.seen⟩

theorem deliverStep_handled (hstep : deliverStep T s d ctx = some t) : ∃ handling,
    handleDelivery T s.db d ctx = .ok handling ∧
    t.db = applyWrites s.db handling.writes ∧
    t.history = setAt s.history (d.key T.platform) (s.historyAfter T d ctx handling.result) ∧
    t.log = s.log ++
      [⟨d.eventType, d.alert.triggeredAt.getD ctx.now, s.stillOpen (d.key T.platform),
        (s.history (d.key T.platform)).latest, handling.result⟩] := by
  unfold deliverStep at hstep
  cases hhandled : handleDelivery T s.db d ctx with
  | error e => rw [hhandled] at hstep; cases hstep
  | ok handling =>
    rw [hhandled] at hstep
    obtain rfl := Option.some.inj hstep
    exact ⟨handling, rfl, rfl, rfl, rfl⟩

theorem Pointed.target_found (h : Pointed s (d.key T.platform)) (hrows : s.db.RowsKeyed)
    {incident : WorkItem} (htarget : (readFired T s.db d ctx).target = some incident) :
    (s.history (d.key T.platform)).forgotten = false ∧
      (s.history (d.key T.platform)).recent T (d.alert.triggeredAt.getD ctx.now) = true ∧
      (s.history (d.key T.platform)).opened = some incident.id ∧
      s.stillOpen (d.key T.platform) = some incident.id := by
  rw [h.target] at htarget
  cases hforgotten : (s.history (d.key T.platform)).forgotten with
  | true => rw [hforgotten] at htarget; cases htarget
  | false =>
    rw [hforgotten, if_neg Bool.false_ne_true] at htarget
    split at htarget
    · rename_i hrecent
      obtain ⟨hbind, hunsettled⟩ := Option.filter_eq_some_iff.mp htarget
      obtain ⟨id, hopened, hitem⟩ := Option.bind_eq_some_iff.mp hbind
      obtain rfl := hrows id incident hitem
      refine ⟨rfl, hrecent, hopened, Option.filter_eq_some_iff.mpr ⟨hopened, ?_⟩⟩
      rw [hitem]
      exact hunsettled
    · cases htarget

theorem deduplicateAlert_created (fired : FiredAlert) (incident : WorkItem) :
    (deduplicateAlert T d fired incident ctx).result.created = none := rfl

theorem suppressAlert_created (fired : FiredAlert) : (suppressAlert T d fired).result.created = none :=
  rfl

theorem openIncident_created (fired : FiredAlert) (incident : WorkItem) :
    (openIncident T d fired incident ctx).result.created = some incident.id := rfl

theorem Pointed.target_lost (h : Pointed s (d.key T.platform))
    (htarget : (readFired T s.db d ctx).target = none) :
    ((s.history (d.key T.platform)).forgotten ||
      !((s.stillOpen (d.key T.platform)).isSome &&
        (s.history (d.key T.platform)).recent T (d.alert.triggeredAt.getD ctx.now))) = true := by
  cases hopen : s.stillOpen (d.key T.platform) with
  | none => simp
  | some id =>
    have hsome := h.target_open ctx hopen
    rw [htarget, Option.isSome_none] at hsome
    cases hforgotten : (s.history (d.key T.platform)).forgotten with
    | true => rfl
    | false =>
      rw [hforgotten, Bool.not_false, Bool.true_and] at hsome
      rw [← hsome]
      rfl

theorem Pointed.fired (h : Pointed s (d.key T.platform)) (hrows : s.db.RowsKeyed)
    (htype : d.eventType = .alertFired) {handling : Handling}
    (hfired : handleAlertFired T s.db d ctx = .ok handling) : ∃ artifact,
    (applyWrites s.db handling.writes).artifact =
      setAt s.db.artifact (d.key T.platform) (some artifact) ∧
    artifact.payload.currentIncidentId = (s.historyAfter T d ctx handling.result).pointer ∧
    (s.historyAfter T d ctx handling.result).previous = some artifact.payload.lastSeen := by
  unfold OpenIncidentState.historyAfter
  rw [htype]
  dsimp only
  rcases handleAlertFired_cases hfired with
    ⟨incident, htarget, rfl⟩ | ⟨htarget, hbelow, rfl⟩ | ⟨htarget, -, teamId, incident, -, rfl⟩
  · obtain ⟨hforgotten, hrecent, hopened, hopen⟩ := h.target_found hrows htarget
    refine ⟨_, deduplicateAlert_artifact _ incident, ?_, rfl⟩
    have hpointer := KeyHistory.pointer_recalled hforgotten
      (belowThreshold T (mapSeverity T.platform d.alert.severity)) (d.alert.triggeredAt.getD ctx.now)
    rw [deduplicateAlert_created, hopen, Option.isSome_some, Bool.true_and, hrecent, hpointer, hopened]
    rfl
  · refine ⟨_, rfl, ?_, rfl⟩
    replace hbelow : belowThreshold T (mapSeverity T.platform d.alert.severity) = true := hbelow
    rw [suppressAlert_created, hbelow, KeyHistory.pointer_lost (h.target_lost htarget)]
    rfl
  · refine ⟨_, openIncident_artifact _ incident, ?_, rfl⟩
    rw [openIncident_created, KeyHistory.pointer_created]
    rfl

theorem Pointed.resolved (h : Pointed s (d.key T.platform)) : ∃ artifact,
    (applyWrites s.db (handleAlertResolved T s.db d ctx).writes).artifact =
      setAt s.db.artifact (d.key T.platform) (some artifact) ∧
    artifact.payload.currentIncidentId = (s.history (d.key T.platform)).pointer ∧
    ((s.history (d.key T.platform)).opened.isSome →
      (s.history (d.key T.platform)).previous = some artifact.payload.lastSeen) := by
  refine ⟨_, handleAlertResolved_artifact, ?_, fun hopened => ?_⟩
  · rw [← h.pointer]
    exact Option.bind_map
  · obtain ⟨artifact, hartifact, hprevious⟩ := h.seen hopened
    rw [hprevious, hartifact]
    rfl

/-- Rows have their ids, and payloads say what has been delivered. -/
def Pointing (s : OpenIncidentState) : Prop := s.db.RowsKeyed ∧ ∀ key, Pointed s key

theorem Pointing.noAlerts {item : Uuid → Option WorkItem}
    (hrows : ∀ id row, item id = some row → row.id = id) : Pointing (noAlerts item) :=
  ⟨hrows, fun _ => ⟨rfl, fun h => (by cases h)⟩⟩

theorem Pointing.deliver (h : Pointing s) (hstep : deliverStep T s d ctx = some t) : Pointing t := by
  obtain ⟨handling, hhandled, hdb, hhistory, -⟩ := deliverStep_handled hstep
  refine ⟨hdb ▸ h.1.applyWrites _, fun key => ?_⟩
  obtain ⟨artifact, hartifact, hpointer, hprevious⟩ : ∃ artifact,
      (applyWrites s.db handling.writes).artifact =
        setAt s.db.artifact (d.key T.platform) (some artifact) ∧
      artifact.payload.currentIncidentId = (s.historyAfter T d ctx handling.result).pointer ∧
      ((s.historyAfter T d ctx handling.result).opened.isSome →
        (s.historyAfter T d ctx handling.result).previous = some artifact.payload.lastSeen) := by
    cases htype : d.eventType with
    | alertFired =>
      rw [handleDelivery, htype] at hhandled
      obtain ⟨artifact, hartifact, hpointer, hprevious⟩ :=
        (h.2 (d.key T.platform)).fired h.1 htype hhandled
      exact ⟨artifact, hartifact, hpointer, fun _ => hprevious⟩
    | alertResolved =>
      rw [handleDelivery, htype] at hhandled
      obtain rfl := Except.ok.inj hhandled
      unfold OpenIncidentState.historyAfter
      rw [htype]
      exact (h.2 (d.key T.platform)).resolved
  by_cases hkey : key = d.key T.platform
  · subst hkey
    have hafter : t.history (d.key T.platform) = s.historyAfter T d ctx handling.result := by
      rw [hhistory, setAt_same]
    refine Pointed.recorded artifact ?_ (hafter ▸ hpointer) (hafter ▸ hprevious)
    rw [hdb, hartifact, setAt_same]
  · exact (h.2 key).other hkey (setAt_other _ _ hkey) (by rw [hdb, hartifact]) hhistory

theorem Pointing.step (h : Pointing s) {a : OpenIncidentAction}
    (hstep : openIncidentStep T s a = some t) : Pointing t := by
  cases a with
  | deliver d ctx => exact h.deliver hstep
  | store row =>
    obtain rfl := Option.some.inj hstep
    exact ⟨rowsKeyed_set h.1 fun r hr => congrArg WorkItem.id (Option.some.inj hr).symm,
      fun key => ⟨(h.2 key).pointer, (h.2 key).seen⟩⟩
  | delete id =>
    obtain rfl := Option.some.inj hstep
    exact ⟨rowsKeyed_set h.1 fun r hr => (by cases hr),
      fun key => ⟨(h.2 key).pointer, (h.2 key).seen⟩⟩

/-! ## What a delivery does to the open incident -/

theorem Pointed.fired_keeps (h : Pointed s (d.key T.platform)) {handling : Handling}
    (hfired : handleAlertFired T s.db d ctx = .ok handling) {id : Uuid}
    (hopen : s.stillOpen (d.key T.platform) = some id) :
    handling.result.outcome = .incidentCreated ↔
      belowThreshold T (mapSeverity T.platform d.alert.severity) = false ∧
        (!(s.history (d.key T.platform)).forgotten &&
          (s.history (d.key T.platform)).recent T (d.alert.triggeredAt.getD ctx.now)) = false := by
  rw [← h.target_open ctx hopen]
  rcases handleAlertFired_cases hfired with
    ⟨incident, htarget, rfl⟩ | ⟨htarget, hbelow, rfl⟩ | ⟨htarget, hbelow, teamId, incident, -, rfl⟩
  · rw [htarget]
    exact ⟨fun hcreated => (by cases hcreated), fun hnone => (by cases hnone.2)⟩
  · replace hbelow : belowThreshold T (mapSeverity T.platform d.alert.severity) = true := hbelow
    rw [hbelow]
    exact ⟨fun hcreated => (by cases hcreated), fun hnone => (by cases hnone.1)⟩
  · rw [htarget]
    exact ⟨fun _ => ⟨hbelow, rfl⟩, fun _ => rfl⟩

theorem Pointed.resolved_finds (ctx : AlertContext) (h : Pointed s (d.key T.platform)) (hrows : s.db.RowsKeyed) {id : Uuid}
    (hopen : s.stillOpen (d.key T.platform) = some id) :
    ((handleAlertResolved T s.db d ctx).result.outcome ≠ .noLinkedIncident ∧
      (handleAlertResolved T s.db d ctx).result.incident.map (·.id) = some id) ↔
      (s.history (d.key T.platform)).forgotten = false := by
  obtain ⟨hopened, row, hitem, -⟩ := stillOpen_row hopen
  have hpointer : ((s.db.artifact (d.key T.platform)).map (·.payload)).bind (·.currentIncidentId) =
      (s.history (d.key T.platform)).pointer := by
    rw [← h.pointer]
    exact Option.bind_map
  unfold handleAlertResolved
  dsimp only
  rw [hpointer, KeyHistory.pointer, hopened]
  cases (s.history (d.key T.platform)).forgotten with
  | true => exact ⟨fun hfound => absurd rfl hfound.1, fun hkept => (by cases hkept)⟩
  | false =>
    simp only [Bool.false_eq_true, if_false, Option.bind_some, hitem]
    exact ⟨fun _ => trivial, fun _ => ⟨fun hnone => (by cases hnone), congrArg some (hrows id row hitem)⟩⟩

theorem Pointing.record (h : Pointing s) {handling : Handling}
    (hhandled : handleDelivery T s.db d ctx = .ok handling) :
    HandledAlert.keepsIncident T ⟨d.eventType, d.alert.triggeredAt.getD ctx.now,
      s.stillOpen (d.key T.platform), (s.history (d.key T.platform)).latest, handling.result⟩ =
      remembers T s (.deliver d ctx) := by
  unfold HandledAlert.keepsIncident remembers
  dsimp only
  cases hopen : s.stillOpen (d.key T.platform) with
  | none => rfl
  | some id =>
    cases htype : d.eventType with
    | alertFired =>
      rw [handleDelivery, htype] at hhandled
      have hcreated := (h.2 (d.key T.platform)).fired_keeps hhandled hopen
      have houtcome : (handling.result.outcome != .incidentCreated) =
          (belowThreshold T (mapSeverity T.platform d.alert.severity) ||
            (!(s.history (d.key T.platform)).forgotten &&
              (s.history (d.key T.platform)).recent T (d.alert.triggeredAt.getD ctx.now))) := by
        rw [Bool.eq_iff_iff, bne_iff_ne, Ne, hcreated, ← Bool.or_eq_false_iff, Bool.not_eq_false]
      simp only [Option.all_some, Option.isNone_some, Bool.false_or]
      rw [houtcome, Bool.or_assoc, Bool.or_assoc]
      congr 1
      exact Bool.or_comm _ _
    | alertResolved =>
      rw [handleDelivery, htype] at hhandled
      obtain rfl := Except.ok.inj hhandled
      have hfinds := (h.2 (d.key T.platform)).resolved_finds ctx h.1 hopen
      simp only [Option.all_some, Option.isNone_some, Bool.false_or]
      rw [Bool.eq_iff_iff, Bool.and_eq_true, bne_iff_ne, beq_iff_eq, hfinds, Bool.not_eq_true']

theorem keeps_step (h : Pointing s) {a : OpenIncidentAction}
    (hstep : openIncidentStep T s a = some t) :
    KeepsOpenIncident T t ↔ KeepsOpenIncident T s ∧ remembers T s a = true := by
  cases a with
  | deliver d ctx =>
    obtain ⟨handling, hhandled, -, -, hlog⟩ := deliverStep_handled hstep
    rw [← h.record hhandled, KeepsOpenIncident, hlog, List.forall_mem_append]
    exact and_congr_right fun _ => List.forall_mem_singleton
  | store | delete =>
    obtain rfl := Option.some.inj hstep
    exact (and_iff_left rfl).symm

/-- Deliveries of any alerts in any order, among any changes of work items. -/
theorem open_incident_kept_iff (T : MonitoringTenant) (item : Uuid → Option WorkItem)
    (hrows : ∀ id row, item id = some row → row.id = id) (actions : List OpenIncidentAction)
    (t : OpenIncidentState) (hrun : (openIncidents T).run (noAlerts item) actions = some t) :
    KeepsOpenIncident T t ↔
      (openIncidents T).Along (fun s a => remembers T s a = true) (noAlerts item) actions := by
  have hall := (openIncidents T).along_iff (P := Pointing) (F := KeepsOpenIncident T)
    (D := fun _ _ => True) (fun h _ hstep => h.step hstep) (fun h _ hstep => keeps_step h hstep)
    (Pointing.noAlerts hrows) (System.along_of_forall _ (fun _ _ => trivial) _ _) hrun
  rw [hall]
  exact and_iff_right fun r hr => absurd hr List.not_mem_nil

end

/-! ## A late alert, and one below the threshold -/

def checkoutTenant : MonitoringTenant where
  platform := .ascii
  orgId := 1
  settings := ⟨.sev3, 60, some 3, "on_call"⟩
  workflows := []
  pick := 0
  policies := []

/-- An alert of the monitor, `minute` minutes after the epoch. -/
def checkoutAlert (eventType : MonitoringEventType) (severity : String) (minute : Int) :
    MonitoringDelivery where
  provider := "datadog"
  deliveryId := "dd-" ++ toString minute
  eventType := eventType
  alert :=
    { id := "812"
      dedupeKey := some "checkout-latency"
      title := "Checkout latency"
      description := none
      severity := some severity
      url := none
      runbookUrl := none
      monitorName := none
      environment := none
      triggeredAt := some (minute * msPerMinute)
      resolvedAt := some (minute * msPerMinute) }

/-- Nothing is registered, and the incident would get the id. -/
def meeting (newId : Uuid) : AlertContext := ⟨0, none, [], newId⟩

/-- A run of deliveries, each with the id that it draws. -/
def deliveries (alerts : List (MonitoringEventType × String × Int)) : List OpenIncidentAction :=
  alerts.zipIdx.map fun a =>
    .deliver (checkoutAlert a.1.1 a.1.2.1 a.1.2.2) (meeting (BitVec.ofNat 128 (10 + a.2)))

/-- The outcomes of a run, and whether each delivery has kept the incident. -/
def outcomes (T : MonitoringTenant) (s : OpenIncidentState) : List (MonitoringOutcome × Bool) :=
  s.log.map fun r => (r.result.outcome, r.keepsIncident T)

theorem keeps_outcomes {T : MonitoringTenant} {s : OpenIncidentState} :
    KeepsOpenIncident T s ↔ ∀ o ∈ outcomes T s, o.2 = true := by
  rw [outcomes, List.forall_mem_map]
  rfl

theorem outcomes_fst (T : MonitoringTenant) (s : OpenIncidentState) :
    s.log.map (·.result.outcome) = (outcomes T s).map Prod.fst := by
  rw [outcomes, List.map_map]
  rfl

/-- After a late alert, one that is within the window of the latest opens a
second incident; after an alert below the threshold, the resolution finds
nothing. -/
theorem open_incident_lost :
    (∃ t, (openIncidents checkoutTenant).run (noAlerts fun _ => none)
        (deliveries [(.alertFired, "critical", 100), (.alertFired, "critical", 20),
          (.alertFired, "critical", 110)]) = some t ∧
      t.log.map (·.result.outcome) = [.incidentCreated, .incidentDeduplicated, .incidentCreated] ∧
      ¬ KeepsOpenIncident checkoutTenant t) ∧
    ∃ t, (openIncidents checkoutTenant).run (noAlerts fun _ => none)
        (deliveries [(.alertFired, "critical", 100), (.alertFired, "info", 170),
          (.alertResolved, "critical", 180)]) = some t ∧
      t.log.map (·.result.outcome) = [.incidentCreated, .suppressedBelowThreshold, .noLinkedIncident] ∧
      ¬ KeepsOpenIncident checkoutTenant t := by
  constructor
  · have hrun : ((openIncidents checkoutTenant).run (noAlerts fun _ => none)
        (deliveries [(.alertFired, "critical", 100), (.alertFired, "critical", 20),
          (.alertFired, "critical", 110)])).map (outcomes checkoutTenant) =
        some [(.incidentCreated, true), (.incidentDeduplicated, true), (.incidentCreated, false)] := by
      decide
    obtain ⟨t, ht, hlog⟩ := Option.map_eq_some_iff.mp hrun
    refine ⟨t, ht, ?_, fun hkept => ?_⟩
    · rw [outcomes_fst checkoutTenant, hlog]
      rfl
    · rw [keeps_outcomes, hlog] at hkept
      exact absurd (hkept (.incidentCreated, false) (by decide)) Bool.false_ne_true
  · have hrun : ((openIncidents checkoutTenant).run (noAlerts fun _ => none)
        (deliveries [(.alertFired, "critical", 100), (.alertFired, "info", 170),
          (.alertResolved, "critical", 180)])).map (outcomes checkoutTenant) =
        some [(.incidentCreated, true), (.suppressedBelowThreshold, true), (.noLinkedIncident, false)] := by
      decide
    obtain ⟨t, ht, hlog⟩ := Option.map_eq_some_iff.mp hrun
    refine ⟨t, ht, ?_, fun hkept => ?_⟩
    · rw [outcomes_fst checkoutTenant, hlog]
      rfl
    · rw [keeps_outcomes, hlog] at hkept
      exact absurd (hkept (.noLinkedIncident, false) (by decide)) Bool.false_ne_true

/-- A flapping alert keeps its incident until it is resolved. -/
theorem open_incident_kept_flapping : ∃ t,
    (openIncidents checkoutTenant).run (noAlerts fun _ => none)
      (deliveries [(.alertFired, "critical", 100), (.alertFired, "high", 150),
        (.alertFired, "info", 200), (.alertResolved, "critical", 220)]) = some t ∧
    t.log.map (·.result.outcome) =
      [.incidentCreated, .incidentDeduplicated, .incidentDeduplicated, .mitigationProposed] ∧
    KeepsOpenIncident checkoutTenant t ∧
    (openIncidents checkoutTenant).Along (fun s a => remembers checkoutTenant s a = true)
      (noAlerts fun _ => none)
      (deliveries [(.alertFired, "critical", 100), (.alertFired, "high", 150),
        (.alertFired, "info", 200), (.alertResolved, "critical", 220)]) := by
  have hrun : ((openIncidents checkoutTenant).run (noAlerts fun _ => none)
      (deliveries [(.alertFired, "critical", 100), (.alertFired, "high", 150),
        (.alertFired, "info", 200), (.alertResolved, "critical", 220)])).map (outcomes checkoutTenant) =
      some [(.incidentCreated, true), (.incidentDeduplicated, true), (.incidentDeduplicated, true),
        (.mitigationProposed, true)] := by
    decide
  obtain ⟨t, ht, hlog⟩ := Option.map_eq_some_iff.mp hrun
  have hkept : KeepsOpenIncident checkoutTenant t := by
    rw [keeps_outcomes, hlog]
    decide
  refine ⟨t, ht, ?_, hkept, ?_⟩
  · rw [outcomes_fst checkoutTenant, hlog]
    rfl
  · exact (open_incident_kept_iff checkoutTenant (fun _ => none) (fun id row h => by cases h) _ t ht).mp hkept

end Cadena.Monitoring
