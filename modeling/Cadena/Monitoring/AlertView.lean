import Cadena.Monitoring.Alert
import Cadena.Monitoring.AutomationPath
import Mathlib.Data.List.Induction

/-!
# What the handling of an alert depends on

For each dedupe key the handlers read how often the alert has occurred, when it
was seen last, and the state of its incident. They are functions of these
(`AlertView.after`), and a resolution that has been broken off anywhere leaves a
view from which it comes to the same end.
-/

namespace Cadena.Monitoring

open Cadena.Base Cadena.Connectors Cadena.WorkItems

structure AlertView where
  occurrences : Nat
  lastSeen : Option Millis
  status : Option String
  deriving DecidableEq

def AlertDb.pointer (db : AlertDb) (key : AlertKey) : Option Uuid :=
  (db.artifact key).bind (·.payload.currentIncidentId)

def AlertDb.view (db : AlertDb) (key : AlertKey) : AlertView where
  occurrences := ((db.artifact key).map (·.payload.occurrences)).getD 0
  lastSeen := (db.artifact key).map (·.payload.lastSeen)
  status := ((db.pointer key).bind db.item).map (·.status)

section
variable (T : MonitoringTenant)

def activeWorkflow : Option PublishedWorkflow :=
  getWorkflowDefinition T.workflows T.pick WorkItemType.incident.text none

def incidentVersion : Nat := ((activeWorkflow T).map (·.version)).getD 1

def initialStatus : String :=
  orText ((activeWorkflow T).map (·.definition.initialState)) (defaultStatus .incident)

/-- The rules by which automation moves them. -/
def incidentRules : List WorkflowTransitionRule :=
  rulesOf (getWorkflowDefinition T.workflows T.pick WorkItemType.incident.text
    (some (incidentVersion T)))

/-- The first rule from the one state to the other lets automation pass. -/
def allows (fromState toState : String) : Bool :=
  match (incidentRules T).find? fun r => r.fromState == fromState && r.toState == toState with
  | none => false
  | some rule =>
    (rule.requiresFields.all (supplyableFields.contains ·)) &&
      (rule.guard.filter (·.isSet)).all fun guard =>
        (evaluateRoleGuard guard T.settings.automationActorRole).isOk

def walkTo : String → List String → String
  | status, [] => status
  | status, step :: rest => if allows T status step then walkTo step rest else status

/-- Where a resolution leaves an incident that is in the state. -/
def mitigated (status : String) : String :=
  if status = proposedState then status
  else if automationForbiddenStates.contains status then status
  else
    match findAutomationPath (incidentRules T) status proposedState with
    | none => status
    | some path => walkTo T status path

def MonitoringDelivery.time (d : MonitoringDelivery) : Option Millis :=
  match d.eventType with
  | .alertFired => d.alert.triggeredAt
  | .alertResolved => d.alert.resolvedAt

def AlertView.recurs (v : AlertView) (alertTime : Millis) : Bool :=
  (v.lastSeen.any fun lastSeen => !outsideWindow T lastSeen alertTime) &&
    v.status.any fun status => !incidentSettledStates.contains status

def AlertView.opens (v : AlertView) (d : MonitoringDelivery) (time : Millis) : Bool :=
  d.eventType == .alertFired && !v.recurs T time &&
    !belowThreshold T (mapSeverity T.platform d.alert.severity)

def AlertView.after (v : AlertView) (d : MonitoringDelivery) (time : Millis) : AlertView :=
  match d.eventType with
  | .alertFired =>
    { occurrences := v.occurrences + 1
      lastSeen := some time
      status :=
        if v.recurs T time then v.status
        else if belowThreshold T (mapSeverity T.platform d.alert.severity) then none
        else some (initialStatus T) }
  | .alertResolved =>
    { occurrences := if v.occurrences = 0 then 1 else v.occurrences
      lastSeen := some (v.lastSeen.getD time)
      status := v.status.map (mitigated T) }

variable {T}

/-- The state from which a walk has the path before it. -/
def OnPath (T : MonitoringTenant) (status : String) (path : List String) : Prop :=
  (path = [] ∧ mitigated T status = status) ∨
    (status ≠ proposedState ∧ automationForbiddenStates.contains status = false ∧
      findAutomationPath (incidentRules T) status proposedState = some path)

theorem OnPath.mitigated {status : String} {path : List String} (h : OnPath T status path) :
    mitigated T status = walkTo T status path := by
  rcases h with ⟨rfl, hend⟩ | ⟨hne, hsafe, hfound⟩
  · exact hend
  · rw [Monitoring.mitigated, if_neg hne, if_neg (by rw [hsafe]; exact Bool.false_ne_true), hfound]

theorem mitigated_proposed : mitigated T proposedState = proposedState := if_pos rfl

theorem OnPath.step {status step : String} {rest : List String} (h : OnPath T status (step :: rest)) :
    OnPath T step rest := by
  rcases h with ⟨hnil, -⟩ | ⟨hne, -, hfound⟩
  · cases hnil
  · rcases findAutomationPath_rest hne hfound with ⟨rfl, rfl⟩ | ⟨hstep, hrest⟩
    · exact .inl ⟨rfl, mitigated_proposed⟩
    · exact .inr ⟨hstep, findAutomationPath_safe hfound step List.mem_cons_self, hrest⟩

theorem onPath_begin {status : String} {path : List String}
    (h : path = if status = proposedState then []
      else if automationForbiddenStates.contains status then []
      else (findAutomationPath (incidentRules T) status proposedState).getD []) :
    OnPath T status path := by
  subst h
  unfold OnPath Monitoring.mitigated
  split
  · exact .inl ⟨rfl, rfl⟩
  · rename_i hne
    split
    · exact .inl ⟨rfl, rfl⟩
    · rename_i hsafe
      cases hfound : findAutomationPath (incidentRules T) status proposedState with
      | none => exact .inl ⟨rfl, rfl⟩
      | some path => exact .inr ⟨hne, by simpa using hsafe, rfl⟩

/-! ## One turn -/

theorem lookup_spread_const (base : Fields) {fields : Fields} {value : Json} (hvalue : ∀ e ∈ fields, e.2 = value)
    {key : String} (hkey : key ∈ fields.map Prod.fst) : lookup (spread base fields) key = some value := by
  induction fields using List.reverseRecOn with
  | nil => exact absurd hkey List.not_mem_nil
  | append_singleton fields e ih =>
    rw [spread, List.foldl_append]
    show lookup (setKey (spread base fields) e.1 e.2) key = some value
    rw [lookup_setKey]
    split
    · rw [hvalue e (List.mem_append_right _ (List.mem_singleton_self e))]
    · rename_i hne
      refine ih (fun e' he' => hvalue e' (List.mem_append_left _ he')) ?_
      simpa [hne] using hkey

theorem setKey_values {fields : Fields} {value : Json} (hvalue : ∀ e ∈ fields, e.2 = value)
    (key : String) : ∀ e ∈ setKey fields key value, e.2 = value := by
  intro e he
  unfold setKey at he
  split at he
  · obtain ⟨e', he', rfl⟩ := List.mem_map.mp he
    split
    · rfl
    · exact hvalue e' he'
  · rcases List.mem_append.mp he with he | he
    · exact hvalue e he
    · rw [List.mem_singleton.mp he]

theorem supplied_fields (names : List String) (value : Json) :
    (∀ e ∈ names.foldl (fun acc f => setKey acc f value) [], e.2 = value) ∧
      ∀ name ∈ names, name ∈ (names.foldl (fun acc f => setKey acc f value) []).map Prod.fst := by
  induction names using List.reverseRecOn with
  | nil => exact ⟨fun e he => absurd he List.not_mem_nil, fun n hn => absurd hn List.not_mem_nil⟩
  | append_singleton names f ih =>
    rw [List.foldl_append]
    refine ⟨setKey_values ih.1 f, fun name hname => ?_⟩
    have hsome : (lookup (setKey (names.foldl (fun acc f => setKey acc f value) []) f value)
        name).isSome = true := by
      rw [lookup_setKey]
      split
      · rfl
      · rename_i hne
        have hold := ih.2 name (by simpa [hne] using hname)
        obtain ⟨e, he, rfl⟩ := List.mem_map.mp hold
        rw [lookup, Option.isSome_map, List.find?_isSome]
        exact ⟨e, he, decide_eq_true rfl⟩
    rw [lookup, Option.isSome_map, List.find?_isSome] at hsome
    obtain ⟨e, he, hkey⟩ := hsome
    exact List.mem_map.mpr ⟨e, he, of_decide_eq_true hkey⟩

/-- What the walk needs to know of an incident that it has read. -/
structure Ours (T : MonitoringTenant) (row : WorkItem) : Prop where
  type : row.type = .incident
  version : row.workflowVersion = incidentVersion T
  source : row.source = none

theorem Ours.rules {row : WorkItem} (h : Ours T row) :
    rulesOf (getWorkflowDefinition T.workflows T.pick row.type.text (some row.workflowVersion)) =
      incidentRules T := by
  rw [h.type, h.version]
  rfl

/-- A walk stands at a state of an incident, with a path before it. -/
structure WalkAt (T : MonitoringTenant) (walk : AutomationWalk) (item : WorkItem) (path : List String) :
    Prop where
  rules : walk.rules = incidentRules T
  role : walk.role = T.settings.automationActorRole
  summary : walk.summary ≠ ""
  current : walk.current = item.status
  path : walk.path = path
  ours : Ours T item

section
variable {walk : AutomationWalk} {item : WorkItem} {step : String} {rest : List String}
  {wf : Option PublishedWorkflow}

theorem unsupported_iff (rule : WorkflowTransitionRule) :
    rule.requiresFields.filter (!supplyableFields.contains ·) = [] ↔
      rule.requiresFields.all (supplyableFields.contains ·) = true := by
  rw [List.filter_eq_nil_iff, List.all_eq_true]
  exact forall₂_congr fun f _ => by rw [Bool.not_eq_true', Bool.not_eq_false]

theorem planTransition_supplied (h : WalkAt T walk item (step :: rest)) (hwf : rulesOf wf = incidentRules T)
    {rule : WorkflowTransitionRule}
    (hrule : (incidentRules T).find? (fun r => r.fromState == item.status && r.toState == step) =
      some rule) :
    (planTransition item wf (walk.context step)).isOk =
      (rule.guard.filter (·.isSet)).all fun guard =>
        (evaluateRoleGuard guard T.settings.automationActorRole).isOk := by
  have hrequired : walk.required step = rule.requiresFields := by
    rw [AutomationWalk.required, h.rules, h.current, hrule]
    rfl
  have hmissing : rule.requiresFields.filter
      (isMissing (spread item.customFields (walk.context step).fields)) = [] := by
    rw [List.filter_eq_nil_iff]
    intro f hf
    have hfields := supplied_fields rule.requiresFields (.str walk.summary)
    have hlookup := lookup_spread_const item.customFields hfields.1 (hfields.2 f hf)
    rw [isMissing, AutomationWalk.context, hrequired, hlookup]
    simpa using h.summary
  have hsource : ¬ item.source.isSome = true := by
    rw [h.ours.source]
    exact Bool.false_ne_true
  have hfind : (rulesOf wf).find? (fun t => t.fromState == item.status &&
      t.toState == (walk.context step).toState) = some rule := by
    rw [hwf]
    exact hrule
  unfold planTransition
  rw [if_neg hsource]
  dsimp only
  rw [hfind]
  dsimp only
  rw [hmissing]
  cases rule.guard.filter (·.isSet) with
  | none => rfl
  | some guard =>
    cases hguard : evaluateRoleGuard guard T.settings.automationActorRole with
    | error e => simp [AutomationWalk.context, h.role, hguard]; rfl
    | ok u => simp [AutomationWalk.context, h.role, hguard]; rfl

theorem WalkAt.unsupported (h : WalkAt T walk item (step :: rest)) :
    walk.unsupported step = [] ↔
      ((incidentRules T).find? fun r => r.fromState == item.status && r.toState == step).all
        (fun rule => rule.requiresFields.all (supplyableFields.contains ·)) = true := by
  unfold AutomationWalk.unsupported AutomationWalk.required
  rw [h.rules, h.current]
  cases (incidentRules T).find? fun r => r.fromState == item.status && r.toState == step with
  | none => simp
  | some rule => exact unsupported_iff rule

theorem WalkAt.allows_iff (h : WalkAt T walk item (step :: rest)) (hwf : rulesOf wf = incidentRules T) :
    allows T item.status step = true ↔
      walk.unsupported step = [] ∧ (planTransition item wf (walk.context step)).isOk = true := by
  rw [h.unsupported]
  unfold allows
  cases hrule : (incidentRules T).find? fun r => r.fromState == item.status && r.toState == step with
  | none =>
    have hplan : planTransition item wf (walk.context step) =
        .error (.notAllowed item.status step item.type.text item.workflowVersion) := by
      have hfind : (rulesOf wf).find? (fun t => t.fromState == item.status &&
          t.toState == (walk.context step).toState) = none := by
        rw [hwf]
        exact hrule
      unfold planTransition
      rw [if_neg (by rw [h.ours.source]; exact Bool.false_ne_true)]
      dsimp only
      rw [hfind]
      rfl
    rw [hplan]
    exact ⟨fun hfalse => (by cases hfalse), fun hboth => (by cases hboth.2)⟩
  | some rule =>
    rw [planTransition_supplied h hwf hrule]
    exact Bool.and_eq_true_iff

theorem WalkAt.made (h : WalkAt T walk item (step :: rest)) (hwf : rulesOf wf = incidentRules T)
    (hallowed : allows T item.status step = true) (now : Millis) :
    ∃ moved, walkStep walk item wf T.policies now =
        ⟨{ walk with
            current := step
            path := rest
            results := walk.results ++ [⟨item.status, step, none⟩] }, moved, some (item.status, step)⟩ ∧
      moved.id = item.id ∧ moved.status = step ∧ Ours T moved := by
  obtain ⟨hsupported, hplan⟩ := (h.allows_iff hwf).mp hallowed
  cases hmerged : planTransition item wf (walk.context step) with
  | error e => rw [hmerged] at hplan; cases hplan
  | ok merged =>
    have hattempt : attemptTransition item wf T.policies now (walk.context step) =
        .ok ((stateChangeOf T.policies item step now merged).apply item) := by
      rw [attemptTransition, hmerged]
      rfl
    refine ⟨(stateChangeOf T.policies item step now merged).apply item, ?_, rfl, rfl,
      h.ours.type, h.ours.version, h.ours.source⟩
    rw [walkStep, h.path]
    dsimp only
    rw [if_neg (not_not.mpr hsupported), hattempt]

theorem WalkAt.stopped (h : WalkAt T walk item (step :: rest)) (hwf : rulesOf wf = incidentRules T)
    (hallowed : allows T item.status step = false) (now : Millis) :
    (walkStep walk item wf T.policies now).item = item ∧
      (walkStep walk item wf T.policies now).made = none ∧
      (walkStep walk item wf T.policies now).walk.path = [] := by
  have hrefused := mt (h.allows_iff hwf).mpr (by rw [hallowed]; exact Bool.false_ne_true)
  rw [walkStep, h.path]
  dsimp only
  split
  · exact ⟨rfl, rfl, rfl⟩
  · rename_i hsupported
    cases hmerged : planTransition item wf (walk.context step) with
    | error e =>
      have hattempt : attemptTransition item wf T.policies now (walk.context step) = .error e := by
        rw [attemptTransition, hmerged]
        rfl
      rw [hattempt]
      exact ⟨rfl, rfl, rfl⟩
    | ok merged =>
      exact absurd ⟨not_not.mp hsupported, by rw [hmerged]; rfl⟩ hrefused

/-! ## Where statements write -/

/-- The statement writes no other artifact than that of the key, and no other
item than the one. -/
def AlertWrite.Within (key : AlertKey) (id : Option Uuid) : AlertWrite → Prop
  | .insertItem item | .setItem item => some item.id = id
  | .upsertArtifact key' _ => key' = key
  | .linkArtifact .. | .linkService .. | .publish _ => True

theorem applyWrites_within {key : AlertKey} {id : Option Uuid} {writes : List AlertWrite}
    (h : ∀ w ∈ writes, w.Within key id) (db : AlertDb) :
    (∀ key', key' ≠ key → (applyWrites db writes).artifact key' = db.artifact key') ∧
      ∀ id', some id' ≠ id → (applyWrites db writes).item id' = db.item id' := by
  induction writes generalizing db with
  | nil => exact ⟨fun _ _ => rfl, fun _ _ => rfl⟩
  | cons w writes ih =>
    obtain ⟨hartifact, hitem⟩ := ih (fun v hv => h v (List.mem_cons_of_mem w hv)) (w.apply db)
    have hw := h w List.mem_cons_self
    refine ⟨fun key' hkey => (hartifact key' hkey).trans ?_, fun id' hid => (hitem id' hid).trans ?_⟩
    · cases w with
      | upsertArtifact k artifact => exact setAt_other _ _ (hw ▸ hkey)
      | insertItem | setItem | publish => rfl
      | linkArtifact | linkService =>
        simp only [AlertWrite.apply]
        split <;> rfl
    · cases w with
      | insertItem item | setItem item =>
        refine setAt_other _ _ fun heq => hid ?_
        rw [heq]
        exact hw
      | upsertArtifact | publish => rfl
      | linkArtifact | linkService =>
        simp only [AlertWrite.apply]
        split <;> rfl

theorem linkWrites_within {d : MonitoringDelivery} {ctx : AlertContext} {incident : WorkItem}
    {key : AlertKey} {id : Option Uuid} : ∀ w ∈ linkWrites T d incident ctx, w.Within key id := by
  intro w hw
  rcases List.mem_cons.mp hw with rfl | hw
  · trivial
  · obtain ⟨service, -, rfl⟩ := List.mem_map.mp hw
    trivial

theorem turnWrites_within {turn : WalkTurn} {key : AlertKey} {id : Option Uuid}
    (h : turn.made.isSome = true → some turn.item.id = id) :
    ∀ w ∈ turnWrites walk turn, w.Within key id := by
  intro w hw
  unfold turnWrites at hw
  split at hw
  · rename_i hmade
    rw [List.mem_singleton.mp hw]
    exact h hmade
  · split at hw
    · rw [List.mem_singleton.mp hw]
      trivial
    · exact absurd hw List.not_mem_nil

theorem walkStep_id (walk : AutomationWalk) (item : WorkItem) (wf : Option PublishedWorkflow)
    (policies : List SlaPolicy) (now : Millis) : (walkStep walk item wf policies now).item.id = item.id := by
  unfold walkStep attemptTransition
  split
  · rfl
  · dsimp only
    split
    · rfl
    · split
      · rfl
      · rename_i hmoved
        cases hplan : planTransition item wf (walk.context _) with
        | error e => rw [hplan] at hmoved; cases hmoved
        | ok merged =>
          rw [hplan] at hmoved
          cases hmoved
          rfl

theorem walkWrites_within (wf : Option PublishedWorkflow) (policies : List SlaPolicy) (now : Millis)
    (key : AlertKey) (n : Nat) (walk : AutomationWalk) (item : WorkItem) :
    ∀ w ∈ (walkWrites wf policies now n walk item).1, w.Within key (some item.id) := by
  induction n generalizing walk item with
  | zero => exact fun w hw => absurd hw List.not_mem_nil
  | succ n ih =>
    intro w hw
    rcases List.mem_append.mp hw with hw | hw
    · exact turnWrites_within (fun _ => congrArg some (walkStep_id walk item wf policies now)) w hw
    · have hwithin := ih (walkStep walk item wf policies now).walk
        (walkStep walk item wf policies now).item w hw
      rwa [walkStep_id] at hwithin

/-! ## Parts of a walk -/

theorem walkWrites_done (hpath : walk.path = []) (policies : List SlaPolicy) (now : Millis) (n : Nat) :
    walkWrites wf policies now n walk item = ([], walk, item) := by
  induction n with
  | zero => rfl
  | succ n ih =>
    have hturn : walkStep walk item wf policies now = ⟨walk, item, none⟩ := by
      rw [walkStep, hpath]
    have hrequest : walk.request = none := by
      rw [AutomationWalk.request, hpath]
      rfl
    rw [walkWrites, hturn, turnWrites, hrequest]
    dsimp only
    rw [ih]
    rfl

/-- Where an incident is after a part of the writes of its walk. -/
structure PartWay (T : MonitoringTenant) (item row : WorkItem) (status : String) : Prop where
  id : row.id = item.id
  ours : Ours T row
  mitigated : mitigated T row.status = status

theorem WalkAt.part {path : List String} (h : WalkAt T walk item path)
    (honPath : OnPath T item.status path) (hwf : rulesOf wf = incidentRules T) (now : Millis)
    {db : AlertDb} (hitem : db.item item.id = some item) (m : Nat) :
    ∃ row, (applyWrites db
        ((walkWrites wf T.policies now path.length walk item).1.take m)).item item.id = some row ∧
      PartWay T item row (walkTo T item.status path) ∧
      ((walkWrites wf T.policies now path.length walk item).1.length ≤ m →
        row.status = walkTo T item.status path) := by
  induction path generalizing walk item db m with
  | nil =>
    rw [walkWrites_done h.path, List.take_nil]
    exact ⟨item, hitem, ⟨rfl, h.ours, honPath.mitigated⟩, fun _ => rfl⟩
  | cons step rest ih =>
    cases hallowed : allows T item.status step with
    | true =>
      obtain ⟨moved, hturn, hid, hstatus, hours⟩ := h.made hwf hallowed now
      have hend : walkTo T item.status (step :: rest) = walkTo T moved.status rest := by
        rw [walkTo, if_pos hallowed, hstatus]
      rw [List.length_cons, walkWrites, hturn]
      dsimp only
      rw [turnWrites]
      simp only [Option.isSome_some, if_true, List.singleton_append]
      cases m with
      | zero =>
        exact ⟨item, hitem, ⟨rfl, h.ours, honPath.mitigated⟩, fun hlen => by
          rw [List.length_cons] at hlen
          omega⟩
      | succ m =>
        have hmoved : ((AlertWrite.setItem moved).apply db).item moved.id = some moved :=
          setAt_same _ _ _
        obtain ⟨row, hrow, hpart, hfull⟩ := @ih
          { walk with
            current := step
            path := rest
            results := walk.results ++ [⟨item.status, step, none⟩] } moved
          ⟨h.rules, h.role, h.summary, hstatus.symm, rfl, hours⟩ (hstatus ▸ honPath.step) _ hmoved m
        rw [hend]
        refine ⟨row, hid ▸ hrow, ⟨hpart.id.trans hid, hpart.ours, hpart.mitigated⟩, fun hlen => ?_⟩
        exact hfull (Nat.le_of_succ_le_succ hlen)
    | false =>
      -- the walk stops here, and would stop here again
      obtain ⟨hsame, hmade, hstop⟩ := h.stopped hwf hallowed now
      have hend : walkTo T item.status (step :: rest) = item.status := by
        rw [walkTo, if_neg (by rw [hallowed]; exact Bool.false_ne_true)]
      have hwrites : ∀ w ∈ (walkWrites wf T.policies now (step :: rest).length walk item).1,
          w.Within ("", "") none := by
        rw [List.length_cons, walkWrites]
        dsimp only
        rw [walkWrites_done hstop, List.append_nil]
        refine turnWrites_within fun hsome => ?_
        rw [hmade] at hsome
        cases hsome
      have hunmoved : (applyWrites db ((walkWrites wf T.policies now (step :: rest).length walk
          item).1.take m)).item item.id = db.item item.id :=
        (applyWrites_within (fun w hw => hwrites w (List.mem_of_mem_take hw)) db).2 item.id
          (Option.some_ne_none _)
      exact ⟨item, hunmoved.trans hitem, ⟨rfl, h.ours, honPath.mitigated⟩, fun _ => hend.symm⟩

theorem beginWalk_at (hours : Ours T item) (hwf : rulesOf wf = incidentRules T) {summary : String}
    (hsummary : summary ≠ "") : ∃ path,
    WalkAt T (beginWalk item wf T.settings.automationActorRole summary) item path ∧
      OnPath T item.status path := by
  refine ⟨(beginWalk item wf T.settings.automationActorRole summary).path, ?_, onPath_begin ?_⟩
  · unfold beginWalk
    dsimp only
    split
    · exact ⟨hwf, rfl, hsummary, rfl, rfl, hours⟩
    · split
      · exact ⟨hwf, rfl, hsummary, rfl, rfl, hours⟩
      · split <;> exact ⟨hwf, rfl, hsummary, rfl, rfl, hours⟩
  · unfold beginWalk
    dsimp only
    rw [hwf]
    split
    · rfl
    · split
      · rfl
      · cases findAutomationPath (incidentRules T) item.status proposedState <;> rfl

theorem mitigationSummary_ne (provider name : String) (resolvedAt : Millis) :
    mitigationSummary provider name resolvedAt ≠ "" := by
  intro h
  unfold mitigationSummary at h
  simp only [String.append_eq_empty_iff] at h
  exact absurd h.1.1.1.1.1.1 (by decide)

end

/-! ## The rows of a tenant -/

/-- Rows are found by their ids, payloads point to incidents that the
integration has opened, and no two to the same. -/
structure Tracked (T : MonitoringTenant) (db : AlertDb) : Prop where
  rows : db.RowsKeyed
  pointed : ∀ key id, db.pointer key = some id → ∃ row, db.item id = some row ∧ Ours T row
  apart : ∀ key key' id, db.pointer key = some id → db.pointer key' = some id → key = key'

section
variable {db db' : AlertDb} {d : MonitoringDelivery} {ctx : AlertContext}

variable {key : AlertKey} {writes : List AlertWrite} {incident : WorkItem}

theorem view_congr (hartifact : db'.artifact key = db.artifact key)
    (hitem : ∀ id, db.pointer key = some id → db'.item id = db.item id) : db'.view key = db.view key := by
  have hpointer : db'.pointer key = db.pointer key := by
    unfold AlertDb.pointer
    rw [hartifact]
  unfold AlertDb.view
  rw [hartifact, hpointer]
  cases hid : db.pointer key with
  | none => rfl
  | some id => rw [Option.bind_some, Option.bind_some, hitem id hid]

theorem Tracked.view_other (h : Tracked T db) {key' : AlertKey} {id : Option Uuid}
    (hwithin : ∀ w ∈ writes, w.Within key id) (hne : key' ≠ key)
    (hid : ∀ i ∈ id, db.pointer key = some i ∨ db.item i = none) :
    (applyWrites db writes).view key' = db.view key' := by
  obtain ⟨hartifact, hitem⟩ := applyWrites_within hwithin db
  refine view_congr (hartifact key' hne) fun i hpointer => hitem i fun hsame => ?_
  rcases hid i hsame.symm with hown | hnew
  · exact hne (h.apart key' key i hpointer hown)
  · obtain ⟨row, hrow, -⟩ := h.pointed key' i hpointer
    rw [hrow] at hnew
    cases hnew

theorem Tracked.within (h : Tracked T db) {id : Option Uuid} (hwithin : ∀ w ∈ writes, w.Within key id)
    (hid : ∀ i ∈ id, db.pointer key = some i ∨ db.item i = none)
    (hpointer : ∀ i, (applyWrites db writes).pointer key = some i → id = some i ∧
      ∃ row, (applyWrites db writes).item i = some row ∧ Ours T row) :
    Tracked T (applyWrites db writes) := by
  obtain ⟨hartifact, hitem⟩ := applyWrites_within hwithin db
  have hother : ∀ key', key' ≠ key → (applyWrites db writes).pointer key' = db.pointer key' := by
    intro key' hne
    unfold AlertDb.pointer
    rw [hartifact key' hne]
  -- an incident of another key is not the one written
  have hforeign : ∀ key' i, key' ≠ key → db.pointer key' = some i → some i ≠ id := by
    intro key' i hne hi hsame
    rcases hid i hsame.symm with hown | hnew
    · exact hne (h.apart key' key i hi hown)
    · obtain ⟨row, hrow, -⟩ := h.pointed key' i hi
      rw [hrow] at hnew
      cases hnew
  refine ⟨h.rows.applyWrites writes, fun key' i hi => ?_, fun key' key'' i hi hi' => ?_⟩
  · by_cases hne : key' = key
    · exact (hpointer i (hne ▸ hi)).2
    · rw [hother key' hne] at hi
      rw [hitem i (hforeign key' i hne hi)]
      exact h.pointed key' i hi
  · by_cases hne : key' = key
    · by_cases hne' : key'' = key
      · exact hne.trans hne'.symm
      · rw [hother key'' hne'] at hi'
        exact absurd (hpointer i (hne ▸ hi)).1.symm (hforeign key'' i hne' hi')
    · rw [hother key' hne] at hi
      by_cases hne' : key'' = key
      · exact absurd (hpointer i (hne' ▸ hi')).1.symm (hforeign key' i hne hi)
      · rw [hother key'' hne'] at hi'
        exact h.apart key' key'' i hi hi'

theorem view_recorded {artifact : AlertArtifact} (h : db.artifact key = some artifact) :
    db.view key = ⟨artifact.payload.occurrences, some artifact.payload.lastSeen,
      (artifact.payload.currentIncidentId.bind db.item).map (·.status)⟩ := by
  unfold AlertDb.view AlertDb.pointer
  rw [h]
  rfl

theorem pointer_recorded {artifact : AlertArtifact} (h : db.artifact key = some artifact) :
    db.pointer key = artifact.payload.currentIncidentId := by
  rw [AlertDb.pointer, h]
  rfl

/-! ## A fired alert -/

theorem Tracked.target_some (h : Tracked T db) (htarget : (readFired T db d ctx).target = some incident) :
    db.pointer (d.key T.platform) = some incident.id ∧ db.item incident.id = some incident ∧
      (db.view (d.key T.platform)).recurs T (readFired T db d ctx).alertTime = true := by
  unfold readFired findDedupeTarget at htarget
  dsimp only at htarget
  obtain ⟨payload, hpayload, hrest⟩ := Option.bind_eq_some_iff.mp htarget
  obtain ⟨artifact, hartifact, rfl⟩ := Option.map_eq_some_iff.mp hpayload
  obtain ⟨id, hid, hrest⟩ := Option.bind_eq_some_iff.mp hrest
  split at hrest
  · cases hrest
  · rename_i hwindow
    obtain ⟨hitem, hunsettled⟩ := Option.filter_eq_some_iff.mp hrest
    obtain rfl := h.rows id incident hitem
    refine ⟨(pointer_recorded hartifact).trans hid, hitem, ?_⟩
    rw [view_recorded hartifact, hid, Option.bind_some, hitem]
    unfold AlertView.recurs
    rw [Bool.and_eq_true]
    exact ⟨by simpa [readFired] using hwindow, by simpa [settled] using hunsettled⟩

theorem target_none (htarget : (readFired T db d ctx).target = none) :
    (db.view (d.key T.platform)).recurs T (readFired T db d ctx).alertTime = false := by
  unfold readFired findDedupeTarget at htarget
  dsimp only at htarget
  unfold AlertView.recurs AlertDb.view AlertDb.pointer
  cases hartifact : db.artifact (d.key T.platform) with
  | none => rfl
  | some artifact =>
    rw [hartifact, Option.map_some, Option.bind_some] at htarget
    simp only [Option.map_some, Option.bind_some, Option.any_some]
    cases hid : artifact.payload.currentIncidentId with
    | none => simp
    | some id =>
      rw [hid, Option.bind_some] at htarget
      rw [Option.bind_some]
      split at htarget
      · rename_i hwindow
        rw [readFired, hwindow]
        rfl
      · cases hitem : db.item id with
        | none => simp
        | some row =>
          rw [hitem, Option.filter_eq_none_iff] at htarget
          have hsettled := htarget row rfl
          rw [Option.map_some, Option.any_some, Bool.and_eq_false_iff]
          exact .inr (by simpa [settled] using hsettled)

/-- The incident that the statement opens. -/
def AlertWrite.opened : AlertWrite → Option Uuid
  | .insertItem item => some item.id
  | _ => none

theorem linkWrites_opened (incident : WorkItem) :
    (linkWrites T d incident ctx).filterMap AlertWrite.opened = [] := by
  rw [linkWrites, List.filterMap_cons, List.filterMap_eq_nil_iff.mpr]
  · rfl
  · intro w hw
    obtain ⟨service, -, rfl⟩ := List.mem_map.mp hw
    rfl

/-- What handling a delivery to its end does under its key, and nowhere else. -/
structure Handled (T : MonitoringTenant) (db db' : AlertDb) (d : MonitoringDelivery) (time : Millis) :
    Prop where
  tracked : Tracked T db'
  other : ∀ key, key ≠ d.key T.platform → db'.view key = db.view key
  own : db'.view (d.key T.platform) = (db.view (d.key T.platform)).after T d time

theorem deduplicateAlert_item (fired : FiredAlert)
    (hitem : db.item incident.id = some incident) (hours : Ours T incident) : ∃ row,
    (applyWrites db (deduplicateAlert T d fired incident ctx).writes).item incident.id = some row ∧
      row.status = incident.status ∧ Ours T row := by
  have hlinks : ∀ w ∈ recordFired T d fired "firing" (some incident) :: linkWrites T d incident ctx,
      w.Within (d.key T.platform) none := by
    intro w hw
    rcases List.mem_cons.mp hw with rfl | hw
    · rfl
    · exact linkWrites_within w hw
  have hbefore := (applyWrites_within hlinks db).2 incident.id (Option.some_ne_none _)
  unfold deduplicateAlert
  dsimp only
  rw [applyWrites_append, applyWrites_append]
  cases hescalated : escalateSeverity incident fired.severity with
  | none => exact ⟨incident, hbefore.trans hitem, rfl, hours⟩
  | some e =>
    unfold escalateSeverity at hescalated
    split at hescalated
    · cases hescalated
    · split at hescalated
      · cases hescalated
      · obtain rfl := Option.some.inj hescalated
        exact ⟨_, setAt_same _ _ _, rfl, hours.type, hours.version, hours.source⟩

theorem escalateSeverity_id {severity : SeverityMapping}
    {e : WorkItem × WorkItemSeverity} (h : escalateSeverity incident severity = some e) :
    e.1.id = incident.id := by
  unfold escalateSeverity at h
  split at h
  · cases h
  · split at h
    · cases h
    · obtain rfl := Option.some.inj h
      rfl

theorem deduplicateAlert_within (fired : FiredAlert) (incident : WorkItem) :
    ∀ w ∈ (deduplicateAlert T d fired incident ctx).writes,
      w.Within (d.key T.platform) (some incident.id) := by
  intro w hw
  rcases List.mem_append.mp hw with hw | hw
  · rcases List.mem_append.mp hw with hw | hw
    · rcases List.mem_cons.mp hw with rfl | hw
      · rfl
      · exact linkWrites_within w hw
    · obtain ⟨e, he, rfl⟩ := List.mem_map.mp hw
      exact congrArg some (escalateSeverity_id (Option.mem_toList.mp he))
  · rw [List.mem_singleton.mp hw]
    trivial

theorem openIncident_within (fired : FiredAlert) (incident : WorkItem) :
    ∀ w ∈ (openIncident T d fired incident ctx).writes,
      w.Within (d.key T.platform) (some incident.id) := by
  intro w hw
  rcases List.mem_append.mp hw with hw | hw
  · rcases List.mem_cons.mp hw with rfl | hw
    · rfl
    · rcases List.mem_cons.mp hw with rfl | hw
      · rfl
      · exact linkWrites_within w hw
  · rw [List.mem_singleton.mp hw]
    trivial

theorem deduplicateAlert_opened (fired : FiredAlert) (incident : WorkItem) :
    (deduplicateAlert T d fired incident ctx).writes.filterMap AlertWrite.opened = [] := by
  rw [List.filterMap_eq_nil_iff]
  intro w hw
  rcases List.mem_append.mp hw with hw | hw
  · rcases List.mem_append.mp hw with hw | hw
    · rcases List.mem_cons.mp hw with rfl | hw
      · rfl
      · exact List.filterMap_eq_nil_iff.mp (linkWrites_opened incident) w hw
    · obtain ⟨e, -, rfl⟩ := List.mem_map.mp hw
      rfl
  · rw [List.mem_singleton.mp hw]
    rfl

theorem openIncident_opened (fired : FiredAlert) (incident : WorkItem) :
    (openIncident T d fired incident ctx).writes.filterMap AlertWrite.opened = [incident.id] := by
  unfold openIncident
  dsimp only
  rw [List.filterMap_append, List.filterMap_cons, List.filterMap_cons, linkWrites_opened]
  rfl

theorem readFired_occurrences : (readFired T db d ctx).occurrences =
    (db.view (d.key T.platform)).occurrences + 1 := by
  show (((db.artifact (d.key T.platform)).map (·.payload)).map (·.occurrences)).getD 0 + 1 = _
  rw [Option.map_map]
  rfl

theorem readFired_alertTime {time : Millis} (htime : d.alert.triggeredAt = some time) :
    (readFired T db d ctx).alertTime = time := by
  show d.alert.triggeredAt.getD ctx.now = time
  rw [htime]
  rfl

theorem Tracked.recorded (h : Tracked T db) (d : MonitoringDelivery) (fired : FiredAlert) (text : String)
    (incident : Option WorkItem) {status : String}
    (hwithin : ∀ w ∈ writes, w.Within (d.key T.platform) (incident.map (·.id)))
    (hid : ∀ w ∈ incident, db.pointer (d.key T.platform) = some w.id ∨ db.item w.id = none)
    (hrecorded : (applyWrites db writes).artifact (d.key T.platform) =
      ((recordFired T d fired text incident).apply db).artifact (d.key T.platform))
    (hrow : ∀ w ∈ incident, ∃ row, (applyWrites db writes).item w.id = some row ∧
      row.status = status ∧ Ours T row) :
    Tracked T (applyWrites db writes) ∧
      (∀ key, key ≠ d.key T.platform → (applyWrites db writes).view key = db.view key) ∧
      (applyWrites db writes).view (d.key T.platform) =
        ⟨fired.occurrences, some fired.alertTime, incident.map fun _ => status⟩ := by
  have hids : ∀ i ∈ incident.map (·.id), db.pointer (d.key T.platform) = some i ∨ db.item i = none := by
    intro i hi
    obtain ⟨w, hw, rfl⟩ := Option.map_eq_some_iff.mp hi
    exact hid w hw
  replace hrecorded := hrecorded.trans (setAt_same _ _ _)
  refine ⟨h.within hwithin hids fun i hi => ?_, fun key hne => h.view_other hwithin hne hids, ?_⟩
  · rw [pointer_recorded hrecorded] at hi
    obtain ⟨w, hw, rfl⟩ := Option.map_eq_some_iff.mp hi
    obtain ⟨row, hitem, -, hours⟩ := hrow w hw
    exact ⟨hi, row, hitem, hours⟩
  · rw [view_recorded hrecorded]
    cases incident with
    | none => rfl
    | some w =>
      obtain ⟨row, hitem, hstatus, -⟩ := hrow w rfl
      simp only [alertArtifact, Option.map_some, Option.bind_some, hitem, hstatus]

theorem Tracked.deduplicated (h : Tracked T db) (htype : d.eventType = .alertFired) {time : Millis}
    (htime : d.alert.triggeredAt = some time)
    (htarget : (readFired T db d ctx).target = some incident) :
    Handled T db (applyWrites db (deduplicateAlert T d (readFired T db d ctx) incident ctx).writes) d
      time ∧ (db.view (d.key T.platform)).recurs T time = true := by
  obtain ⟨hpointer, hitem, hrecurs⟩ := h.target_some htarget
  rw [readFired_alertTime htime] at hrecurs
  obtain ⟨row, hrow, hours⟩ := h.pointed _ _ hpointer
  obtain rfl := Option.some.inj (hitem.symm.trans hrow)
  obtain ⟨htracked, hother, hown⟩ := h.recorded d (readFired T db d ctx) "firing" (some incident)
    (@deduplicateAlert_within T d ctx (readFired T db d ctx) incident)
    (fun w hw => .inl (by rw [← Option.some.inj hw]; exact hpointer))
    (congrFun (deduplicateAlert_artifact (readFired T db d ctx) incident) _)
    (fun w hw => by
      obtain rfl := Option.some.inj hw
      exact deduplicateAlert_item (readFired T db d ctx) hitem hours)
  refine ⟨⟨htracked, hother, hown.trans ?_⟩, hrecurs⟩
  have hbefore : (db.view (d.key T.platform)).status = some incident.status := by
    unfold AlertDb.view
    rw [hpointer, Option.bind_some, hitem]
    rfl
  rw [readFired_occurrences, readFired_alertTime htime, AlertView.after, htype]
  dsimp only
  rw [if_pos hrecurs, hbefore]
  rfl

theorem Tracked.suppressed (h : Tracked T db) (htype : d.eventType = .alertFired) {time : Millis}
    (htime : d.alert.triggeredAt = some time) (htarget : (readFired T db d ctx).target = none)
    (hbelow : belowThreshold T (mapSeverity T.platform d.alert.severity) = true) :
    Handled T db (applyWrites db (suppressAlert T d (readFired T db d ctx)).writes) d time := by
  have hrecurs := target_none htarget
  rw [readFired_alertTime htime] at hrecurs
  have hwithin : ∀ w ∈ (suppressAlert T d (readFired T db d ctx)).writes,
      w.Within (d.key T.platform) ((none : Option WorkItem).map (·.id)) := by
    intro w hw
    rw [List.mem_singleton.mp hw]
    rfl
  obtain ⟨htracked, hother, hown⟩ := @Tracked.recorded T db _ h d (readFired T db d ctx) "suppressed"
    none "" hwithin (fun w hw => by cases hw) rfl (fun w hw => by cases hw)
  refine ⟨htracked, hother, hown.trans ?_⟩
  rw [readFired_occurrences, readFired_alertTime htime, AlertView.after, htype]
  dsimp only
  rw [if_neg (by rw [hrecurs]; exact Bool.false_ne_true), if_pos hbelow]
  rfl

theorem Tracked.openedIncident (h : Tracked T db) (htype : d.eventType = .alertFired) {time : Millis}
    (htime : d.alert.triggeredAt = some time) (htarget : (readFired T db d ctx).target = none)
    (hbelow : belowThreshold T (mapSeverity T.platform d.alert.severity) = false) {teamId : Uuid}
    (hcreate : createIncident T db (newIncident T d (readFired T db d ctx).severity
      (readFired T db d ctx).alertTime teamId ctx) ctx = .ok incident) :
    Handled T db (applyWrites db (openIncident T d (readFired T db d ctx) incident ctx).writes) d time := by
  have hrecurs := target_none htarget
  rw [readFired_alertTime htime] at hrecurs
  obtain ⟨hnew, hincident⟩ := createIncident_ok hcreate
  have hid : incident.id = ctx.newId := by rw [hincident]; rfl
  have hstatus : incident.status = initialStatus T := by rw [hincident]; rfl
  have hours : Ours T incident := by rw [hincident]; exact ⟨rfl, rfl, rfl⟩
  have htail : ∀ w ∈ recordFired T d (readFired T db d ctx) "firing" (some incident) ::
      linkWrites T d incident ctx ++ [.publish "IncidentAutoCreated"],
      w.Within (d.key T.platform) none := by
    intro w hw
    rcases List.mem_append.mp hw with hw | hw
    · rcases List.mem_cons.mp hw with rfl | hw
      · rfl
      · exact linkWrites_within w hw
    · rw [List.mem_singleton.mp hw]
      trivial
  have hrow := (applyWrites_within htail ((AlertWrite.insertItem incident).apply db)).2 incident.id
    (Option.some_ne_none _)
  obtain ⟨htracked, hother, hown⟩ := h.recorded d (readFired T db d ctx) "firing" (some incident)
    (@openIncident_within T d ctx (readFired T db d ctx) incident)
    (fun w hw => .inr (by rw [← Option.some.inj hw, hid]; exact hnew))
    (congrFun (openIncident_artifact (readFired T db d ctx) incident) _)
    (fun w hw => by
      obtain rfl := Option.some.inj hw
      exact ⟨incident, hrow.trans (setAt_same _ _ _), hstatus, hours⟩)
  refine ⟨htracked, hother, hown.trans ?_⟩
  rw [readFired_occurrences, readFired_alertTime htime, AlertView.after, htype]
  dsimp only
  rw [if_neg (by rw [hrecurs]; exact Bool.false_ne_true),
    if_neg (by rw [hbelow]; exact Bool.false_ne_true)]
  rfl

theorem Tracked.fired (h : Tracked T db) (htype : d.eventType = .alertFired) {time : Millis}
    (htime : d.alert.triggeredAt = some time) {handling : Handling}
    (hhandled : handleAlertFired T db d ctx = .ok handling) :
    Handled T db (applyWrites db handling.writes) d time ∧
      handling.writes.filterMap AlertWrite.opened =
        if (db.view (d.key T.platform)).opens T d time then [ctx.newId] else [] := by
  unfold AlertView.opens
  rw [htype, beq_self_eq_true, Bool.true_and]
  rcases handleAlertFired_cases hhandled with
    ⟨incident, htarget, rfl⟩ | ⟨htarget, hbelow, rfl⟩ | ⟨htarget, hbelow, teamId, incident, hcreate, rfl⟩
  · obtain ⟨hend, hrecurs⟩ := h.deduplicated htype htime htarget
    refine ⟨hend, ?_⟩
    rw [hrecurs]
    exact deduplicateAlert_opened _ incident
  · refine ⟨h.suppressed htype htime htarget hbelow, ?_⟩
    replace hbelow : belowThreshold T (mapSeverity T.platform d.alert.severity) = true := hbelow
    rw [hbelow, Bool.not_true, Bool.and_false]
    rfl
  · refine ⟨h.openedIncident htype htime htarget hbelow hcreate, ?_⟩
    have hrecurs := target_none htarget
    rw [readFired_alertTime htime] at hrecurs
    replace hbelow : belowThreshold T (mapSeverity T.platform d.alert.severity) = false := hbelow
    rw [hbelow, hrecurs, openIncident_opened, (createIncident_ok hcreate).2]
    rfl

/-! ## A resolved alert -/

/-- What follows the record of a resolution. -/
structure Proposal (T : MonitoringTenant) (db : AlertDb) (key : AlertKey) (rest : List AlertWrite) :
    Prop where
  recordsNothing : ∀ w ∈ rest, w.recordsNothing = true
  opensNothing : ∀ w ∈ rest, w.opened = none
  within : ∀ w ∈ rest, w.Within key (db.pointer key)
  part : ∀ id row, db.pointer key = some id → db.item id = some row → Ours T row →
    ∀ db' : AlertDb, db'.item id = some row → ∀ m, ∃ row',
      (applyWrites db' (rest.take m)).item id = some row' ∧ Ours T row' ∧
        mitigated T row'.status = mitigated T row.status ∧
        (rest.length ≤ m → row'.status = mitigated T row.status)

theorem walkWrites_opened (wf : Option PublishedWorkflow) (policies : List SlaPolicy) (now : Millis)
    (n : Nat) (walk : AutomationWalk) (item : WorkItem) :
    ∀ w ∈ (walkWrites wf policies now n walk item).1, w.opened = none := by
  induction n generalizing walk item with
  | zero => exact fun w hw => absurd hw List.not_mem_nil
  | succ n ih =>
    intro w hw
    rcases List.mem_append.mp hw with hw | hw
    · unfold turnWrites at hw
      split at hw
      · rw [List.mem_singleton.mp hw]
        rfl
      · split at hw
        · rw [List.mem_singleton.mp hw]
          rfl
        · exact absurd hw List.not_mem_nil
    · exact ih _ _ w hw

theorem proposeMitigation_writes (incident : WorkItem) (resolvedAt now : Millis) :
    ∃ walk, (proposeMitigation T d incident resolvedAt now).1 =
        (walkWrites (getWorkflowDefinition T.workflows T.pick incident.type.text
          (some incident.workflowVersion)) T.policies now walk.path.length walk incident).1 ∧
      (Ours T incident → ∃ path, WalkAt T walk incident path ∧ OnPath T incident.status path) :=
  ⟨_, rfl, fun hours => beginWalk_at hours hours.rules (mitigationSummary_ne _ _ _)⟩

theorem proposal_of_pointer (hpointer : db.pointer (d.key T.platform) = some incident.id)
    (hitem : db.item incident.id = some incident) (resolvedAt now : Millis) :
    Proposal T db (d.key T.platform) (.linkArtifact (d.key T.platform) incident.id ::
      ((proposeMitigation T d incident resolvedAt now).1 ++
        [.publish "IncidentMitigationProposed"])) := by
  obtain ⟨walk, hwrites, hwalk⟩ := @proposeMitigation_writes T d incident resolvedAt now
  rw [hwrites]
  refine ⟨fun w hw => ?_, fun w hw => ?_, fun w hw => ?_, fun id row hid hrow hours db' hrow' m => ?_⟩
  · rcases List.mem_cons.mp hw with rfl | hw
    · rfl
    · rcases List.mem_append.mp hw with hw | hw
      · exact walkWrites_recordsNothing _ _ _ _ _ _ w hw
      · rw [List.mem_singleton.mp hw]
        rfl
  · rcases List.mem_cons.mp hw with rfl | hw
    · rfl
    · rcases List.mem_append.mp hw with hw | hw
      · exact walkWrites_opened _ _ _ _ _ _ w hw
      · rw [List.mem_singleton.mp hw]
        rfl
  · rcases List.mem_cons.mp hw with rfl | hw
    · trivial
    · rcases List.mem_append.mp hw with hw | hw
      · rw [hpointer]
        exact walkWrites_within _ _ _ _ _ _ _ w hw
      · rw [List.mem_singleton.mp hw]
        trivial
  · obtain rfl := Option.some.inj (hpointer.symm.trans hid)
    obtain rfl := Option.some.inj (hitem.symm.trans hrow)
    obtain ⟨path, hat, honPath⟩ := hwalk hours
    have hlink : ((AlertWrite.linkArtifact (d.key T.platform) incident.id).apply db').item incident.id =
        some incident := by
      simp only [AlertWrite.apply]
      split <;> exact hrow'
    cases m with
    | zero => exact ⟨incident, hrow', hours, rfl, fun hlen => absurd hlen (by simp)⟩
    | succ k =>
      rw [List.take_succ_cons, List.take_append]
      obtain ⟨row', hitem', hpart, hfull⟩ := hat.part honPath hours.rules now hlink k
      have hend := honPath.mitigated
      have hevent : ∀ w ∈ [AlertWrite.publish "IncidentMitigationProposed"].take
          (k - (walkWrites (getWorkflowDefinition T.workflows T.pick incident.type.text
            (some incident.workflowVersion)) T.policies now walk.path.length walk
            incident).1.length), w.Within (d.key T.platform) none := by
        intro w hw
        rw [List.mem_singleton.mp (List.mem_of_mem_take hw)]
        trivial
      refine ⟨row', ?_, hpart.ours, hpart.mitigated.trans hend.symm, fun hlen => ?_⟩
      · show (applyWrites ((AlertWrite.linkArtifact (d.key T.platform) incident.id).apply db')
          (_ ++ _)).item incident.id = some row'
        rw [applyWrites_append, (applyWrites_within hevent _).2 incident.id (Option.some_ne_none _)]
        rw [hat.path]
        exact hitem'
      · rw [hend]
        refine hfull ?_
        rw [hat.path] at hlen
        simp only [List.length_cons, List.length_append] at hlen
        omega

theorem priorOccurrences_view (db : AlertDb) (key : AlertKey) :
    priorOccurrences ((db.artifact key).map (·.payload)) =
      if (db.view key).occurrences = 0 then 1 else (db.view key).occurrences := by
  unfold priorOccurrences AlertDb.view
  rw [Option.map_map]
  rfl

theorem handleAlertResolved_writes (ctx : AlertContext) (h : Tracked T db) {time : Millis}
    (htime : d.alert.resolvedAt = some time) : ∃ artifact rest,
    (handleAlertResolved T db d ctx).writes = .upsertArtifact (d.key T.platform) artifact :: rest ∧
      (artifact.payload.occurrences =
        if (db.view (d.key T.platform)).occurrences = 0 then 1
        else (db.view (d.key T.platform)).occurrences) ∧
      artifact.payload.lastSeen = (db.view (d.key T.platform)).lastSeen.getD time ∧
      artifact.payload.currentIncidentId = db.pointer (d.key T.platform) ∧
      Proposal T db (d.key T.platform) rest := by
  have hprior : ((db.artifact (d.key T.platform)).map (·.payload)).bind (·.currentIncidentId) =
      db.pointer (d.key T.platform) := Option.bind_map
  have hseen : (((db.artifact (d.key T.platform)).map (·.payload)).map (·.lastSeen)).getD
      (d.alert.resolvedAt.getD ctx.now) = (db.view (d.key T.platform)).lastSeen.getD time := by
    rw [htime, Option.map_map]
    rfl
  unfold handleAlertResolved
  dsimp only
  rw [hprior]
  cases hpointer : db.pointer (d.key T.platform) with
  | none =>
    refine ⟨_, [], rfl, priorOccurrences_view db _, hseen, hprior.trans hpointer, ?_⟩
    refine ⟨fun w hw => ?_, fun w hw => ?_, fun w hw => ?_, fun id row hid => ?_⟩
    · exact absurd hw List.not_mem_nil
    · exact absurd hw List.not_mem_nil
    · exact absurd hw List.not_mem_nil
    · rw [hpointer] at hid
      cases hid
  | some id =>
    obtain ⟨row, hrow, -⟩ := h.pointed _ _ hpointer
    obtain rfl := h.rows id row hrow
    rw [Option.bind_some, hrow]
    exact ⟨_, _, rfl, priorOccurrences_view db _, hseen, hprior.trans hpointer,
      proposal_of_pointer hpointer hrow _ _⟩

theorem AlertView.after_again {v v' : AlertView} (htype : d.eventType = .alertResolved) {time : Millis}
    (hoccurrences : v'.occurrences = if v.occurrences = 0 then 1 else v.occurrences)
    (hlastSeen : v'.lastSeen = some (v.lastSeen.getD time))
    (hstatus : v'.status.map (Monitoring.mitigated T) = v.status.map (Monitoring.mitigated T)) :
    v'.after T d time = v.after T d time := by
  unfold AlertView.after
  rw [htype]
  dsimp only
  rw [hoccurrences, hlastSeen, hstatus]
  congr 1
  split <;> simp_all

theorem Tracked.resolved (h : Tracked T db) (htype : d.eventType = .alertResolved) {time : Millis}
    (htime : d.alert.resolvedAt = some time) (n : Nat) :
    Tracked T (applyWrites db ((handleAlertResolved T db d ctx).writes.take n)) ∧
      (∀ key, key ≠ d.key T.platform →
        (applyWrites db ((handleAlertResolved T db d ctx).writes.take n)).view key = db.view key) ∧
      ((applyWrites db ((handleAlertResolved T db d ctx).writes.take n)).view
        (d.key T.platform)).after T d time = (db.view (d.key T.platform)).after T d time ∧
      ((handleAlertResolved T db d ctx).writes.length ≤ n →
        (applyWrites db ((handleAlertResolved T db d ctx).writes.take n)).view (d.key T.platform) =
          (db.view (d.key T.platform)).after T d time) := by
  obtain ⟨artifact, rest, hwrites, hoccurrences, hlastSeen, hincident, hrest⟩ :=
    handleAlertResolved_writes ctx h htime
  rw [hwrites]
  cases n with
  | zero => exact ⟨h, fun _ _ => rfl, rfl, fun hlen => absurd hlen (by simp)⟩
  | succ m =>
    rw [List.take_succ_cons]
    have hwithin : ∀ w ∈ .upsertArtifact (d.key T.platform) artifact :: rest.take m,
        w.Within (d.key T.platform) (db.pointer (d.key T.platform)) := by
      intro w hw
      rcases List.mem_cons.mp hw with rfl | hw
      · rfl
      · exact hrest.within w (List.mem_of_mem_take hw)
    have hid : ∀ i ∈ db.pointer (d.key T.platform),
        db.pointer (d.key T.platform) = some i ∨ db.item i = none := fun i hi => .inl hi
    have hnothing : ∀ w ∈ rest.take m, w.recordsNothing = true :=
      fun w hw => hrest.recordsNothing w (List.mem_of_mem_take hw)
    have hrecorded : (applyWrites db (.upsertArtifact (d.key T.platform) artifact ::
        rest.take m)).artifact (d.key T.platform) = some artifact :=
      (congrFun (applyWrites_cons_artifact hnothing db) (d.key T.platform)).trans (setAt_same _ _ _)
    have hview := view_recorded hrecorded
    rw [hincident, hoccurrences, hlastSeen] at hview
    have hpointer' := (pointer_recorded hrecorded).trans hincident
    -- the incident of the key, if there is one, is on its way
    obtain ⟨hpart, hfull, hours'⟩ :
        ((db.pointer (d.key T.platform)).bind (applyWrites db
          (.upsertArtifact (d.key T.platform) artifact :: rest.take m)).item).map
            (fun row => Monitoring.mitigated T row.status) =
              (db.view (d.key T.platform)).status.map (Monitoring.mitigated T) ∧
        (rest.length ≤ m → ((db.pointer (d.key T.platform)).bind (applyWrites db
          (.upsertArtifact (d.key T.platform) artifact :: rest.take m)).item).map (·.status) =
            (db.view (d.key T.platform)).status.map (Monitoring.mitigated T)) ∧
        ∀ i, db.pointer (d.key T.platform) = some i → ∃ row, (applyWrites db
          (.upsertArtifact (d.key T.platform) artifact :: rest.take m)).item i = some row ∧
            Ours T row := by
      cases hpointer : db.pointer (d.key T.platform) with
      | none =>
        rw [AlertDb.view, hpointer]
        exact ⟨rfl, fun _ => rfl, fun i hi => by cases hi⟩
      | some id =>
        obtain ⟨row, hrow, hours⟩ := h.pointed _ _ hpointer
        obtain ⟨row', hrow', hours', hmitigated, hend⟩ := hrest.part id row hpointer hrow hours
          ((AlertWrite.upsertArtifact (d.key T.platform) artifact).apply db) hrow m
        have hbefore : (db.view (d.key T.platform)).status = some row.status := by
          rw [AlertDb.view, hpointer, Option.bind_some, hrow]
          rfl
        replace hrow' : (applyWrites db (.upsertArtifact (d.key T.platform) artifact ::
          rest.take m)).item id = some row' := hrow'
        rw [hbefore, Option.bind_some, hrow']
        refine ⟨congrArg some hmitigated, fun hlen => congrArg some (hend hlen), fun i hi => ?_⟩
        exact ⟨row', Option.some.inj hi ▸ hrow', hours'⟩
    refine ⟨h.within hwithin hid fun i hi => ?_, fun key hne => h.view_other hwithin hne hid, ?_, ?_⟩
    · rw [hpointer'] at hi
      exact ⟨hi, hours' i hi⟩
    · refine AlertView.after_again htype (by rw [hview]) (by rw [hview]) ?_
      rw [hview, ← hpart, Option.map_map]
      rfl
    · intro hlen
      rw [hview, hfull (by simpa using hlen), AlertView.after, htype]

end

end

end Cadena.Monitoring
