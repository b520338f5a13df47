import Cadena.NativeQuery.ScheduledQuery

/-!
# A published query is the query that was validated

An edit and a publication read the row, and write it later by its id. The
invariant says that the text of a published row is the text that its last
publication validated and hashed; it is kept as long as no edit lands on a
published row and no publication on an edited one.
-/

namespace Cadena.NativeQuery.Scheduled

open Cadena.Base
open Cadena.Connectors (ConnectorRecord)

variable {P : Platform}

/-- The text, entity type and language of a published query passed the
validation of its publication, and their hash is the watermark's. -/
def Validated (s : QueryState P) : Prop :=
  s.row.status = .published →
    s.row.watermarkQueryHash = some (queryHash P s.row.language s.row.entityType s.row.query) ∧
      ∃ plan, s.published = some plan ∧ plan.language = s.row.language ∧
        plan.entityType = s.row.entityType ∧ plan.query = s.row.query ∧
        (validateNativeQuery P s.row.language s.row.query plan.catalog).valid = true

/-- An edit that lands on a published row leaves its text and entity type
alone, and a publication finds those that it read. -/
def Current (s : QueryState P) : QueryAction → Prop
  | .edit i dto target now =>
    ∀ current set, s.requests i = some (.updating current) →
      editOf P current dto target now = .ok set → s.row.status = .published →
      (set s.row).query = s.row.query ∧ (set s.row).entityType = s.row.entityType
  | .publish i _ _ =>
    ∀ plan keep, s.requests i = some (.guarded plan keep) →
      plan.query = s.row.query ∧ plan.entityType = s.row.entityType
  | _ => True

/-! ## The language of a query never changes -/

/-- The language of the row that a request has read. -/
def Request.language? : Request P → Option ScheduledLanguage
  | .updating current => some current.language
  | .publishing current => some current.language
  | .guarded plan _ => some plan.language
  | .disabling | .returned => none

def OneLanguage (s : QueryState P) : Prop :=
  ∀ i request language, s.requests i = some request → request.language? = some language →
    language = s.row.language

variable {i k : Nat} {s t : QueryState P} {target : Option QueryTarget} {now : Micros}

theorem OneLanguage.setRequest {stage : Request P} (h : OneLanguage s) (hlanguage : t.row.language = s.row.language)
    (hrequests : t.requests = setAt s.requests i (some stage))
    (hstage : ∀ language, stage.language? = some language → language = s.row.language) :
    OneLanguage t := by
  intro j request language hj hl
  rw [hlanguage]
  rw [hrequests] at hj
  by_cases hji : j = i
  · subst hji
    rw [setAt_same] at hj
    exact hstage language (Option.some.inj hj ▸ hl)
  · rw [setAt_other _ _ hji] at hj
    exact h j request language hj hl

theorem OneLanguage.sameRequests (h : OneLanguage s)
    (hlanguage : t.row.language = s.row.language) (hrequests : t.requests = s.requests) :
    OneLanguage t := by
  intro j request language hj hl
  rw [hlanguage]
  exact h j request language (hrequests ▸ hj) hl

theorem planOf_ok {current : NativeQueryDefinition}
    {plan : PublicationPlan P} (h : planOf P current target = .ok plan) :
    plan.language = current.language ∧ plan.entityType = current.entityType ∧
      plan.query = current.query := by
  unfold planOf at h
  split at h
  · cases h
  · split at h
    · cases h
    · simp only at h
      split at h
      · cases h
        exact ⟨rfl, rfl, rfl⟩
      · cases h

theorem editOf_row {current : NativeQueryDefinition} {dto : UpdateNativeQueryDto} {now : Millis}
    {set : NativeQueryDefinition → NativeQueryDefinition}
    (h : editOf P current dto target now = .ok set) (row : NativeQueryDefinition) :
    (set row).language = row.language ∧ (set row).status = row.status ∧
      (set row).watermarkQueryHash = row.watermarkQueryHash ∧
      (set row).watermark = row.watermark ∧ (set row).leaseOwner = row.leaseOwner := by
  unfold editOf at h
  cases hname : orCurrent dto.name current.name (requiredText · "name" 160) with
  | error e => simp [hname, bind, Except.bind] at h
  | ok name =>
    cases hquery : orCurrent dto.query current.query (requiredText · "query" 100000) with
    | error e => simp [hname, hquery, bind, Except.bind] at h
    | ok query =>
      cases htype : orCurrent dto.entityType current.entityType
          (requiredText · "entity_type" 80) with
      | error e => simp [hname, hquery, htype, bind, Except.bind] at h
      | ok entityType =>
        cases htarget : resolveTarget target entityType with
        | error e => simp [hname, hquery, htype, htarget, bind, Except.bind] at h
        | ok resolved =>
          cases hseconds : orCurrent dto.intervalSeconds current.intervalSeconds
              interval with
          | error e =>
            simp [hname, hquery, htype, htarget, hseconds, bind, Except.bind] at h
          | ok seconds =>
            cases hstart : orCurrent dto.startFrom (current.startFrom.map toMillis)
                (startFrom now) with
            | error e =>
              simp [hname, hquery, htype, htarget, hseconds, hstart, bind,
                Except.bind] at h
            | ok start =>
              simp only [hname, hquery, htype, htarget, hseconds, hstart, bind,
                Except.bind, pure, Except.pure, Except.ok.injEq] at h
              rw [← h]
              exact ⟨rfl, rfl, rfl, rfl, rfl⟩

/-! ## What the other statements leave alone -/

/-- The columns that say what is published; a row that becomes published
does so by a publication. -/
structure SameQuery (r r' : NativeQueryDefinition) : Prop where
  language : r'.language = r.language
  entityType : r'.entityType = r.entityType
  query : r'.query = r.query
  hash : r'.watermarkQueryHash = r.watermarkQueryHash
  status : r'.status = .published → r.status = .published

theorem SameQuery.refl (r : NativeQueryDefinition) : SameQuery r r := ⟨rfl, rfl, rfl, rfl, id⟩

theorem SameQuery.fail (definition : NativeQueryDefinition) (message : String)
    (retryAfterSeconds : Nat) (now : Micros) (workerNow : Millis) (r : NativeQueryDefinition) :
    SameQuery r (failRow definition message retryAfterSeconds now workerNow r) :=
  ⟨rfl, rfl, rfl, rfl, id⟩

theorem SameQuery.postpone (nextRun : Millis) (message : String) (r : NativeQueryDefinition) :
    SameQuery r (postponeRow nextRun message r) :=
  ⟨rfl, rfl, rfl, rfl, id⟩

/-- The step moves one run, and leaves alone what is published. -/
structure RunStep (s t : QueryState P) : Prop where
  row : SameQuery s.row t.row
  requests : t.requests = s.requests
  published : t.published = s.published

theorem RunStep.setRun (s : QueryState P) (k : Nat) (run : Run) : RunStep s (s.setRun k run) :=
  ⟨.refl _, rfl, rfl⟩

theorem RunStep.updateLeased (s : QueryState P) (k : Nat)
    {set : NativeQueryDefinition → NativeQueryDefinition} (hset : ∀ r, SameQuery r (set r))
    (run : Run) : RunStep s ((s.updateLeased k set).setRun k run) := by
  unfold QueryState.updateLeased
  split
  · exact ⟨hset _, rfl, rfl⟩
  · exact .setRun s k run

theorem failRun_runStep (s : QueryState P) (k : Nat) (definition : NativeQueryDefinition)
    (message : String) (retryAfterSeconds : Nat) (now : Micros) (workerNow : Millis) :
    RunStep s (failRun s k definition message retryAfterSeconds now workerNow) :=
  .updateLeased s k (.fail definition message retryAfterSeconds now workerNow) .ended

theorem connect_runStep {unavailable : String} {workerNow : Millis}
    (h : connectStep s k target unavailable now workerNow = some t) : RunStep s t := by
  unfold connectStep at h
  split at h
  · split at h
    · cases h
      exact failRun_runStep ..
    · split at h
      · cases h
        exact .updateLeased s k (.postpone _ _) .ended
      · simp only at h
        split at h
        · cases h
          exact failRun_runStep ..
        · split at h
          · cases h
            exact failRun_runStep ..
          · cases h
            exact .setRun s k _
  · cases h

theorem fetch_runStep {outcome : FetchOutcome}
    {workerNow : Millis} (h : fetchStep s k outcome now workerNow = some t) : RunStep s t := by
  unfold fetchStep at h
  split at h
  · split at h
    · cases h
      exact .setRun s k _
    · cases h
      exact .updateLeased s k (.postpone _ _) .ended
    · cases h
      exact failRun_runStep ..
  · cases h

theorem commit_runStep {orgId : Uuid} {connector : ConnectorRecord} {ids : Nat → Uuid} {workerNow : Millis}
    (h : commitStep orgId connector s k ids now workerNow = some t) : RunStep s t := by
  unfold commitStep at h
  split at h
  · split at h
    · cases h
      exact ⟨⟨rfl, rfl, rfl, rfl, id⟩, rfl, rfl⟩
    · cases h
      exact .setRun s k _
  · cases h

/-! ## The invariant -/

theorem Validated.runStep (h : Validated s) (hst : RunStep s t) : Validated t := by
  obtain ⟨⟨hlanguage, htype, hquery, hhash, hstatus⟩, -, hpublished⟩ := hst
  intro hpub
  unfold Validated at h
  rw [hlanguage, htype, hquery, hhash, hpublished]
  exact h (hstatus hpub)

structure PublishedInv (s : QueryState P) : Prop where
  validated : Validated s
  languages : OneLanguage s

theorem PublishedInv.start {row : NativeQueryDefinition} (queue : IngestionTable)
    (hdraft : row.IsDraft) : PublishedInv (QueryState.start P row queue) where
  validated hpub := by
    have hstatus : row.status = .published := hpub
    rw [hdraft.status] at hstatus
    cases hstatus
  languages _ _ _ h := nomatch h

theorem PublishedInv.runStep (h : PublishedInv s) (hst : RunStep s t) : PublishedInv t :=
  ⟨h.validated.runStep hst, h.languages.sameRequests hst.row.language hst.requests⟩

theorem PublishedInv.read {kind : RequestKind}
    (h : PublishedInv s) (hstep : readStep s i kind = some t) : PublishedInv t := by
  unfold readStep at hstep
  split at hstep
  · cases hstep
    refine ⟨h.validated, h.languages.setRequest rfl rfl ?_⟩
    intro language hl
    cases kind <;> simp only at hl <;> split at hl <;> cases hl <;> rfl
  · cases hstep

theorem PublishedInv.edit {dto : UpdateNativeQueryDto} {now : Millis} (h : PublishedInv s)
    (hC : Current s (.edit i dto target now)) (hstep : editStep s i dto target now = some t) :
    PublishedInv t := by
  unfold editStep at hstep
  split at hstep
  · rename_i current hrequest
    split at hstep
    · cases hstep
      exact ⟨h.validated, h.languages.setRequest rfl rfl nofun⟩
    · rename_i set hset
      cases hstep
      obtain ⟨hlanguage, hstatus, hhash, -, -⟩ := editOf_row hset s.row
      refine ⟨?_, h.languages.setRequest hlanguage rfl nofun⟩
      intro hpub
      have hpub' : s.row.status = .published := hstatus.symm.trans hpub
      obtain ⟨hquery, htype⟩ := hC current set hrequest hset hpub'
      have hold := h.validated hpub'
      simp only [QueryState.setRequest, hlanguage, hhash, hquery, htype]
      exact hold
  · cases hstep

theorem PublishedInv.guard (h : PublishedInv s) (hstep : guardStep s i target = some t) : PublishedInv t := by
  unfold guardStep at hstep
  split at hstep
  · rename_i current hrequest
    split at hstep
    · cases hstep
      exact ⟨h.validated, h.languages.setRequest rfl rfl nofun⟩
    · rename_i plan hplan
      cases hstep
      refine ⟨h.validated, h.languages.setRequest rfl rfl ?_⟩
      intro language hl
      split at hl
      · cases hl
      · cases hl
        rw [(planOf_ok hplan).1]
        exact h.languages i _ _ hrequest rfl
  · cases hstep

theorem PublishedInv.publish {actorId : String} (h : PublishedInv s) (hC : Current s (.publish i actorId now))
    (hstep : publishStep s i actorId now = some t) : PublishedInv t := by
  unfold publishStep at hstep
  split at hstep
  · rename_i plan keep hrequest
    cases hstep
    have hlanguage : plan.language = s.row.language := h.languages i _ _ hrequest rfl
    obtain ⟨hquery, htype⟩ := hC plan keep hrequest
    refine ⟨fun _ => ⟨?_, plan, rfl, hlanguage, htype, hquery, ?_⟩,
      h.languages.setRequest rfl rfl nofun⟩
    · simp only [QueryState.setRequest, publishRow, PublicationPlan.hash, hlanguage, hquery, htype]
    · have haccepted := plan.accepted
      rw [hlanguage, hquery] at haccepted
      exact haccepted
  · cases hstep

theorem PublishedInv.disable (h : PublishedInv s) (hstep : disableStep s i = some t) : PublishedInv t := by
  unfold disableStep at hstep
  split at hstep
  · cases hstep
    refine ⟨?_, h.languages.setRequest rfl rfl nofun⟩
    intro hpub
    cases hpub
  · cases hstep

theorem PublishedInv.step {orgId : Uuid} {connector : ConnectorRecord}
    {a : QueryAction} (h : PublishedInv s) (hC : Current s a)
    (hstep : queryStep P orgId connector s a = some t) : PublishedInv t := by
  cases a with
  | read => exact h.read hstep
  | edit => exact h.edit hC hstep
  | guard => exact h.guard hstep
  | publish => exact h.publish hC hstep
  | disable => exact h.disable hstep
  | find =>
    simp only [queryStep, findStep] at hstep
    split at hstep
    · split at hstep
      · cases hstep
        exact h.runStep (.setRun s _ _)
      · cases hstep
    · cases hstep
  | lease =>
    simp only [queryStep, leaseStep] at hstep
    split at hstep
    · cases hstep
      exact h.runStep ⟨⟨rfl, rfl, rfl, rfl, id⟩, rfl, rfl⟩
    · cases hstep
  | connect => exact h.runStep (connect_runStep hstep)
  | fetch => exact h.runStep (fetch_runStep hstep)
  | commit => exact h.runStep (commit_runStep hstep)
  | rollback =>
    simp only [queryStep, rollbackStep] at hstep
    split at hstep
    · cases hstep
      exact h.runStep (failRun_runStep ..)
    · cases hstep
  | others =>
    cases hstep
    exact h.runStep ⟨.refl _, rfl, rfl⟩

/-- **A published query is the query that was validated.** In every run in
which no edit changes a published row and no publication lands on a row that
was edited meanwhile. -/
theorem published_is_validated {orgId : Uuid} {connector : ConnectorRecord}
    {row : NativeQueryDefinition} {queue : IngestionTable} {actions : List QueryAction}
    {s : QueryState P} (hdraft : row.IsDraft)
    (hrun : (scheduledQuery P orgId connector).run (.start P row queue) actions = some s)
    (hall : (scheduledQuery P orgId connector).Along Current (.start P row queue) actions) :
    Validated s :=
  ((scheduledQuery P orgId connector).along_invariant
    (fun h hC hs => PublishedInv.step h hC hs) (PublishedInv.start queue hdraft) hall hrun).validated

/-! ## An edit and a publication at the same time -/

/-- A Jira connector that knows the field it is asked for, and whether it is
indexed. -/
def jiraTarget : QueryTarget where
  provider := "jira"
  activated := true
  paused := false
  entityTypes := ["issue"]
  catalog entityType :=
    { provider := "jira", entityType := entityType, unavailable := none
      lookup := fun reference => some ⟨reference, true, none⟩, indexedFields := ["project"] }

def jiraConnector : ConnectorRecord := ⟨2, "jira", "Delivery"⟩

def projectDraft : NativeQueryDefinition where
  name := "Open work"
  language := .jql
  entityType := "issue"
  query := "project = CAD"
  intervalSeconds := 900
  status := .draft
  startFrom := none
  watermark := none
  watermarkQueryHash := none
  validation := ⟨.jql, []⟩
  nextRunAt := none
  lastRunAt := none
  lastRunStatus := none
  lastError := none
  lastEnqueued := 0
  totalEnqueued := 0
  consecutiveFailures := 0
  leaseOwner := none
  leaseExpiresAt := none
  publishedBy := none
  publishedAt := none

theorem projectDraft_isDraft : projectDraft.IsDraft := ⟨rfl, rfl, rfl, rfl⟩

def noRecords : IngestionTable := ⟨[], 1⟩

def draftState : QueryState .ascii := .start .ascii projectDraft noRecords

def publishDraft : List QueryAction :=
  [.read 0 .publish, .guard 0 (some jiraTarget), .publish 0 "ann" 1000000]

/-- Request 1 has read the draft before, and its edit lands afterwards. -/
def editAfter : List QueryAction :=
  [.read 1 .update] ++ publishDraft ++
    [.edit 1 { query := some "status = Open" } (some jiraTarget) 2000]

/-- The edit lands between the publication's read and its transaction. -/
def editBefore : List QueryAction :=
  [.read 0 .publish, .read 1 .update,
    .edit 1 { query := some "status = Open" } (some jiraTarget) 500,
    .guard 0 (some jiraTarget), .publish 0 "ann" 1000000]

theorem not_validated {language : ScheduledLanguage} {query : String}
    (hstatus : s.row.status = .published) (hlanguage : s.row.language = language)
    (hquery : s.row.query = query)
    (hrefused : ∀ plan, s.published = some plan →
      (validateNativeQuery P language query plan.catalog).valid = false) : ¬ Validated s := by
  intro h
  obtain ⟨-, plan, hplan, -, -, -, hvalid⟩ := h hstatus
  rw [hlanguage, hquery, hrefused plan hplan] at hvalid
  cases hvalid

/-- What a run says about the published text, and whether it passes the
validation of its publication. -/
def publishedAs (actions : List QueryAction) : Option (QueryStatus × String × Option String × Bool) :=
  ((scheduledQuery .ascii 1 jiraConnector).run draftState actions).map fun s =>
    (s.row.status, s.row.query, s.row.watermarkQueryHash,
      s.published.any fun plan =>
        !(validateNativeQuery .ascii s.row.language s.row.query plan.catalog).valid)

theorem not_validated_of_publishedAs {actions : List QueryAction} {query : String}
    {hash : Option String}
    (h : publishedAs actions = some (.published, query, hash, true)) :
    ∃ s, (scheduledQuery .ascii 1 jiraConnector).run draftState actions = some s ∧
      s.row.status = .published ∧ s.row.query = query ∧ s.row.watermarkQueryHash = hash ∧
      ¬ Validated s := by
  obtain ⟨s, hrun, heq⟩ := Option.map_eq_some_iff.mp h
  simp only [Prod.mk.injEq] at heq
  obtain ⟨hstatus, hquery, hhash, hrefused⟩ := heq
  refine ⟨s, hrun, hstatus, hquery, hhash, ?_⟩
  refine not_validated hstatus rfl rfl fun plan hplan => ?_
  simpa [hplan] using hrefused

/-- A published query without any scope, which the validator refuses, under
the hash of the text that was validated. -/
theorem edited_query_is_published :
    (∃ s, (scheduledQuery .ascii 1 jiraConnector).run draftState editAfter = some s ∧
      s.row.status = .published ∧ s.row.query = "status = Open" ∧
      s.row.watermarkQueryHash = some "jql\nissue\nproject = CAD" ∧ ¬ Validated s) ∧
    (∃ s, (scheduledQuery .ascii 1 jiraConnector).run draftState editBefore = some s ∧
      s.row.status = .published ∧ s.row.query = "status = Open" ∧
      s.row.watermarkQueryHash = some "jql\nissue\nproject = CAD" ∧ ¬ Validated s) :=
  ⟨not_validated_of_publishedAs (by decide),
    not_validated_of_publishedAs (by decide)⟩

/-- Whether a publication finds the text that it read. -/
def readsCurrent (s : QueryState P) (i : Nat) : Bool :=
  match s.requests i with
  | some (.guarded plan _) => plan.query == s.row.query && plan.entityType == s.row.entityType
  | _ => true

theorem current_of_readsCurrent {actorId : String}
    (h : readsCurrent s i = true) : Current s (.publish i actorId now) := by
  intro plan keep hplan
  simpa [readsCurrent, hplan] using h

/-- The publication alone. -/
theorem published_is_validated_alone : ∃ s,
    (scheduledQuery .ascii 1 jiraConnector).run draftState publishDraft = some s ∧
      Validated s := by
  let M := scheduledQuery .ascii 1 jiraConnector
  have hsome : (M.run draftState publishDraft).isSome = true := by decide
  have hread : (M.run draftState [.read 0 .publish, .guard 0 (some jiraTarget)]).all
      (readsCurrent · 0) = true := by decide
  obtain ⟨s, hrun⟩ := Option.isSome_iff_exists.mp hsome
  refine ⟨s, hrun, published_is_validated projectDraft_isDraft hrun ?_⟩
  refine ⟨trivial, fun u hu => ⟨trivial, fun v hv => ⟨?_, fun _ _ => trivial⟩⟩⟩
  have hv' : M.run draftState [.read 0 .publish, .guard 0 (some jiraTarget)] = some v :=
    M.run_cons.mpr ⟨u, hu, M.run_cons.mpr ⟨v, hv, rfl⟩⟩
  rw [hv'] at hread
  exact current_of_readsCurrent hread

end Cadena.NativeQuery.Scheduled
