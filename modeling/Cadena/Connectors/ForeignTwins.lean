import Cadena.Connectors.IngestionQueue

/-!
# Ingestion and the twins of other connectors

The runs of one connector's ingestion queue, beside the twins of the other
connectors of the tenant. A record of a twin that another connector manages
is refused, but when its last attempt fails, the twin is paused by its
natural key alone. `PausesOwn` says that no such twin is met; the rows of
the other connectors stay as they are exactly in the runs that keep to it.
-/

namespace Cadena.Connectors

open Cadena.Base Cadena.Integrations

deriving instance DecidableEq for ConnectorRecord

section
variable (P : Platform) (orgId : Uuid) (connector : ConnectorRecord)

def deadEntry (s : ConnectorState) (entryId : Uuid) : Option IngestionEntry :=
  s.entries.find? fun e =>
    e.id = entryId && e.orgId = orgId && e.connectorId = connector.id && e.status = .dead

/-- The actions on the queue of the connector. A re-injection finds a dead
entry and sets the twin that it names. -/
def onQueue (s : ConnectorState) : ConnectorAction → Bool
  | .accept o c _ _ => o = orgId && c = connector
  | .claimEntry _ o c .. => o = orgId && c = connector
  -- randomUUID(): no twin has the id
  | .process _ ids => s.queue.db.twins.all (·.id != ids.twin)
  | .complete .. | .failEntry .. | .recoverEntries _ => true
  | .reinjectEntry o c entryId twinId _ _ =>
    o = orgId && c = connector && (deadEntry orgId connector s entryId).any (·.twinId = twinId)
  | .order _ => false

def queueOf : System ConnectorState ConnectorAction where
  step s a := if onQueue orgId connector s a then connectorStep P s a else none

end

/-- The rows that other connectors manage. -/
def foreignTwins (connectorId : Uuid) (s : ConnectorState) : List CanonicalTwin :=
  s.queue.db.twins.filter (·.connectorId != connectorId)

def ExecError.isShed : ExecError → Bool
  | .loadShed .. => true
  | _ => false

/-- When an entry dies, another connector's twin with the key of its record
is paused already. -/
def PausesOwn (s : ConnectorState) : ConnectorAction → Prop
  | .failEntry call error _ => ∀ job ∈ (s.ingesting call).bind IngestionStage.job?,
      error.isShed = false → entryFinal job.2.2.1 = true → ∀ t ∈ s.queue.db.twins,
        twinKeyMatches job.1 job.2.1 job.2.2.1.payload t = true →
        t.connectorId = job.2.1.id ∨ t.syncState = .paused
  | _ => True

instance (s : ConnectorState) : ∀ a, Decidable (PausesOwn s a)
  | .failEntry call error _ => inferInstanceAs (Decidable
      (∀ job ∈ (s.ingesting call).bind IngestionStage.job?,
        error.isShed = false → entryFinal job.2.2.1 = true → ∀ t ∈ s.queue.db.twins,
          twinKeyMatches job.1 job.2.1 job.2.2.1.payload t = true →
          t.connectorId = job.2.1.id ∨ t.syncState = .paused))
  | .order _ | .accept .. | .claimEntry .. | .process .. | .complete .. | .reinjectEntry ..
  | .recoverEntries _ => isTrue trivial

def pause (t : CanonicalTwin) : CanonicalTwin := { t with syncState := .paused }

theorem pause_eq_self {t : CanonicalTwin} : pause t = t ↔ t.syncState = .paused := by
  refine ⟨fun h => h ▸ rfl, fun h => ?_⟩
  rw [pause, ← h]

def PausedFrom (t u : CanonicalTwin) : Prop := u = t ∨ u = pause t

theorem PausedFrom.trans {t u v : CanonicalTwin} (h : PausedFrom t u) (h' : PausedFrom u v) :
    PausedFrom t v := by
  rcases h with rfl | rfl
  · exact h'
  · exact .inr (h'.elim id id)

theorem PausedFrom.antisymm {t u : CanonicalTwin} (h : PausedFrom t u) (h' : PausedFrom u t) :
    t = u := by
  rcases h with rfl | rfl
  · rfl
  · exact h'.elim id id

/-- The same rows, some of them paused since. -/
abbrev PausedSince : List CanonicalTwin → List CanonicalTwin → Prop := List.Forall₂ PausedFrom

theorem PausedSince.refl (l : List CanonicalTwin) : PausedSince l l :=
  List.forall₂_same.mpr fun _ _ => .inl rfl

theorem PausedSince.trans {l m n : List CanonicalTwin} (h : PausedSince l m)
    (h' : PausedSince m n) : PausedSince l n := by
  induction h generalizing n with
  | nil => exact h'
  | cons htu _ ih =>
    cases h' with
    | cons huv hrest => exact .cons (htu.trans huv) (ih hrest)

theorem PausedSince.antisymm {l m : List CanonicalTwin} (h : PausedSince l m)
    (h' : PausedSince m l) : l = m := by
  induction h with
  | nil => rfl
  | cons htu _ ih =>
    cases h' with
    | cons hut hrest => rw [htu.antisymm hut, ih hrest]

theorem PausedSince.update (p : CanonicalTwin → Bool) (l : List CanonicalTwin) :
    PausedSince l (Table.update p pause l) := by
  rw [Table.update, PausedSince, List.forall₂_map_right_iff]
  refine List.forall₂_same.mpr fun t _ => ?_
  split
  · exact .inr rfl
  · exact .inl rfl

section
variable {P : Platform} {orgId : Uuid} {connector : ConnectorRecord} {s t : ConnectorState}

/-! ## What the queue refers to -/

/-- `UNIQUE (org_id, provider, artifact_type, external_id)`. -/
def naturalKey (t : CanonicalTwin) : Uuid × String × String × String :=
  (t.orgId, t.provider, t.artifactType, t.externalId)

theorem twinKeyMatches_iff {record : ExternalRecordPayload} {t : CanonicalTwin} :
    twinKeyMatches orgId connector record t = true ↔
      naturalKey t = (orgId, connector.provider, record.artifactType, record.externalId) := by
  simp [twinKeyMatches, naturalKey, and_assoc]

structure TwinsOk (twins : List CanonicalTwin) : Prop where
  ids : (twins.map (·.id)).Nodup
  keys : (twins.map naturalKey).Nodup

def OwnKey (orgId : Uuid) (connector : ConnectorRecord) (twins : List CanonicalTwin)
    (record : ExternalRecordPayload) : Prop :=
  ∀ t ∈ twins, twinKeyMatches orgId connector record t = true → t.connectorId = connector.id

def OwnId (connector : ConnectorRecord) (twins : List CanonicalTwin) (id : Uuid) : Prop :=
  ∀ t ∈ twins, t.id = id → t.connectorId = connector.id

def StageOk (orgId : Uuid) (connector : ConnectorRecord) (twins : List CanonicalTwin) :
    IngestionStage → Prop
  | .claimed o c _ _ => o = orgId ∧ c = connector
  | .applied o c job _ => (o = orgId ∧ c = connector) ∧ OwnKey orgId connector twins job.payload
  | .returned => True

variable {twins twins' : List CanonicalTwin} {f : CanonicalTwin → CanonicalTwin} {p : CanonicalTwin → Bool}

theorem StageOk.job {stage : IngestionStage}
    (h : StageOk orgId connector twins stage) {o : Uuid} {c : ConnectorRecord}
    {job : IngestionEntry} {claimId : String} (hjob : stage.job? = some (o, c, job, claimId)) :
    o = orgId ∧ c = connector := by
  cases stage <;> simp only [IngestionStage.job?, Option.some.injEq, Prod.mk.injEq] at hjob
  · exact ⟨hjob.1 ▸ h.1, hjob.2.1 ▸ h.2⟩
  · exact ⟨hjob.1 ▸ h.1.1, hjob.2.1 ▸ h.1.2⟩
  · cases hjob

structure ForeignInv (orgId : Uuid) (connector : ConnectorRecord) (s : ConnectorState) : Prop where
  twins : TwinsOk s.queue.db.twins
  linked : ∀ e ∈ s.entries, ∀ id ∈ e.twinId, OwnId connector s.queue.db.twins id
  stages : ∀ c stage, s.ingesting c = some stage → StageOk orgId connector s.queue.db.twins stage

/-- Every row is an old one under its identity, or the connector's. -/
def TwinsGrow (connector : ConnectorRecord) (twins twins' : List CanonicalTwin) : Prop :=
  ∀ t' ∈ twins', t'.connectorId = connector.id ∨
    ∃ t ∈ twins, t'.id = t.id ∧ naturalKey t' = naturalKey t ∧ t'.connectorId = t.connectorId

theorem TwinsGrow.refl (twins : List CanonicalTwin) : TwinsGrow connector twins twins :=
  fun t ht => .inr ⟨t, ht, rfl, rfl, rfl⟩

theorem OwnId.grow {id : Uuid} (h : OwnId connector twins id)
    (hgrow : TwinsGrow connector twins twins') : OwnId connector twins' id := by
  intro t' ht' hid
  rcases hgrow t' ht' with hown | ⟨t, ht, hsame, -, hconnector⟩
  · exact hown
  · exact hconnector.trans (h t ht (hsame.symm.trans hid))

theorem OwnKey.grow {record : ExternalRecordPayload}
    (h : OwnKey orgId connector twins record) (hgrow : TwinsGrow connector twins twins') :
    OwnKey orgId connector twins' record := by
  intro t' ht' hkey
  rcases hgrow t' ht' with hown | ⟨t, ht, -, hsame, hconnector⟩
  · exact hown
  · rw [twinKeyMatches_iff, hsame, ← twinKeyMatches_iff] at hkey
    exact hconnector.trans (h t ht hkey)

theorem StageOk.grow {stage : IngestionStage}
    (h : StageOk orgId connector twins stage) (hgrow : TwinsGrow connector twins twins') :
    StageOk orgId connector twins' stage := by
  cases stage with
  | claimed => exact h
  | applied => exact ⟨h.1, h.2.grow hgrow⟩
  | returned => trivial

/-- A statement on the rows that leaves their identity. -/
structure KeepsIdentity (f : CanonicalTwin → CanonicalTwin) : Prop where
  id : ∀ t, (f t).id = t.id
  key : ∀ t, naturalKey (f t) = naturalKey t
  connectorId : ∀ t, (f t).connectorId = t.connectorId

theorem keepsIdentity_pause : KeepsIdentity pause := ⟨fun _ => rfl, fun _ => rfl, fun _ => rfl⟩

theorem keepsIdentity_applyRecord (record : ExternalRecordPayload) (nodeId : Uuid) :
    KeepsIdentity (applyRecord P record nodeId) :=
  ⟨fun _ => rfl, fun _ => rfl, fun _ => rfl⟩

theorem TwinsOk.update (h : TwinsOk twins) (hf : KeepsIdentity f) : TwinsOk (Table.update p f twins) := by
  have hids := Table.update_column (p := p) (fun t : CanonicalTwin => t.id) hf.id twins
  have hkeys := Table.update_column (p := p) naturalKey hf.key twins
  exact ⟨hids ▸ h.ids, hkeys ▸ h.keys⟩

theorem TwinsGrow.update (hf : KeepsIdentity f) : TwinsGrow connector twins (Table.update p f twins) := by
  intro t' ht'
  rcases Table.mem_update.mp ht' with ⟨t, ht, -, rfl⟩ | ⟨ht, -⟩
  · exact .inr ⟨t, ht, hf.id t, hf.key t, hf.connectorId t⟩
  · exact .inr ⟨t', ht, rfl, rfl, rfl⟩

/-! ## Steps -/

/-- What a step of the queue leaves: the entries still name own twins, the
calls are at stages that fit, and of the others' rows some are paused. -/
structure QueueStep (orgId : Uuid) (connector : ConnectorRecord) (s : ConnectorState)
    (paused : CanonicalTwin → Bool) (t : ConnectorState) : Prop where
  twins : TwinsOk t.queue.db.twins
  grow : TwinsGrow connector s.queue.db.twins t.queue.db.twins
  foreign : foreignTwins connector.id t = Table.update paused pause (foreignTwins connector.id s)
  linked : ∀ e' ∈ t.entries, ∀ id ∈ e'.twinId,
    (∃ e ∈ s.entries, e.twinId = some id) ∨ OwnId connector t.queue.db.twins id
  stages : ∀ c stage, t.ingesting c = some stage →
    s.ingesting c = some stage ∨ StageOk orgId connector t.queue.db.twins stage

theorem QueueStep.inv {paused : CanonicalTwin → Bool} (hstep : QueueStep orgId connector s paused t)
    (h : ForeignInv orgId connector s) : ForeignInv orgId connector t := by
  refine ⟨hstep.twins, fun e' he' id hid => ?_, fun c stage hstage => ?_⟩
  · rcases hstep.linked e' he' id hid with ⟨e, he, hold⟩ | hown
    · exact (h.linked e he id hold).grow hstep.grow
    · exact hown
  · rcases hstep.stages c stage hstage with hold | hok
    · exact (h.stages c stage hold).grow hstep.grow
    · exact hok

theorem linked_update {p : IngestionEntry → Bool} {f : IngestionEntry → IngestionEntry}
    (h : t.entries = Table.update p f s.entries)
    (hf : ∀ e, (f e).twinId = e.twinId) :
    ∀ e' ∈ t.entries, ∀ id ∈ e'.twinId,
      (∃ e ∈ s.entries, e.twinId = some id) ∨ OwnId connector twins id := by
  intro e' he' id hid
  rw [h] at he'
  rcases Table.mem_update.mp he' with ⟨e, he, -, rfl⟩ | ⟨he, -⟩
  · exact .inl ⟨e, he, (hf e).symm.trans hid⟩
  · exact .inl ⟨e', he, hid⟩

theorem stages_setAt {call : Nat} {next : IngestionStage} (hnext : StageOk orgId connector twins next) :
    ∀ c stage, setAt s.ingesting call (some next) c = some stage →
      s.ingesting c = some stage ∨ StageOk orgId connector twins stage := by
  intro c stage hstage
  by_cases hc : c = call
  · subst hc
    rw [setAt_same] at hstage
    exact .inr (Option.some.inj hstage ▸ hnext)
  · rw [setAt_other _ _ hc] at hstage
    exact .inl hstage

theorem foreign_same (h : t.queue.db.twins = s.queue.db.twins) :
    foreignTwins connector.id t =
      Table.update (fun _ => false) pause (foreignTwins connector.id s) := by
  rw [Table.update_none fun _ _ => rfl, foreignTwins, foreignTwins, h]

theorem foreign_update (hf : KeepsIdentity f) (h : t.queue.db.twins = Table.update p f s.queue.db.twins) :
    foreignTwins connector.id t = Table.update p f (foreignTwins connector.id s) := by
  rw [foreignTwins, foreignTwins, h]
  exact Table.filter_update (fun r => by rw [hf.connectorId]) _

theorem foreign_update_own (hf : KeepsIdentity f) (h : t.queue.db.twins = Table.update p f s.queue.db.twins)
    (hown : ∀ r ∈ s.queue.db.twins, p r = true → r.connectorId = connector.id) :
    foreignTwins connector.id t =
      Table.update (fun _ => false) pause (foreignTwins connector.id s) := by
  rw [foreign_update hf h, Table.update_none fun _ _ => rfl]
  refine Table.update_none fun r hr => Bool.eq_false_iff.mpr fun hp => ?_
  obtain ⟨hmem, hforeign⟩ := List.mem_filter.mp hr
  simp [hown r hmem hp] at hforeign

end

section
variable {P : Platform} {orgId : Uuid} {connector : ConnectorRecord} {s t : ConnectorState}

/-- Nobody's twin is paused. -/
abbrev nobody : CanonicalTwin → Bool := fun _ => false

theorem QueueStep.accept (h : ForeignInv orgId connector s) {entityType : String}
    {accepted : AcceptedRecord}
    (hstep : acceptStep P s orgId connector entityType accepted = some t) :
    QueueStep orgId connector s nobody t := by
  simp only [acceptStep] at hstep
  split at hstep
  · cases hstep
  obtain rfl := Option.some.inj hstep
  refine ⟨h.twins, .refl _, foreign_same rfl, fun e' he' id hid => .inl ?_, fun _ _ hc => .inl hc⟩
  simp only at he'
  split at he'
  · exact ⟨e', he', hid⟩
  · rcases List.mem_append.mp he' with he' | he'
    · exact ⟨e', he', hid⟩
    · rw [List.mem_singleton.mp he'] at hid
      cases hid

theorem QueueStep.claimEntry (h : ForeignInv orgId connector s) {call : Nat} {entryId : Uuid}
    {claimId : String} {dbNow workerNow : Millis}
    (hstep : claimEntryStep s call orgId connector entryId claimId dbNow workerNow = some t) :
    QueueStep orgId connector s nobody t := by
  unfold claimEntryStep at hstep
  split at hstep
  · obtain rfl := Option.some.inj hstep
    refine ⟨h.twins, .refl _, foreign_same rfl,
      linked_update rfl fun _ => rfl, stages_setAt ?_⟩
    split
    · exact ⟨rfl, rfl⟩
    · trivial
  · cases hstep

theorem QueueStep.recoverEntries (h : ForeignInv orgId connector s) {dbNow : Millis}
    (hstep : connectorStep P s (.recoverEntries dbNow) = some t) :
    QueueStep orgId connector s nobody t := by
  obtain rfl := Option.some.inj hstep
  exact ⟨h.twins, .refl _, foreign_same rfl,
    linked_update rfl fun _ => rfl, fun _ _ hc => .inl hc⟩

theorem QueueStep.process (h : ForeignInv orgId connector s) {call : Nat} {ids : FreshIds}
    (hfresh : ∀ r ∈ s.queue.db.twins, r.id ≠ ids.twin) (hstep : processStep P s call ids = some t) :
    QueueStep orgId connector s nobody t := by
  unfold processStep at hstep
  split at hstep
  case h_2 => cases hstep
  rename_i o c job claimId hcall
  obtain ⟨rfl, rfl⟩ : o = orgId ∧ c = connector := h.stages call _ hcall
  split at hstep
  case h_2 => cases hstep
  rename_i outcome after event hok
  obtain rfl := Option.some.inj hstep
  cases RecordChange.of_processRecord hok with
  | @same prior hprior hconnector =>
    refine ⟨h.twins, .refl _, foreign_same rfl, fun e' he' id hid => .inl ⟨e', he', hid⟩,
      stages_setAt ⟨⟨rfl, rfl⟩, fun r hr hkey => ?_⟩⟩
    have hsame := twinKeyMatches_iff.mp hkey
    have hpriorKey := twinKeyMatches_iff.mp (List.find?_some hprior)
    rw [Table.eq_of_key h.twins.keys hr (List.mem_of_find?_eq_some hprior)
      (hsame.trans hpriorKey.symm), hconnector]
  | @updated prior nodeId nodes hprior hconnector =>
    have hmem : prior ∈ s.queue.db.twins := List.mem_of_find?_eq_some hprior
    have hkeeps := keepsIdentity_applyRecord (P := P) job.payload nodeId
    have hown : ∀ r ∈ s.queue.db.twins, (r.id = prior.id && r.orgId = o : Bool) = true →
        r.connectorId = c.id := by
      intro r hr hp
      simp only [Bool.and_eq_true, decide_eq_true_eq] at hp
      rw [Table.eq_of_key h.twins.ids hr hmem hp.1, hconnector]
    have hkey : OwnKey o c s.queue.db.twins job.payload := by
      intro r hr hr'
      have hpriorKey := twinKeyMatches_iff.mp (List.find?_some hprior)
      rw [Table.eq_of_key h.twins.keys hr hmem ((twinKeyMatches_iff.mp hr').trans hpriorKey.symm),
        hconnector]
    exact ⟨h.twins.update hkeeps, .update hkeeps, foreign_update_own hkeeps rfl hown,
      fun e' he' id hid => .inl ⟨e', he', hid⟩,
      stages_setAt ⟨⟨rfl, rfl⟩, hkey.grow (.update hkeeps)⟩⟩
  | @created nodeId nodes hnone =>
    have hnew : ∀ r ∈ s.queue.db.twins,
        naturalKey r ≠ naturalKey (newTwin P o c job.payload ids.twin nodeId) := fun r hr hkey =>
      List.find?_eq_none.mp hnone r hr (twinKeyMatches_iff.mpr hkey)
    refine ⟨⟨Table.nodup_insert h.twins.ids hfresh, Table.nodup_insert h.twins.keys hnew⟩,
      fun r hr => ?_, ?_, fun e' he' id hid => .inl ⟨e', he', hid⟩,
      stages_setAt ⟨⟨rfl, rfl⟩, fun r hr hkey => ?_⟩⟩
    · rcases List.mem_append.mp hr with hr | hr
      · exact .inr ⟨r, hr, rfl, rfl, rfl⟩
      · exact .inl (congrArg _ (List.mem_singleton.mp hr))
    · rw [Table.update_none fun _ _ => rfl]
      show (s.queue.db.twins ++ [_]).filter _ = _
      rw [List.filter_append]
      simp [foreignTwins, newTwin, applyRecord]
    · rcases List.mem_append.mp hr with hr | hr
      · exact absurd hkey (List.find?_eq_none.mp hnone r hr)
      · exact congrArg _ (List.mem_singleton.mp hr)

theorem QueueStep.complete (h : ForeignInv orgId connector s) {call : Nat} {times : AttemptTimes}
    (hstep : completeStep s call times = some t) : QueueStep orgId connector s nobody t := by
  unfold completeStep at hstep
  split at hstep
  · rename_i o c job claimId hcall
    obtain ⟨⟨rfl, rfl⟩, hkey⟩ : (o = orgId ∧ c = connector) ∧
      OwnKey orgId connector s.queue.db.twins job.payload := h.stages call _ hcall
    obtain rfl := Option.some.inj hstep
    refine ⟨h.twins, .refl _, foreign_same rfl, fun e' he' id hid => ?_, stages_setAt trivial⟩
    rcases Table.mem_update.mp he' with ⟨e, he, -, rfl⟩ | ⟨he, -⟩
    · -- the twin that was found has the key of the record
      refine .inr fun r hr hrid => ?_
      obtain ⟨found, hfound, rfl⟩ := Option.map_eq_some_iff.mp hid
      have hmem := List.mem_of_find?_eq_some hfound
      rw [Table.eq_of_key h.twins.ids hr hmem hrid]
      exact hkey found hmem (List.find?_some hfound)
    · exact .inl ⟨e', he, hid⟩
  · cases hstep

theorem QueueStep.reinjectEntry (h : ForeignInv orgId connector s) {entryId : Uuid}
    {twinId : Option Uuid} {payload : ExternalRecordPayload} {history : List ConnectorQueueAttempt}
    (hentry : ∃ e ∈ s.entries, e.twinId = twinId) :
    QueueStep orgId connector s nobody
      (reinjectEntryStep P s orgId connector entryId twinId payload history) := by
  obtain ⟨e, he, htwin⟩ := hentry
  cases twinId with
  | none =>
    exact ⟨h.twins, .refl _, foreign_same rfl, linked_update rfl fun _ => rfl,
      fun _ _ hc => .inl hc⟩
  | some id =>
    have hkeeps : KeepsIdentity fun r : CanonicalTwin => { r with syncState := .synced } :=
      ⟨fun _ => rfl, fun _ => rfl, fun _ => rfl⟩
    refine ⟨h.twins.update hkeeps, .update hkeeps, foreign_update_own hkeeps rfl fun r hr hp => ?_,
      linked_update rfl fun _ => rfl, fun _ _ hc => .inl hc⟩
    simp only [Bool.and_eq_true, decide_eq_true_eq] at hp
    exact h.linked e he id htwin r hr hp.1

theorem QueueStep.failEntry (h : ForeignInv orgId connector s) {call : Nat} {error : ExecError}
    {times : AttemptTimes} (hstep : failEntryStep s call error times = some t) :
    ∃ paused, QueueStep orgId connector s paused t ∧
      (PausesOwn s (.failEntry call error times) ↔
        ∀ r ∈ foreignTwins connector.id s, paused r = true → r.syncState = .paused) := by
  unfold failEntryStep at hstep
  split at hstep
  case h_2 => cases hstep
  rename_i o c job claimId hcall
  obtain ⟨stage, hstage, hjob⟩ := Option.bind_eq_some_iff.mp hcall
  obtain ⟨rfl, rfl⟩ := (h.stages call stage hstage).job hjob
  have hquiet : ∀ {t'}, QueueStep o c s nobody t' → PausesOwn s (.failEntry call error times) →
      ∃ paused, QueueStep o c s paused t' ∧ (PausesOwn s (.failEntry call error times) ↔
        ∀ r ∈ foreignTwins c.id s, paused r = true → r.syncState = .paused) :=
    fun hs hp => ⟨nobody, hs, iff_of_true hp fun _ _ hfalse => (by cases hfalse)⟩
  split at hstep
  · obtain rfl := Option.some.inj hstep
    refine hquiet ⟨h.twins, .refl _, foreign_same rfl,
      linked_update rfl fun _ => rfl, stages_setAt trivial⟩ ?_
    rintro job' - hshed
    cases hshed
  · rename_i hnotShed
    have hshed : error.isShed = false := by
      cases error with
      | loadShed message until_ => exact absurd rfl (hnotShed message until_)
      | _ => rfl
    obtain rfl := Option.some.inj hstep
    cases hfinal : entryFinal job with
    | false =>
      refine hquiet ⟨h.twins, .refl _, foreign_same rfl,
        linked_update rfl fun _ => rfl,
        stages_setAt trivial⟩ ?_
      intro job' hjob' _ hfinal'
      obtain rfl := Option.some.inj (hcall.symm.trans hjob')
      rw [hfinal] at hfinal'
      cases hfinal'
    | true =>
      refine ⟨twinKeyMatches o c job.payload, ⟨h.twins.update keepsIdentity_pause,
        .update keepsIdentity_pause, foreign_update keepsIdentity_pause rfl,
        linked_update rfl fun _ => rfl,
        stages_setAt trivial⟩, fun hp r hr hkey => ?_, fun hall job' hjob' _ _ r hr hkey => ?_⟩
      · obtain ⟨hmem, hforeign⟩ := List.mem_filter.mp hr
        refine (hp _ hcall hshed hfinal r hmem hkey).resolve_left fun hown => ?_
        simp [hown] at hforeign
      · obtain rfl := Option.some.inj (hcall.symm.trans hjob')
        by_cases hown : r.connectorId = c.id
        · exact .inl hown
        · exact .inr (hall r (List.mem_filter.mpr ⟨hr, by simpa using hown⟩) hkey)

end

section
variable {P : Platform} {orgId : Uuid} {connector : ConnectorRecord} {s t : ConnectorState}

/-! ## Runs -/

theorem QueueStep.of_step (h : ForeignInv orgId connector s) {a : ConnectorAction}
    (hstep : (queueOf P orgId connector).step s a = some t) :
    ∃ paused, QueueStep orgId connector s paused t ∧
      (PausesOwn s a ↔ ∀ r ∈ foreignTwins connector.id s, paused r = true → r.syncState = .paused) := by
  simp only [queueOf] at hstep
  split at hstep
  case isFalse => cases hstep
  rename_i hon
  have hquiet : QueueStep orgId connector s nobody t → PausesOwn s a →
      ∃ paused, QueueStep orgId connector s paused t ∧
        (PausesOwn s a ↔ ∀ r ∈ foreignTwins connector.id s, paused r = true → r.syncState = .paused) :=
    fun hs hp => ⟨nobody, hs, iff_of_true hp fun _ _ hfalse => (by cases hfalse)⟩
  cases a with
  | order => cases hon
  | accept o c entityType accepted =>
    simp only [onQueue, Bool.and_eq_true, decide_eq_true_eq] at hon
    obtain ⟨rfl, rfl⟩ := hon
    exact hquiet (.accept h hstep) trivial
  | claimEntry call o c entryId claimId dbNow workerNow =>
    simp only [onQueue, Bool.and_eq_true, decide_eq_true_eq] at hon
    obtain ⟨rfl, rfl⟩ := hon
    exact hquiet (.claimEntry h hstep) trivial
  | process call ids =>
    refine hquiet (.process h (fun r hr => ?_) hstep) trivial
    simpa using List.all_eq_true.mp hon r hr
  | complete => exact hquiet (.complete h hstep) trivial
  | failEntry => exact QueueStep.failEntry h hstep
  | reinjectEntry o c entryId twinId payload history =>
    simp only [onQueue, Bool.and_eq_true, decide_eq_true_eq, Option.any_eq_true] at hon
    obtain ⟨⟨rfl, rfl⟩, e, hfound, htwin⟩ := hon
    obtain rfl := Option.some.inj hstep
    exact hquiet (.reinjectEntry h ⟨e, List.mem_of_find?_eq_some hfound, htwin⟩) trivial
  | recoverEntries => exact hquiet (.recoverEntries h hstep) trivial

theorem ForeignInv.step (h : ForeignInv orgId connector s) {a : ConnectorAction}
    (hstep : (queueOf P orgId connector).step s a = some t) : ForeignInv orgId connector t := by
  obtain ⟨paused, hs, -⟩ := QueueStep.of_step h hstep
  exact hs.inv h

theorem ForeignInv.idle {tables : IngestState} (h : TwinsOk tables.twins) :
    ForeignInv orgId connector (idleConnectors tables) :=
  ⟨h, fun _ he => absurd he List.not_mem_nil, fun _ _ hstage => (by cases hstage)⟩

theorem foreign_step (h : ForeignInv orgId connector s) {rows : List CanonicalTwin}
    (hsince : PausedSince rows (foreignTwins connector.id s)) {a : ConnectorAction}
    (hstep : (queueOf P orgId connector).step s a = some t) :
    PausedSince rows (foreignTwins connector.id t) ∧
      (foreignTwins connector.id t = rows ↔ foreignTwins connector.id s = rows ∧ PausesOwn s a) := by
  obtain ⟨paused, hs, hown⟩ := QueueStep.of_step h hstep
  have hnext : PausedSince (foreignTwins connector.id s) (foreignTwins connector.id t) :=
    hs.foreign ▸ .update paused _
  have hkept : foreignTwins connector.id t = foreignTwins connector.id s ↔ PausesOwn s a := by
    rw [hs.foreign, Table.update_eq_self, hown]
    simp only [pause_eq_self]
  refine ⟨hsince.trans hnext, fun hsame => ?_, fun hboth => (hkept.mpr hboth.2).trans hboth.1⟩
  have hbefore : foreignTwins connector.id s = rows := (hsame ▸ hnext).antisymm hsince
  exact ⟨hbefore, hkept.mp (hsame.trans hbefore.symm)⟩

end

def siteA : ConnectorRecord := ⟨1, "jira", "Site A"⟩
def siteB : ConnectorRecord := ⟨2, "jira", "Site B"⟩

def twinOfA : CanonicalTwin :=
  ⟨5, 0, 1, "jira", "issue", "10042", some "CAD-42", none, none, none, .synced, [], [], none, none, none⟩

def issueOfB (externalId : String) : ExternalRecordPayload :=
  ⟨externalId, "issue", "Slow checkout", none, none, "To Do", [], none, 0, none⟩

def failedAttempt (n : Nat) : List ConnectorAction :=
  [.claimEntry n 0 siteB 20 "w" 0 0, .failEntry n (.other "already managed") ⟨0, 0⟩]

def deadRecord (externalId : String) : List ConnectorAction :=
  .accept 0 siteB "issue" ⟨20, "k", none, issueOfB externalId⟩ :: (List.range 5).flatMap failedAttempt

end Cadena.Connectors
