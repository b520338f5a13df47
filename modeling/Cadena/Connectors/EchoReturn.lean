import Cadena.Connectors.IngestionOrder
import Cadena.Connectors.PickedFields
import Cadena.Connectors.PropagationDelivery

/-!
# The return of an executed write

`executeWorkOrder` tells the guard what it wrote; the next ingestion of the
target twin brings the written values back as a twin event. The guard
recognises the event when the payload built from the event has the text of
the payload that was recorded: one is cut out of the record by the published
mappings, the other is the order's own state and fields.
-/

namespace Cadena.Connectors

open Cadena.Base Cadena.Audit Cadena.Integrations

/-! ## The two payloads -/

def echoEntries (state : Option String) (fields : Fields) : Fields :=
  (match state with
    | some s => if s = "" then [] else [("state", .str s)]
    | none => [])
  ++ (if fields.isEmpty then [] else [("fields", .obj fields)])

theorem echoPayload_eq (state : Option String) (fields : Fields) :
    echoPayload state fields = .obj (echoEntries state fields) := rfl

theorem echoEntries_eq (state : Option String) (fields : Fields) :
    echoEntries state fields =
      (orNull state).toList.map (fun s => ("state", .str s))
        ++ (if fields.isEmpty then [] else [("fields", .obj fields)]) := by
  unfold echoEntries orNull truthy
  cases state with
  | none => rfl
  | some s => by_cases hs : s = "" <;> simp [hs]

theorem echoEntries_distinct (state : Option String) (fields : Fields) :
    DistinctKeys (echoEntries state fields) := by
  rw [DistinctKeys, echoEntries_eq]
  cases orNull state <;> cases fields <;> simp

theorem lookup_echo_state (state : Option String) (fields : Fields) :
    lookup (echoEntries state fields) "state" = (orNull state).map .str := by
  rw [echoEntries_eq]
  cases orNull state <;> cases fields <;> rfl

theorem lookup_echo_fields (state : Option String) (fields : Fields) :
    lookup (echoEntries state fields) "fields" =
      if fields.isEmpty then none else some (.obj fields) := by
  rw [echoEntries_eq]
  cases orNull state <;> cases fields <;> rfl

theorem lookup_echo_other {key : String} (hs : key ≠ "state") (hf : key ≠ "fields")
    (state : Option String) (fields : Fields) :
    lookup (echoEntries state fields) key = none := by
  rw [echoEntries_eq]
  cases orNull state <;> cases fields <;> simp [lookup, hs.symm, hf.symm]

theorem isEmpty_iff_lookup {fields : Fields} :
    fields.isEmpty = true ↔ ∀ key, lookup fields key = none := by
  constructor
  · intro h key
    rw [List.isEmpty_iff.mp h]
    rfl
  · intro h
    cases fields with
    | nil => rfl
    | cons e es => exact absurd rfl (lookup_eq_none.mp (h e.1) e (List.mem_cons_self))

theorem echoPayload_text_iff {s t : Option String} {f g : Fields} (hf : DistinctKeys f)
    (hg : DistinctKeys g) :
    stableStringify (echoPayload s f) = stableStringify (echoPayload t g) ↔
      orNull s = orNull t ∧ ∀ key, (lookup f key).map canon = (lookup g key).map canon := by
  rw [echoPayload_eq, echoPayload_eq,
    stableStringify_obj_eq_iff (echoEntries_distinct s f) (echoEntries_distinct t g)]
  have hnone : ∀ h : Fields, h.isEmpty = true ↔ ∀ key, (lookup h key).map canon = none := by
    intro h
    rw [isEmpty_iff_lookup]
    exact forall_congr' fun key => Option.map_eq_none_iff.symm
  have hempty : (∀ key, (lookup f key).map canon = (lookup g key).map canon) →
      (f.isEmpty = true ↔ g.isEmpty = true) := by
    intro h
    rw [hnone, hnone]
    exact forall_congr' fun key => by rw [h key]
  have hobj : canon (.obj f) = canon (.obj g) ↔
      ∀ key, (lookup f key).map canon = (lookup g key).map canon := by
    rw [← stableStringify_inj, stableStringify_obj_eq_iff hf hg]
  constructor
  · intro h
    have hstate := h "state"
    rw [lookup_echo_state, lookup_echo_state] at hstate
    have hfields := h "fields"
    rw [lookup_echo_fields, lookup_echo_fields] at hfields
    refine ⟨?_, ?_⟩
    · cases hs : orNull s <;> cases ht : orNull t <;> simp_all [canon]
    · by_cases hfe : f.isEmpty = true
      · have hge : g.isEmpty = true := by
          by_contra hge
          simp [hfe, hge] at hfields
        rw [List.isEmpty_iff.mp hfe, List.isEmpty_iff.mp hge]
        exact fun _ => rfl
      · by_cases hge : g.isEmpty = true
        · simp [hfe, hge] at hfields
        · rw [if_neg hfe, if_neg hge, Option.map_some, Option.map_some,
            Option.some.injEq] at hfields
          exact hobj.mp hfields
  · rintro ⟨hstate, hfields⟩ key
    by_cases hks : key = "state"
    · rw [hks, lookup_echo_state, lookup_echo_state, hstate]
    · by_cases hkf : key = "fields"
      · rw [hkf, lookup_echo_fields, lookup_echo_fields]
        by_cases hfe : f.isEmpty = true
        · rw [if_pos hfe, if_pos ((hempty hfields).mp hfe)]
        · rw [if_neg hfe, if_neg (mt (hempty hfields).mpr hfe), Option.map_some,
            Option.map_some, hobj.mpr hfields]
      · rw [lookup_echo_other hks hkf, lookup_echo_other hks hkf]

/-! ## The statement -/

/-- What `executeWorkOrder` wrote: the state and the fields it ended up with. -/
structure ExecutedWrite where
  targetState : Option String
  fields : Fields
  distinct : DistinctKeys fields

/-- What the guard is told of the write. -/
def ExecutedWrite.dto (write : ExecutedWrite) (target : ConnectorRecord) (work : WorkOrder) :
    RecordIntegrationWriteDto where
  identity := ⟨target.provider, work.targetEntityType, work.targetExternalId⟩
  serviceAccountId := "connector:" ++ String.ofList (uuidText target.id)
  payload := echoPayload write.targetState write.fields

/-- The row of the twin is found by its key and by its id, and holds the
record as it was last ingested. -/
structure Mirrors (P : Platform) (orgId : Uuid) (connector : ConnectorRecord)
    (s : IngestState) (prior : CanonicalTwin) (old : ExternalRecordPayload) : Prop where
  accepted : Accepted P connector old
  byKey : s.twins.find? (twinKeyMatches orgId connector old) = some prior
  byId : s.twins.find? (fun t => t.id = prior.id && t.orgId = orgId) = some prior
  owner : prior.connectorId = connector.id
  status : prior.nativeStatus = some old.status
  payload : prior.payload = old.fields
  hash : prior.contentHash = some (contentHash P old)
  stamp : prior.sourceUpdatedAt = some old.updatedAt

/-- The next version of the record: the written state and the written
values, and nothing else but a later stamp and its author. -/
structure ShowsWrite (write : ExecutedWrite) (old new : ExternalRecordPayload) : Prop where
  status : new.status = if truthy write.targetState then write.targetState.getD "" else old.status
  fields : ∀ key, lookup new.fields key = (lookup write.fields key).or (lookup old.fields key)
  rest : new = { old with
    status := new.status, fields := new.fields
    updatedAt := new.updatedAt, updatedBy := new.updatedBy }
  later : old.updatedAt ≤ new.updatedAt

/-- The event that the ingestion of the record commits, if it announces a
change, finds its twin; the payload made of it has the text of what was
recorded, the guard suppresses it, and the queue stays as it is. The
event may be delivered in any state in which the tables are as the
ingestion left them and the write is the last the guard stored of the node. -/
def Recognised (P : Platform) (orgId : Uuid) (connector : ConnectorRecord) (ids : FreshIds)
    (mappings : List FieldMappingDefinition) (new : ExternalRecordPayload) (s : IngestState)
    (recorded : Json) (nodeId : Uuid) (guard : GuardState) : Prop :=
  ∀ outcome after event,
    processRecord P orgId connector ids new s = .ok (outcome, after, some event) →
    ¬ (event.payload.stateChanged = some false ∧ event.payload.fieldsChanged = some false) →
    ∀ (st : PropagationState) (a : Attempt), st.queue.db.twins = after.twins →
      st.nodes = after.nodes → st.mappings = mappings →
      st.guard.snapshots (orgId, nodeId) = guard.snapshots (orgId, nodeId) →
      ∃ source, sourceOf event st = some (orgId, source) ∧
        (let dto := echoCheck st.mappings event (propagationInput event orgId source)
         stableStringify dto.payload = stableStringify recorded ∧
         ∃ decision guard', evaluateWebhook P st.nodes orgId dto a.now st.guard
            = .ok (decision, guard') ∧ decision.suppressed = true) ∧
        (acceptPropagationEvent P event a st).2.queue = st.queue

/-- The ingestion has nothing to announce. -/
def Unannounced (P : Platform) (old new : ExternalRecordPayload) : Prop :=
  contentHash P new = contentHash P old ∨
    (sameState P (some old.status) (some new.status) = true ∧
      fieldsDiffer old.fields new.fields = false)

def StateCovered (P : Platform) (write : ExecutedWrite) (old : ExternalRecordPayload) : Prop :=
  truthy write.targetState = true → sameState P (some old.status) write.targetState = false

/-- The written fields are the fields that the mappings can write, as far as
the record has them. -/
def FieldsCovered (names : List String) (write : ExecutedWrite)
    (old : ExternalRecordPayload) : Prop :=
  (∀ key ∈ write.fields.map (·.1), key ∈ names) ∧
    ∀ name ∈ names, name ∈ old.fields.map (·.1) → name ∈ write.fields.map (·.1)

/-- The actor that the event names. -/
def returnActor (connector : ConnectorRecord) (new : ExternalRecordPayload) : String :=
  firstText [new.updatedBy, some (connector.provider ++ ":unattributed")]

def ActorAccepted (connector : ConnectorRecord) (new : ExternalRecordPayload) : Prop :=
  (requiredText (returnActor connector new) "actor_id" 256).isOk = true

/-! ## The guard after the write -/

theorem observe_ok_iff {P : Platform} {nodes : List SyncNode} {orgId : Uuid}
    {identity : SyncIdentity} {field actorId : String} {payload : Json} {o : Observation} :
    observe P nodes orgId identity field actorId payload = .ok o ↔
      ∃ i a p n, normalizeIdentity P identity = .ok i ∧
        requiredText actorId field 256 = .ok a ∧ normalizePayload payload = .ok p ∧
        requireNode nodes orgId i = .ok n ∧ o = ⟨i, a, p, hashPayload P p, n⟩ := by
  unfold observe
  cases hi : normalizeIdentity P identity with
  | error e => simp [bind, Except.bind]
  | ok i =>
    cases ha : requiredText actorId field 256 with
    | error e => simp [bind, Except.bind]
    | ok a =>
      cases hp : normalizePayload payload with
      | error e => simp [bind, Except.bind]
      | ok p =>
        cases hn : requireNode nodes orgId i with
        | error e => simp [bind, Except.bind, hn]
        | ok n => simp [bind, Except.bind, pure, Except.pure, hn, eq_comm]

theorem requireNode_append {nodes more : List SyncNode} {orgId : Uuid}
    {identity : SyncIdentity} {node : SyncNode}
    (h : requireNode nodes orgId identity = .ok node) :
    requireNode (nodes ++ more) orgId identity = .ok node := by
  unfold requireNode at h ⊢
  cases hf : nodes.find? fun n => n.orgId = orgId && n.identity = identity with
  | none => simp [hf] at h
  | some found =>
    rw [List.find?_append, hf]
    simpa [hf] using h

theorem recordIntegrationWrite_ok {P : Platform} {nodes : List SyncNode} {orgId : Uuid}
    {dto : RecordIntegrationWriteDto} {now : Millis} {s guard : GuardState}
    {receipt : RecordedWrite}
    (h : recordIntegrationWrite P nodes orgId dto now s = .ok (receipt, guard)) :
    ∃ i node, normalizeIdentity P dto.identity = .ok i ∧
      requireNode nodes orgId i = .ok node ∧ receipt.nodeId = node.id ∧
      ∃ p, normalizePayload dto.payload = .ok p ∧
        guard.snapshots (orgId, node.id) = some ⟨hashPayload P p, p⟩ := by
  unfold recordIntegrationWrite at h
  cases ho : observe P nodes orgId dto.identity "service_account_id" dto.serviceAccountId
      dto.payload with
  | error e => simp [ho, bind, Except.bind] at h
  | ok o =>
    simp only [ho, bind, Except.bind, pure, Except.pure, Except.ok.injEq,
      Prod.mk.injEq] at h
    obtain ⟨rfl, rfl⟩ := h
    obtain ⟨i, a, p, n, hi, -, hp, hn, rfl⟩ := observe_ok_iff.mp ho
    refine ⟨i, n, hi, hn, rfl, p, hp, ?_⟩
    simp [GuardState.setMarker, GuardState.pruneExpired, GuardState.saveSnapshot]

/-- What was recorded is recognised when it comes back under the same text,
whoever is named as its author; what comes back without a valid author is
not evaluated at all. -/
theorem evaluateWebhook_after_write {P : Platform} {nodes more : List SyncNode} {orgId : Uuid}
    {dto : RecordIntegrationWriteDto} {now later : Millis} {s guard t : GuardState}
    {receipt : RecordedWrite} {back : EvaluateSyncWebhookDto} {es ds : Fields}
    (h : recordIntegrationWrite P nodes orgId dto now s = .ok (receipt, guard))
    (hkept : t.snapshots (orgId, receipt.nodeId) = guard.snapshots (orgId, receipt.nodeId))
    (hidentity : back.identity = dto.identity) (hdto : dto.payload = .obj es)
    (hback : back.payload = .obj ds)
    (htext : stableStringify back.payload = stableStringify dto.payload) :
    (∃ decision t', evaluateWebhook P (nodes ++ more) orgId back later t = .ok (decision, t') ∧
        decision.suppressed = true) ↔
      (requiredText back.actorId "actor_id" 256).isOk = true := by
  obtain ⟨i, node, hi, hnode, hid, p, hp, hsnap⟩ := recordIntegrationWrite_ok h
  rw [hdto, normalizePayload, Except.ok.injEq] at hp
  constructor
  · rintro ⟨decision, t', hok, -⟩
    obtain ⟨o, ho, -⟩ := evaluateWebhook_ok hok
    obtain ⟨-, a, -, -, -, ha, -⟩ := observe_ok_iff.mp ho
    rw [ha]
    rfl
  · intro hactor
    obtain ⟨a, ha⟩ : ∃ a, requiredText back.actorId "actor_id" 256 = .ok a := by
      cases hr : requiredText back.actorId "actor_id" 256 with
      | error e => rw [hr] at hactor; cases hactor
      | ok a => exact ⟨a, rfl⟩
    have hobs : observe P (nodes ++ more) orgId back.identity "actor_id" back.actorId
        back.payload = .ok ⟨i, a, .obj ds, hashPayload P (.obj ds), node⟩ :=
      observe_ok_iff.mpr ⟨i, a, .obj ds, node, hidentity ▸ hi, ha, by rw [hback]; rfl,
        requireNode_append hnode, rfl⟩
    have hmatch : matchesSnapshot t orgId ⟨i, a, .obj ds, hashPayload P (.obj ds), node⟩
        = true := by
      rw [hid] at hkept
      rw [hback, hdto] at htext
      simp only [matchesSnapshot, hkept, hsnap, ← hp, hashPayload, htext, beq_self_eq_true,
        Bool.and_self]
    refine ⟨_, _, by
      unfold evaluateWebhook
      simp only [hobs, bind, Except.bind, pure, Except.pure]
      rfl, ?_⟩
    exact decide_eq_true (evaluateObserved_suppressed_iff.mpr (.inr hmatch))

/-! ## The ingestion of what was written -/

theorem upsertNode_nodes (nodes : List SyncNode) (orgId : Uuid) (identity : SyncIdentity)
    (newId : Uuid) : ∃ more, (upsertNode nodes orgId identity newId).2 = nodes ++ more := by
  unfold upsertNode
  cases nodes.find? fun n => n.orgId = orgId && n.identity = identity with
  | none => exact ⟨_, rfl⟩
  | some node => exact ⟨[], (List.append_nil nodes).symm⟩

theorem find_update {p : CanonicalTwin → Bool} {f : CanonicalTwin → CanonicalTwin}
    (hf : ∀ t, p (f t) = p t) {ts : List CanonicalTwin} {t : CanonicalTwin}
    (h : ts.find? p = some t) : (Table.update p f ts).find? p = some (f t) := by
  have hp : p t = true := List.find?_some h
  have hcomp : (p ∘ fun r => if p r = true then f r else r) = p := by
    funext r
    by_cases hr : p r = true
    · simp [Function.comp, hr, hf]
    · simp [Function.comp, hr]
  rw [Table.update, List.find?_map, hcomp, h, Option.map_some, if_pos hp]

section Return

variable {P : Platform} {orgId : Uuid} {connector : ConnectorRecord} {ids : FreshIds}
  {s : IngestState} {prior : CanonicalTwin} {old new : ExternalRecordPayload}
  {write : ExecutedWrite} {mappings : List FieldMappingDefinition}

theorem ShowsWrite.identity (h : ShowsWrite write old new) :
    new.artifactType = old.artifactType ∧ new.externalId = old.externalId ∧
      new.nativeKey = old.nativeKey ∧ new.nativeUrl = old.nativeUrl := by
  rw [h.rest]
  exact ⟨rfl, rfl, rfl, rfl⟩

def returnEvent (P : Platform) (orgId : Uuid) (connector : ConnectorRecord) (ids : FreshIds)
    (prior : CanonicalTwin) (new : ExternalRecordPayload) : TwinEvent :=
  recordEvent P orgId connector new (some prior) ids.event prior.id

theorem processRecord_returned (ids : FreshIds) (hm : Mirrors P orgId connector s prior old)
    (hs : ShowsWrite write old new) :
    (contentHash P new = contentHash P old ∧
      processRecord P orgId connector ids new s = .ok (.unchanged, s, none)) ∨
    (contentHash P new ≠ contentHash P old ∧ ∃ nodeId more,
      processRecord P orgId connector ids new s = .ok (.updated,
        { s with
          twins := Table.update (fun t => t.id = prior.id && t.orgId = orgId)
            (applyRecord P new nodeId) s.twins
          nodes := s.nodes ++ more },
        some (returnEvent P orgId connector ids prior new))) := by
  obtain ⟨htype, hid, hkey, hurl⟩ := hs.identity
  obtain ⟨hne, hok⟩ := hm.accepted
  have hmatch : twinKeyMatches orgId connector new = twinKeyMatches orgId connector old := by
    funext t
    rw [twinKeyMatches, twinKeyMatches, htype, hid]
  have hstale : isStale prior new = false := by
    rw [isStale, hm.stamp]
    exact decide_eq_false (Int.not_lt.mpr hs.later)
  have hfind : s.twins.find? (twinKeyMatches orgId connector new) = some prior :=
    hmatch ▸ hm.byKey
  unfold processRecord
  rw [if_neg (by rw [hid]; exact hne)]
  simp only [hfind, hm.owner, ne_eq, not_true_eq_false, if_false, hstale, Bool.false_eq_true,
    hm.hash, Option.some.injEq]
  by_cases hsame : contentHash P new = contentHash P old
  · left
    rw [if_pos hsame.symm]
    exact ⟨hsame, rfl⟩
  · right
    rw [if_neg (fun h => hsame h.symm)]
    refine ⟨hsame, ?_⟩
    cases hn : normalizeEntity P ⟨connector.provider, new.artifactType, new.externalId⟩
        (some (firstText [new.nativeKey, some new.externalId])) new.nativeUrl with
    | error e =>
      rw [htype, hid, hkey, hurl] at hn
      rw [hn] at hok
      cases hok
    | ok normalized =>
      obtain ⟨more, hmore⟩ := upsertNode_nodes s.nodes orgId normalized ids.node
      exact ⟨_, more, by simp only [hmore]; rfl⟩

theorem firstText_returnActor (other : Option String) :
    firstText [some (returnActor connector new), other] = returnActor connector new := by
  have hfallback : connector.provider ++ ":unattributed" ≠ "" := by
    intro h
    have hlen := congrArg String.length h
    simp [String.length_append] at hlen
  have hne : returnActor connector new ≠ "" := by
    unfold returnActor
    cases hup : new.updatedBy with
    | none => simp [firstText, truthy, hfallback]
    | some author =>
      by_cases hauthor : author = ""
      · simp [firstText, truthy, hauthor, hfallback]
      · simp [firstText, truthy, hauthor]
  unfold firstText
  rw [List.find?_cons_of_pos (by simpa [truthy] using hne)]
  rfl

/-- The guard is asked for the state if it moved and for the record's values
under the names that the mappings write. -/
theorem echoCheck_returned (hm : Mirrors P orgId connector s prior old) (nodeId : Uuid)
    (hkey : twinKeyMatches orgId connector new prior = true) :
    echoCheck mappings (returnEvent P orgId connector ids prior new)
        (propagationInput (returnEvent P orgId connector ids prior new) orgId
          (applyRecord P new nodeId prior)) =
      { identity := ⟨connector.provider, new.artifactType, new.externalId⟩
        actorId := returnActor connector new
        payload := echoPayload
          (if sameState P (some old.status) (some new.status) then none else some new.status)
          (pickPaths new.fields
            (writtenFieldNames mappings orgId ⟨connector.provider, new.artifactType⟩)) } := by
  obtain ⟨-, hprovider, htype, -⟩ := twinKeyMatches_columns.mp hkey
  have hstate : firstText [some new.status, none, some new.status] = new.status := by
    by_cases hstatus : new.status = "" <;> simp [firstText, truthy, hstatus]
  unfold echoCheck propagationInput returnEvent recordEvent
  simp only [applyRecord, Option.getD_some, hm.status, hstate, hprovider, htype]
  rw [← returnActor, firstText_returnActor]
  cases sameState P (some old.status) (some new.status) <;> rfl

/-! ## When the two payloads agree -/

theorem truthy_iff {value : Option String} : truthy value = true ↔ ∃ s, value = some s ∧ s ≠ "" := by
  cases value with
  | none => simp [truthy]
  | some s => simp [truthy]

theorem states_agree_iff (hs : ShowsWrite write old new) :
    orNull (if sameState P (some old.status) (some new.status) then none else some new.status)
        = orNull write.targetState ↔ StateCovered P write old := by
  have hstatus := hs.status
  unfold StateCovered
  by_cases ht : truthy write.targetState = true
  · obtain ⟨state, hstate, hne⟩ := truthy_iff.mp ht
    rw [if_pos ht, hstate, Option.getD_some] at hstatus
    rw [hstate, hstatus]
    cases hsame : sameState P (some old.status) (some state) with
    | true => simp [orNull, truthy, hne]
    | false => simp
  · rw [if_neg ht] at hstatus
    have hrefl : sameState P (some old.status) (some new.status) = true := by
      rw [hstatus]
      simp [sameState]
    have hnone : orNull write.targetState = none := by
      rw [orNull, if_neg ht]
    rw [hrefl, hnone, if_pos rfl]
    exact iff_of_true rfl fun h => absurd h ht

theorem fields_agree_iff {names : List String} (hnames : ∀ n ∈ names, DotFree n)
    (hs : ShowsWrite write old new) :
    (∀ key, (lookup (pickPaths new.fields names) key).map canon
        = (lookup write.fields key).map canon) ↔ FieldsCovered names write old := by
  have hpick : ∀ key, lookup (pickPaths new.fields names) key =
      if key ∈ names then (lookup write.fields key).or (lookup old.fields key) else none := by
    intro key
    rw [lookup_pickPaths hnames, hs.fields]
  have hpresent : ∀ (es : Fields) key, key ∈ es.map (·.1) ↔ lookup es key ≠ none := by
    intro es key
    rw [← lookup_isSome, Option.isSome_iff_ne_none]
  unfold FieldsCovered
  constructor
  · intro h
    refine ⟨fun key hkey => ?_, fun name hname hold => ?_⟩
    · by_contra hnot
      have hk := h key
      rw [hpick, if_neg hnot, Option.map_none, eq_comm, Option.map_eq_none_iff] at hk
      exact (hpresent _ _).mp hkey hk
    · rw [hpresent] at hold ⊢
      intro hnone
      have hk := h name
      rw [hpick, if_pos hname, hnone, Option.none_or, Option.map_none,
        Option.map_eq_none_iff] at hk
      exact hold hk
  · rintro ⟨hwritten, hkept⟩ key
    rw [hpick]
    by_cases hkey : key ∈ names
    · rw [if_pos hkey]
      cases hw : lookup write.fields key with
      | some value => rfl
      | none =>
        have hold : lookup old.fields key = none := by
          by_contra hold
          exact (hpresent _ _).mp (hkept key hkey ((hpresent _ _).mpr hold)) hw
        rw [hold]
        rfl
    · rw [if_neg hkey]
      have hw : lookup write.fields key = none := by
        by_contra hw
        exact hkey (hwritten key ((hpresent _ _).mpr hw))
      rw [hw]

theorem accept_suppressed {event : TwinEvent} {a : Attempt} {st : PropagationState}
    {source : CanonicalTwin} {decision : SyncGuardDecision} {guard : GuardState}
    (htype : event.eventType ≠ .connectorOperatorStateWritten)
    (hsource : sourceOf event st = some (orgId, source))
    (hok : evaluateWebhook P st.nodes orgId
      (echoCheck st.mappings event (propagationInput event orgId source)) a.now st.guard
        = .ok (decision, guard)) (hsuppressed : decision.suppressed = true) :
    (acceptPropagationEvent P event a st).2.queue = st.queue := by
  unfold sourceOf at hsource
  unfold acceptPropagationEvent
  cases horg : event.payload.orgId with
  | none => rfl
  | some org =>
    cases htwin : event.payload.twinId.or event.workItemId with
    | none => rfl
    | some twinId =>
      simp only [horg, htwin, Option.map_eq_some_iff, Prod.mk.injEq] at hsource
      obtain ⟨t, hfind, rfl, rfl⟩ := hsource
      have hnodes : (openReceipt st event org twinId).nodes = st.nodes := by
        unfold openReceipt
        split <;> rfl
      have hmappings : (openReceipt st event org twinId).mappings = st.mappings := by
        unfold openReceipt
        split <;> rfl
      have hguard : (openReceipt st event org twinId).guard = st.guard := by
        unfold openReceipt
        split <;> rfl
      have hqueue : (openReceipt st event org twinId).queue = st.queue := by
        unfold openReceipt
        split <;> rfl
      simp only [hfind, if_neg htype, hnodes, hmappings, hguard, hok, hsuppressed, if_true]
      split
      · rfl
      · split
        · rfl
        · split
          · exact hqueue
          · exact hqueue

/-! ## The exact condition -/

variable (ids) in
theorem returnEvent_source (hm : Mirrors P orgId connector s prior old) {nodeId : Uuid}
    {st : PropagationState}
    (htwins : st.queue.db.twins = Table.update (fun t => t.id = prior.id && t.orgId = orgId)
      (applyRecord P new nodeId) s.twins) :
    sourceOf (returnEvent P orgId connector ids prior new) st =
      some (orgId, applyRecord P new nodeId prior) := by
  have hfind := find_update (f := applyRecord P new nodeId) (fun _ => rfl) hm.byId
  show (st.queue.db.twins.find? fun t => t.id = prior.id && t.orgId = orgId).map _ = _
  rw [htwins, hfind]
  rfl

theorem returnEvent_announces_iff (hm : Mirrors P orgId connector s prior old) :
    (let event := returnEvent P orgId connector ids prior new
     event.payload.stateChanged = some false ∧ event.payload.fieldsChanged = some false) ↔
      sameState P (some old.status) (some new.status) = true ∧
        fieldsDiffer old.fields new.fields = false := by
  simp only [returnEvent, recordEvent, hm.status, hm.payload, Option.some.injEq,
    Bool.not_eq_false']

variable (ids mappings) in
theorem returnEvent_text_iff (hm : Mirrors P orgId connector s prior old)
    (hs : ShowsWrite write old new) (hkey : twinKeyMatches orgId connector new prior = true)
    (work : WorkOrder) (nodeId : Uuid) :
    stableStringify (echoCheck mappings (returnEvent P orgId connector ids prior new)
        (propagationInput (returnEvent P orgId connector ids prior new) orgId
          (applyRecord P new nodeId prior))).payload
      = stableStringify (write.dto connector work).payload ↔
      StateCovered P write old ∧
        FieldsCovered (writtenFieldNames mappings orgId
          ⟨connector.provider, old.artifactType⟩) write old := by
  have hnames : ∀ n ∈ writtenFieldNames mappings orgId ⟨connector.provider, new.artifactType⟩,
      DotFree n := writtenFieldNames_dotFree
  rw [echoCheck_returned hm nodeId hkey]
  show stableStringify (echoPayload _ _) = stableStringify (echoPayload _ _) ↔ _
  rw [echoPayload_text_iff (pickPaths_distinct hnames) write.distinct, states_agree_iff hs,
    fields_agree_iff hnames hs, hs.identity.1]

end Return

/-! ## A write that bounces -/

def serviceDesk : ConnectorRecord := ⟨3, "servicenow", "Service desk"⟩

def openIncident : ExternalRecordPayload where
  externalId := "INC1"
  artifactType := "incident"
  title := "Printer"
  nativeKey := none
  nativeUrl := none
  status := "New"
  fields := [("priority", .str "1"), ("caller", .str "ann")]
  fieldAuthority := none
  updatedAt := 0
  updatedBy := some "servicenow:ann"

def incidentTables : IngestState where
  twins := [newTwin .ascii 1 serviceDesk openIncident 6 101]
  nodes := [⟨101, 1, ⟨"servicenow", "incident", "INC1"⟩⟩]
  connectors := [serviceDesk]

/-- The published mapping that writes the priority of an issue to the incident. -/
def priorityMapping : FieldMappingDefinition where
  orgId := 1
  source := ⟨"jira", "issue"⟩
  target := ⟨"servicenow", "incident"⟩
  version := 1
  status := .published
  rules := [⟨.sourceToTarget, "priority", "priority", .direct⟩]

/-- An order that closes the incident and one that also sets its priority. -/
def closeIncident : ExecutedWrite := ⟨some "Closed", [], List.nodup_nil⟩

def closeWithPriority : ExecutedWrite :=
  ⟨some "Closed", [("priority", .str "2")], List.nodup_singleton _⟩

/-- The version in which the next ingestion finds the incident. -/
def shown (write : ExecutedWrite) : ExternalRecordPayload :=
  { openIncident with
    status := "Closed", fields := spread openIncident.fields write.fields
    updatedAt := 10, updatedBy := some "servicenow:cadena" }

def incidentOrder : WorkOrder :=
  NewWorkOrder.row
    { id := 40, orgId := 1, origin := .operatorEdit, sourceEventId := none, sourcePayload := []
      sourceConnectorId := none, targetConnectorId := 3, targetTwinId := 6
      targetEntityType := "incident", targetExternalId := "INC1", targetState := some "Closed"
      fields := [] } 1

theorem incident_mirrored :
    Mirrors .ascii 1 serviceDesk incidentTables
      (newTwin .ascii 1 serviceDesk openIncident 6 101) openIncident where
  accepted := by decide
  byKey := by rfl
  byId := by rfl
  owner := rfl
  status := rfl
  payload := rfl
  hash := rfl
  stamp := rfl

theorem closeIncident_shown : ShowsWrite closeIncident openIncident (shown closeIncident) where
  status := by decide
  fields _ := rfl
  rest := rfl
  later := by decide

theorem closeWithPriority_shown :
    ShowsWrite closeWithPriority openIncident (shown closeWithPriority) where
  status := by decide
  fields key := by
    show lookup (setKey openIncident.fields "priority" (.str "2")) key = _
    rw [lookup_setKey]
    by_cases hkey : key = "priority"
    · rw [if_pos hkey, hkey]
      rfl
    · rw [if_neg hkey]
      simp [closeWithPriority, lookup, eq_comm, hkey]
  rest := rfl
  later := by decide

def guardAfter (write : ExecutedWrite) : GuardState :=
  ((recordIntegrationWrite .ascii incidentTables.nodes 1 (write.dto serviceDesk incidentOrder) 0
    .empty).toOption.map (·.2)).getD .empty

theorem recorded_write (write : ExecutedWrite)
    (h : ((recordIntegrationWrite .ascii incidentTables.nodes 1
      (write.dto serviceDesk incidentOrder) 0 .empty).toOption.map (·.1.nodeId)) = some 101) :
    ∃ receipt, recordIntegrationWrite .ascii incidentTables.nodes 1
      (write.dto serviceDesk incidentOrder) 0 .empty = .ok (receipt, guardAfter write) ∧
      receipt.nodeId = 101 := by
  unfold guardAfter
  cases hr : recordIntegrationWrite .ascii incidentTables.nodes 1
      (write.dto serviceDesk incidentOrder) 0 .empty with
  | error e =>
    rw [hr] at h
    cases h
  | ok result =>
    rw [hr] at h
    exact ⟨result.1, rfl, Option.some.inj h⟩

/-- The event of the closed incident, delivered to a tenant in which the
incident is linked with a Jira issue. -/
def incidentClosed : TwinEvent :=
  returnEvent .ascii 1 serviceDesk ⟨7, 8, 9⟩ (newTwin .ascii 1 serviceDesk openIncident 6 101)
    (shown closeIncident)

def afterClosing : PropagationState :=
  { linkedPair with
    queue := emptyQueue [jiraIssue,
      applyRecord .ascii (shown closeIncident) 101
        (newTwin .ascii 1 serviceDesk openIncident 6 101)]
    nodes := incidentTables.nodes
    mappings := [priorityMapping]
    guard := guardAfter closeIncident }

end Cadena.Connectors
