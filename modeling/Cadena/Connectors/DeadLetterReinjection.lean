import Cadena.Connectors.IngestionQueue

/-!
# Re-injecting a dead letter

`listTwinDeadLetters` shows the dead and held entries of a connector, and
`reinjectTwinDeadLetter` puts one back. It writes the columns anew from what it
was shown: an order that is no propagation is shown without its source payload,
and an order that sets fields only has no target state to show.
-/

namespace Cadena.Connectors.DeadLetters

open Cadena.Base Cadena.Connectors Cadena.Integrations

/-- What an entry shows of its row, by its kind. -/
inductive DeadLetterPayload where
  | ingestion (record : ExternalRecordPayload)
  | stateTranslation (sourcePayload : Fields) (targetState : Option String) (fields : Fields)
  | stateWrite (targetState : Option String) (fields : Fields)

/-- An entry of the queue; `held` tells the status `held` from `dead`. -/
structure TwinQueueDeadLetter where
  id : Uuid
  twinId : Option Uuid
  partitionKey : String
  held : Bool
  payload : DeadLetterPayload
  attempts : Nat
  attemptHistory : List ConnectorQueueAttempt
  lastError : String
  queuePosition : Nat

/-! ## `listTwinDeadLetters` -/

def ingestionLetter (e : IngestionEntry) : TwinQueueDeadLetter where
  id := e.id
  twinId := e.twinId
  partitionKey := e.partitionKey
  held := false
  payload := .ingestion e.payload
  attempts := e.attempts
  attemptHistory := e.attemptHistory
  lastError := orText e.lastError "Ingestion failed"
  queuePosition := e.queuePosition

def orderPayload (w : WorkOrder) : DeadLetterPayload :=
  if w.origin = .statePropagation then .stateTranslation w.sourcePayload w.targetState w.fields
  else .stateWrite w.targetState w.fields

def orderLetter (P : Platform) (twin : CanonicalTwin) (w : WorkOrder) : TwinQueueDeadLetter where
  id := w.id
  twinId := some w.targetTwinId
  partitionKey := twinPartitionKey P twin.provider twin.artifactType w.targetExternalId
  held := w.status = .held
  payload := orderPayload w
  attempts := w.attempts
  attemptHistory := w.attemptHistory
  lastError := orText w.lastError "Queue entry requires operator review"
  queuePosition := w.queuePosition

def deadEntry (orgId connectorId : Uuid) (e : IngestionEntry) : Bool :=
  e.orgId = orgId && e.connectorId = connectorId && e.status = .dead

def stuckOrder (orgId connectorId : Uuid) (w : WorkOrder) : Bool :=
  w.orgId = orgId && w.targetConnectorId = connectorId && (w.status = .dead || w.status = .held)

def twinOfOrder (twins : List CanonicalTwin) (w : WorkOrder) : Option CanonicalTwin :=
  twins.find? fun t => t.id = w.targetTwinId && t.orgId = w.orgId

section
variable (P : Platform) (orgId : Uuid) (connector : ConnectorRecord)

def ingestionLetters (s : ConnectorState) : List TwinQueueDeadLetter :=
  (s.entries.filter (deadEntry orgId connector.id)).map ingestionLetter

def orderLetters (s : ConnectorState) : List TwinQueueDeadLetter :=
  (s.queue.db.orders.filter (stuckOrder orgId connector.id)).filterMap fun w =>
    (twinOfOrder s.queue.db.twins w).map fun t => orderLetter P t w

/-- The dead and held entries, in the order of the queue. -/
def listTwinDeadLetters (s : ConnectorState) : List TwinQueueDeadLetter :=
  (ingestionLetters orgId connector s ++ orderLetters P orgId connector s).insertionSort
    fun a b => a.queuePosition ≤ b.queuePosition

def getTwinDeadLetter (s : ConnectorState) (entryId : Uuid) : Option TwinQueueDeadLetter :=
  (listTwinDeadLetters P orgId connector s).find? fun entry => entry.id = entryId

/-! ## `reinjectTwinDeadLetter` -/

inductive ReinjectError where
  | notFound (message : String)
  | badRequest (message : String)
  deriving DecidableEq

def replayAttempt (entry : TwinQueueDeadLetter) (now : Millis) : ConnectorQueueAttempt :=
  ⟨entry.attempts, now, now, .requeued, none⟩

/-- An order that is put back: its fields are an object, and the identity in its
source payload is the one that was shown. -/
def reinjectOrder (s : ConnectorState) (entry : TwinQueueDeadLetter) (sourcePayload : Fields)
    (targetState : Option String) (fields : Fields) (history : List ConnectorQueueAttempt) :
    Except ReinjectError ConnectorState :=
  if orText targetState "" = "" then .error (.badRequest "payload.targetState must be a non-empty string")
  else
    match entry.twinId with
    -- the target twin of an order is never null
    | none => .ok s
    | some twinId =>
      .ok { s with queue := { s.queue with
        db := reinjectWorkOrder s.queue.db orgId connector.id entry.id twinId sourcePayload
          (orText targetState "") fields history false } }

def reinjectTwinDeadLetter (s : ConnectorState) (entryId : Uuid) (now : Millis) :
    Except ReinjectError ConnectorState :=
  match getTwinDeadLetter P orgId connector s entryId with
  | none => .error (.notFound ("Twin queue entry " ++ String.ofList (uuidText entryId) ++ " not found"))
  | some entry =>
    let history := entry.attemptHistory ++ [replayAttempt entry now]
    match entry.payload with
    | .ingestion record =>
      let externalId := trimString record.externalId
      let artifactType := trimString record.artifactType
      if externalId = "" || artifactType = "" then
        .error (.badRequest "ingestion payload requires externalId and artifactType")
      else if record.externalId ≠ "" && record.externalId ≠ externalId then
        .error (.badRequest "a corrected payload cannot change an existing immutable externalId")
      else if record.artifactType ≠ "" && record.artifactType ≠ artifactType then
        .error (.badRequest "a corrected payload cannot change artifactType")
      else .ok (reinjectEntryStep P s orgId connector entry.id entry.twinId record history)
    | .stateTranslation sourcePayload targetState fields =>
      reinjectOrder orgId connector s entry sourcePayload targetState fields history
    | .stateWrite targetState fields => reinjectOrder orgId connector s entry [] targetState fields history

end

/-- The row is pending again, with its attempts back, at its place in the queue
and with the content it had. -/
structure EntryRequeued (e e' : IngestionEntry) : Prop where
  id : e'.id = e.id
  status : e'.status = .pending
  attempts : e'.attempts = 0
  queuePosition : e'.queuePosition = e.queuePosition
  payload : e'.payload = e.payload

structure OrderRequeued (w w' : WorkOrder) : Prop where
  id : w'.id = w.id
  status : w'.status = .pending
  attempts : w'.attempts = 0
  queuePosition : w'.queuePosition = w.queuePosition
  targetState : w'.targetState = w.targetState
  fields : w'.fields = w.fields
  sourcePayload : w'.sourcePayload = w.sourcePayload

structure Requeued (s t : ConnectorState) (entryId : Uuid) : Prop where
  entries : ∀ e ∈ s.entries, e.id = entryId → ∃ e' ∈ t.entries, EntryRequeued e e'
  orders : ∀ w ∈ s.queue.db.orders, w.id = entryId → ∃ w' ∈ t.queue.db.orders, OrderRequeued w w'

/-- The record names its external id and type, with no blanks around them. -/
def Identified (record : ExternalRecordPayload) : Prop :=
  (record.externalId ≠ "" ∧ trimString record.externalId = record.externalId) ∧
    record.artifactType ≠ "" ∧ trimString record.artifactType = record.artifactType

instance (record : ExternalRecordPayload) : Decidable (Identified record) :=
  inferInstanceAs (Decidable (_ ∧ _))

/-- The order sets a state, and what it carries of its source is shown. -/
def ShownWhole (w : WorkOrder) : Prop :=
  truthy w.targetState = true ∧ (w.origin = .statePropagation ∨ w.sourcePayload = [])

instance (w : WorkOrder) : Decidable (ShownWhole w) := inferInstanceAs (Decidable (_ ∧ _))

/-- The primary keys; ids are random, so the tables share none. -/
def KeysDiffer (s : ConnectorState) : Prop :=
  (s.entries.map (·.id) ++ s.queue.db.orders.map (·.id)).Nodup

section
variable {P : Platform} {orgId : Uuid} {connector : ConnectorRecord} {s t : ConnectorState} {now : Millis}

theorem mem_listTwinDeadLetters {entry : TwinQueueDeadLetter} :
    entry ∈ listTwinDeadLetters P orgId connector s ↔
      (∃ e ∈ s.entries, deadEntry orgId connector.id e = true ∧ entry = ingestionLetter e) ∨
        ∃ w ∈ s.queue.db.orders, stuckOrder orgId connector.id w = true ∧
          ∃ twin, twinOfOrder s.queue.db.twins w = some twin ∧ entry = orderLetter P twin w := by
  rw [listTwinDeadLetters, (List.perm_insertionSort _ _).mem_iff, List.mem_append]
  refine or_congr ?_ ?_
  · simp only [ingestionLetters, List.mem_map, List.mem_filter, and_assoc, eq_comm]
  · simp only [orderLetters, List.mem_filterMap, List.mem_filter, Option.map_eq_some_iff, and_assoc,
      eq_comm (b := entry)]

theorem KeysDiffer.entry (h : KeysDiffer s) {e e' : IngestionEntry} (he : e ∈ s.entries) (he' : e' ∈ s.entries)
    (hid : e.id = e'.id) : e = e' :=
  Table.eq_of_key (List.nodup_append.mp h).1 he he' hid

variable {w : WorkOrder}

theorem KeysDiffer.order (h : KeysDiffer s) {w' : WorkOrder} (hw : w ∈ s.queue.db.orders)
    (hw' : w' ∈ s.queue.db.orders) (hid : w.id = w'.id) : w = w' :=
  Table.eq_of_key (List.nodup_append.mp h).2.1 hw hw' hid

theorem KeysDiffer.apart (h : KeysDiffer s) {e : IngestionEntry} (he : e ∈ s.entries)
    (hw : w ∈ s.queue.db.orders) : e.id ≠ w.id :=
  (List.nodup_append.mp h).2.2 _ (List.mem_map_of_mem he) _ (List.mem_map_of_mem hw)

theorem KeysDiffer.letter (h : KeysDiffer s) {x y : TwinQueueDeadLetter}
    (hx : x ∈ listTwinDeadLetters P orgId connector s) (hy : y ∈ listTwinDeadLetters P orgId connector s)
    (hid : x.id = y.id) : x = y := by
  rcases mem_listTwinDeadLetters.mp hx with ⟨e, he, -, rfl⟩ | ⟨w, hw, -, twin, htwin, rfl⟩ <;>
    rcases mem_listTwinDeadLetters.mp hy with ⟨e', he', -, rfl⟩ | ⟨w', hw', -, twin', htwin', rfl⟩
  · rw [h.entry he he' hid]
  · exact absurd hid (h.apart he hw')
  · exact absurd hid.symm (h.apart he' hw)
  · obtain rfl := h.order hw hw' hid
    rw [htwin] at htwin'
    rw [Option.some.inj htwin']

theorem KeysDiffer.found (h : KeysDiffer s) {entry : TwinQueueDeadLetter}
    (hentry : entry ∈ listTwinDeadLetters P orgId connector s) :
    getTwinDeadLetter P orgId connector s entry.id = some entry := by
  rw [getTwinDeadLetter]
  cases hfind : (listTwinDeadLetters P orgId connector s).find? fun x => x.id = entry.id with
  | none => exact absurd (decide_eq_true rfl) (List.find?_eq_none.mp hfind entry hentry)
  | some x =>
    have hid : x.id = entry.id := by simpa using List.find?_some hfind
    rw [h.letter (List.mem_of_find?_eq_some hfind) hentry hid]

/-! ## What is written -/

theorem identified_iff {record : ExternalRecordPayload} :
    Identified record ↔
      ¬ (trimString record.externalId = "" || trimString record.artifactType = "") = true ∧
      ¬ (record.externalId ≠ "" && record.externalId ≠ trimString record.externalId) = true ∧
      ¬ (record.artifactType ≠ "" && record.artifactType ≠ trimString record.artifactType) = true := by
  have hempty : trimString "" = "" := rfl
  simp only [Identified, Bool.or_eq_true, Bool.and_eq_true, decide_eq_true_eq, not_or, not_and, not_not, ne_eq]
  constructor
  · rintro ⟨⟨hid, htrim⟩, htype, htrim'⟩
    rw [htrim, htrim']
    exact ⟨⟨hid, htype⟩, fun _ => rfl, fun _ => rfl⟩
  · rintro ⟨⟨hid, htype⟩, htrim, htrim'⟩
    have hid' : record.externalId ≠ "" := fun he => hid (by rw [he, hempty])
    have htype' : record.artifactType ≠ "" := fun he => htype (by rw [he, hempty])
    exact ⟨⟨hid', (htrim hid').symm⟩, htype', (htrim' htype').symm⟩

/-- A record is put back as it was, if its identity passes the checks. -/
theorem reinject_entry_iff (h : KeysDiffer s) {e : IngestionEntry} (he : e ∈ s.entries)
    (hdead : deadEntry orgId connector.id e = true)
    (hfound : getTwinDeadLetter P orgId connector s e.id = some (ingestionLetter e)) :
    (∃ t, reinjectTwinDeadLetter P orgId connector s e.id now = .ok t ∧ Requeued s t e.id) ↔
      Identified e.payload := by
  have hcall : Identified e.payload → reinjectTwinDeadLetter P orgId connector s e.id now =
      .ok (reinjectEntryStep P s orgId connector e.id e.twinId e.payload
        (e.attemptHistory ++ [replayAttempt (ingestionLetter e) now])) := by
    intro hid
    obtain ⟨hnamed, hsame, hsame'⟩ := identified_iff.mp hid
    simp only [reinjectTwinDeadLetter, hfound, ingestionLetter]
    rw [if_neg hnamed, if_neg hsame, if_neg hsame']
  constructor
  · rintro ⟨t, ht, -⟩
    rw [identified_iff]
    simp only [reinjectTwinDeadLetter, hfound, ingestionLetter] at ht
    split at ht
    · cases ht
    · rename_i hnamed
      split at ht
      · cases ht
      · rename_i hsame
        split at ht
        · cases ht
        · rename_i hsame'
          exact ⟨hnamed, hsame, hsame'⟩
  · intro hid
    refine ⟨_, hcall hid, fun e' he' hid' => ?_, fun w hw hid' => absurd hid'.symm (h.apart he hw)⟩
    obtain rfl := h.entry he' he hid'
    refine ⟨Connectors.reinjectEntry P connector e'.payload
      (e'.attemptHistory ++ [replayAttempt (ingestionLetter e') now]) e', ?_, ⟨rfl, rfl, rfl, rfl, rfl⟩⟩
    have hentries : ∀ history twinId,
        (reinjectEntryStep P s orgId connector e'.id twinId e'.payload history).entries = Table.update
          (fun e => e.id = e'.id && e.orgId = orgId && e.connectorId = connector.id && e.status = .dead)
          (Connectors.reinjectEntry P connector e'.payload history) s.entries := by
      intro history twinId
      unfold reinjectEntryStep
      cases twinId <;> rfl
    rw [hentries, Table.mem_update]
    refine .inl ⟨e', he', ?_, rfl⟩
    simp only [deadEntry, Bool.and_eq_true, decide_eq_true_eq] at hdead
    simp only [hdead.1.1, hdead.1.2, hdead.2, decide_true, Bool.and_self]

theorem orText_truthy {targetState : Option String} (h : truthy targetState = true) :
    some (orText targetState "") = targetState := by
  rw [orText, if_pos h]
  cases targetState with
  | none => cases h
  | some state => rfl

theorem truthy_iff {targetState : Option String} : truthy targetState = true ↔ orText targetState "" ≠ "" := by
  cases targetState with
  | none => simp [truthy, orText]
  | some state => by_cases hs : state = "" <;> simp [truthy, orText, hs]

def writtenSource (w : WorkOrder) : Fields := if w.origin = .statePropagation then w.sourcePayload else []

theorem writtenSource_iff :
    writtenSource w = w.sourcePayload ↔ w.origin = .statePropagation ∨ w.sourcePayload = [] := by
  unfold writtenSource
  split
  · rename_i horigin
    exact ⟨fun _ => .inl horigin, fun _ => rfl⟩
  · rename_i horigin
    exact ⟨fun h => .inr h.symm, fun h => (h.resolve_left horigin).symm⟩

theorem reinject_order_call {twin : CanonicalTwin}
    (hfound : getTwinDeadLetter P orgId connector s w.id = some (orderLetter P twin w)) :
    reinjectTwinDeadLetter P orgId connector s w.id now =
      reinjectOrder orgId connector s (orderLetter P twin w) (writtenSource w) w.targetState w.fields
        (w.attemptHistory ++ [replayAttempt (orderLetter P twin w) now]) := by
  simp only [reinjectTwinDeadLetter, hfound]
  by_cases horigin : w.origin = .statePropagation
  · simp only [orderLetter, orderPayload, writtenSource, horigin, if_true]
  · simp only [orderLetter, orderPayload, writtenSource, horigin, if_false]

theorem reinject_order_iff (h : KeysDiffer s) {twin : CanonicalTwin} (hw : w ∈ s.queue.db.orders)
    (hstuck : stuckOrder orgId connector.id w = true)
    (hfound : getTwinDeadLetter P orgId connector s w.id = some (orderLetter P twin w)) :
    (∃ t, reinjectTwinDeadLetter P orgId connector s w.id now = .ok t ∧ Requeued s t w.id) ↔ ShownWhole w := by
  rw [reinject_order_call hfound, reinjectOrder, ShownWhole, truthy_iff, ← writtenSource_iff]
  simp only [stuckOrder, Bool.and_eq_true, Bool.or_eq_true, decide_eq_true_eq] at hstuck
  by_cases hstate : orText w.targetState "" = ""
  · rw [if_pos hstate]
    exact ⟨fun ⟨t, ht, _⟩ => (nomatch ht), fun hshown => absurd hstate hshown.1⟩
  · rw [if_neg hstate]
    have hmatch : (decide (w.id = w.id) && decide (w.orgId = orgId) && decide (w.targetConnectorId = connector.id) &&
        (decide (w.status = .dead) || decide (w.status = .held))) = true := by
      simpa [hstuck.1.1, hstuck.1.2] using hstuck.2
    constructor
    · rintro ⟨t, ht, hrequeued⟩
      cases ht
      obtain ⟨w', hw', hrow⟩ := hrequeued.orders w hw rfl
      refine ⟨hstate, ?_⟩
      rcases Table.mem_update.mp hw' with ⟨q, hq, -, rfl⟩ | ⟨hmem, hnot⟩
      · exact hrow.sourcePayload
      · obtain rfl := h.order hmem hw hrow.id
        exact absurd (hmatch.symm.trans hnot) (by decide)
    · rintro ⟨-, hsource⟩
      refine ⟨_, rfl, fun e he hid => absurd hid (h.apart he hw), fun w' hw' hid => ?_⟩
      obtain rfl := h.order hw' hw hid
      refine ⟨_, Table.mem_update.mpr (.inl ⟨w', hw', hmatch, rfl⟩),
        ⟨rfl, rfl, rfl, rfl, orText_truthy (truthy_iff.mpr hstate), rfl, hsource⟩⟩

/-- The content that survives: the identity of a record, and of an order its
state and its source payload. -/
def ShownInFull (s : ConnectorState) (entryId : Uuid) : Prop :=
  (∀ e ∈ s.entries, e.id = entryId → Identified e.payload) ∧
    ∀ w ∈ s.queue.db.orders, w.id = entryId → ShownWhole w

/-- **When re-injection is lossless**: an entry that the list returns is put
back without a correction, with all that it had, exactly if it is a record with
an identity or an order that sets a state and whose source payload is that of a
propagation or empty. -/
theorem reinjection_lossless_iff (P : Platform) (orgId : Uuid) (connector : ConnectorRecord) (s : ConnectorState)
    (now : Millis) (entry : TwinQueueDeadLetter) (hkeys : KeysDiffer s)
    (hentry : entry ∈ listTwinDeadLetters P orgId connector s) :
    (∃ t, reinjectTwinDeadLetter P orgId connector s entry.id now = .ok t ∧ Requeued s t entry.id) ↔
      ShownInFull s entry.id := by
  have hfound := hkeys.found hentry
  rcases mem_listTwinDeadLetters.mp hentry with ⟨e, he, hdead, rfl⟩ | ⟨w, hw, hstuck, twin, -, rfl⟩
  · refine (reinject_entry_iff hkeys he hdead hfound).trans ⟨fun hid => ⟨fun e' he' hsame => ?_, fun w hw hsame => ?_⟩,
      fun hshown => hshown.1 e he rfl⟩
    · rw [hkeys.entry he' he hsame]
      exact hid
    · exact absurd hsame.symm (hkeys.apart he hw)
  · refine (reinject_order_iff hkeys hw hstuck hfound).trans ⟨fun hshown => ⟨fun e he hsame => ?_, fun w' hw' hsame => ?_⟩,
      fun hshown => hshown.2 w hw rfl⟩
    · exact absurd hsame (hkeys.apart he hw)
    · rw [hkeys.order hw' hw hsame]
      exact hshown

end

instance (s : ConnectorState) : Decidable (KeysDiffer s) := inferInstanceAs (Decidable (List.Nodup _))

/-! ## Two edits of an operator -/

def opsConnector : ConnectorRecord := ⟨2, "servicenow", "ITSM"⟩

def incidentTwin (id : Uuid) (externalId : String) : CanonicalTwin where
  id := id
  orgId := 1
  connectorId := 2
  provider := "servicenow"
  artifactType := "incident"
  externalId := externalId
  nativeKey := none
  nativeUrl := none
  title := some "Printer"
  nativeStatus := some "Open"
  syncState := .synced
  fieldAuthority := []
  payload := []
  contentHash := none
  sourceUpdatedAt := none
  correlationNodeId := none

def opsTables : IngestState := ⟨[incidentTwin 5 "abc", incidentTwin 6 "def"], [], [opsConnector]⟩

/-- An order for the twin; `source` is what it carries of its origin. -/
def opsOrder (id : Uuid) (origin : WorkOrderOrigin) (twin : CanonicalTwin) (source : Fields)
    (targetState : Option String) (fields : Fields) : NewWorkOrder where
  id := id
  orgId := 1
  origin := origin
  sourceEventId := none
  sourcePayload := source
  sourceConnectorId := none
  targetConnectorId := 2
  targetTwinId := twin.id
  targetEntityType := "incident"
  targetExternalId := twin.externalId
  targetState := targetState
  fields := fields

def editSource : Fields := [("title", .str "Printer"), ("fields", .obj [("urgency", .str "1")])]

def refusedWrite (call : Nat) (orderId : Uuid) (claimId : String) : List ConnectorAction :=
  [.order (.load call 1 orderId 0 true), .order (.checkBlocked call), .order (.claim call claimId 0 0),
   .order (.fail call (.remote "400 Bad Request" false none) none none ⟨0, 1⟩)]

/-- One edit of a field and one of a state. -/
def deadEdits : List ConnectorAction :=
  [.order (.insert (opsOrder 9 .operatorEdit (incidentTwin 5 "abc") editSource none [("urgency", .str "1")])),
   .order (.insert (opsOrder 10 .operatorEdit (incidentTwin 6 "def") editSource (some "Closed") []))]
    ++ refusedWrite 0 9 "w:1" ++ refusedWrite 1 10 "w:2"

def refusal : Except ReinjectError ConnectorState → Option ReinjectError
  | .error error => some error
  | .ok _ => none

/-- The field edit is refused for want of a target state, and the state edit
comes back without its source payload. -/
theorem edits_not_restored :
    ∃ s, (connectorSystem .ascii).run (idleConnectors opsTables) deadEdits = some s ∧ KeysDiffer s ∧
      (listTwinDeadLetters .ascii 1 opsConnector s).map (·.id) = [9, 10] ∧
      refusal (reinjectTwinDeadLetter .ascii 1 opsConnector s 9 2) =
        some (.badRequest "payload.targetState must be a non-empty string") ∧
      ∀ entry ∈ listTwinDeadLetters .ascii 1 opsConnector s,
        ¬ ∃ t, reinjectTwinDeadLetter .ascii 1 opsConnector s entry.id 2 = .ok t ∧ Requeued s t entry.id := by
  have hend : ((connectorSystem .ascii).run (idleConnectors opsTables) deadEdits).map (fun s =>
      (decide (KeysDiffer s), (listTwinDeadLetters .ascii 1 opsConnector s).map (·.id),
        refusal (reinjectTwinDeadLetter .ascii 1 opsConnector s 9 2), s.entries.isEmpty,
        s.queue.db.orders.all fun w => !decide (ShownWhole w))) =
      some (true, [9, 10], some (.badRequest "payload.targetState must be a non-empty string"), true, true) := by
    decide
  obtain ⟨s, hs, hfacts⟩ := Option.map_eq_some_iff.mp hend
  simp only [Prod.mk.injEq, decide_eq_true_eq, List.isEmpty_iff, List.all_eq_true, Bool.not_eq_true',
    decide_eq_false_iff_not] at hfacts
  obtain ⟨hkeys, hids, hrefused, hempty, horders⟩ := hfacts
  refine ⟨s, hs, hkeys, hids, hrefused, fun entry hentry hrestored => ?_⟩
  have hfound := hkeys.found hentry
  rcases mem_listTwinDeadLetters.mp hentry with ⟨e, he, -⟩ | ⟨w, hw, hstuck, twin, -, rfl⟩
  · rw [hempty] at he
    cases he
  · exact horders w hw ((reinject_order_iff hkeys hw hstuck hfound).mp hrestored)

def heldPropagation : List ConnectorAction :=
  [.order (.insert (opsOrder 9 .statePropagation (incidentTwin 5 "abc") editSource (some "Done") [])),
   .order (.load 0 1 9 0 true), .order (.checkBlocked 0), .order (.claim 0 "w:1" 0 0),
   .order (.translate 0 (.hold none "unmapped_state" (some "State translation requires operator review")) ⟨0, 1⟩)]

theorem reinjection_lossless_held :
    ∃ s entry t, (connectorSystem .ascii).run (idleConnectors opsTables) heldPropagation = some s ∧
      entry ∈ listTwinDeadLetters .ascii 1 opsConnector s ∧ entry.id = 9 ∧ entry.held = true ∧
      reinjectTwinDeadLetter .ascii 1 opsConnector s entry.id 2 = .ok t ∧ Requeued s t entry.id := by
  have hend : ((connectorSystem .ascii).run (idleConnectors opsTables) heldPropagation).map (fun s =>
      (decide (KeysDiffer s), (listTwinDeadLetters .ascii 1 opsConnector s).map (fun x => (x.id, x.held)),
        s.entries.isEmpty, s.queue.db.orders.all fun w => decide (ShownWhole w))) =
      some (true, [(9, true)], true, true) := by
    decide
  obtain ⟨s, hs, hfacts⟩ := Option.map_eq_some_iff.mp hend
  simp only [Prod.mk.injEq, decide_eq_true_eq, List.isEmpty_iff, List.all_eq_true] at hfacts
  obtain ⟨hkeys, hids, hempty, horders⟩ := hfacts
  obtain ⟨entry, hlist, hentry⟩ := List.map_eq_singleton_iff.mp hids
  have hmem : entry ∈ listTwinDeadLetters .ascii 1 opsConnector s := hlist ▸ List.mem_singleton_self entry
  obtain ⟨hid, hheld⟩ := Prod.mk.inj hentry
  obtain ⟨t, ht, hrequeued⟩ := (reinjection_lossless_iff .ascii 1 opsConnector s 2 entry hkeys hmem).mpr
    ⟨fun e he => absurd he (hempty ▸ List.not_mem_nil), fun w hw _ => horders w hw⟩
  exact ⟨s, entry, t, hs, hmem, hid, hheld, ht, hrequeued⟩

end Cadena.Connectors.DeadLetters
