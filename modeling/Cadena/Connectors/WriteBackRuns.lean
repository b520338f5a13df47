import Cadena.Connectors.WriteBack

/-!
# Edits under a policy that changes

The work-order queue beside the configuration of its connectors. An edit is
judged when it is routed; its order may wait, be retried or be re-injected with
other values, and the configuration may change meanwhile. `begun` keeps the
configuration that was in force when a call got its claim.
-/

namespace Cadena.Connectors.WriteBack

open Cadena.Base Cadena.Connectors.Admin

inductive EditStage where
  | read (twin : CanonicalTwin)
  | decided (decision : EditDecision)

structure WriteBackState where
  queue : QueueState
  connectors : List GovernedConnector
  edits : Nat → Option EditStage
  entries : Nat → Option WorkOrder
  begun : Nat → Option GovernedConnector

/-- `overwriteConfig` is the write of a request for another setting, which
writes back the policy that it has read. -/
inductive WriteBackAction where
  | queue (a : QueueAction)
  | ingest (twinId : Uuid) (nativeStatus : Option String) (payload : Fields)
  | readTwin (request : Nat) (orgId twinId : Uuid)
  | decideEdit (request : Nat) (field value : Option Json) (workOrderId : Uuid)
  | insertEdit (request : Nat)
  | readEntry (request : Nat) (orgId connectorId entryId : Uuid)
  | reinject (request : Nat) (payload : Option Fields) (now : Millis)
  | configureWriteBack (orgId connectorId : Uuid) (input : Option Json)
  | overwriteConfig (orgId connectorId : Uuid) (writeBack : ConnectorWriteBackPolicy)
  | discoverSchema (orgId connectorId : Uuid) (discovery : ConnectorDiscoveryResult) (status : ConnectorStatus)
  | setStatus (orgId connectorId : Uuid) (status : ConnectorStatus) (activated : Bool)

def isConnector (orgId connectorId : Uuid) (connector : GovernedConnector) : Bool :=
  connector.id = connectorId && connector.orgId = orgId

/-- `getConnector`. -/
def connectorOf (connectors : List GovernedConnector) (orgId connectorId : Uuid) : Option GovernedConnector :=
  connectors.find? (isConnector orgId connectorId)

def connectorsAfter (connectors : List GovernedConnector) : WriteBackAction → Option (List GovernedConnector)
  | .configureWriteBack orgId connectorId input =>
    match validateWriteBack input with
    | .ok policy =>
      some (Table.update (isConnector orgId connectorId) (fun c => { c with writeBack := policy }) connectors)
    | .error _ => none
  | .overwriteConfig orgId connectorId policy =>
    some (Table.update (isConnector orgId connectorId) (fun c => { c with writeBack := policy }) connectors)
  | .discoverSchema orgId connectorId discovery status =>
    some (Table.update (isConnector orgId connectorId)
      (fun c => { c with status := status, discoveryMetadata := some discovery }) connectors)
  | .setStatus orgId connectorId status activated =>
    some (Table.update (isConnector orgId connectorId)
      (fun c => { c with status := status, activated := activated }) connectors)
  | _ => some connectors

/-- Edits are inserted by their requests, and entries re-injected by theirs. -/
def admits : QueueAction → Bool
  | .insert n => n.origin ≠ .operatorEdit
  | .reinject .. => false
  | _ => true

def begunAfter (s : WriteBackState) (q : QueueState) : QueueAction → Nat → Option GovernedConnector
  | .claim call _ _ _ =>
    match (q.calls call).bind Stage.claim? with
    | some (work, _) => setAt s.begun call (connectorOf s.connectors work.orgId work.targetConnectorId)
    | none => s.begun
  | _ => s.begun

/-- A dead or held order of the connector, as `getTwinDeadLetter` finds it. -/
def isEntryOf (orgId connectorId entryId : Uuid) (w : WorkOrder) : Bool :=
  w.id = entryId && w.orgId = orgId && w.targetConnectorId = connectorId && (w.status = .dead || w.status = .held)

/-- A record of the twin is processed. -/
def ingestTwin (db : Db) (twinId : Uuid) (nativeStatus : Option String) (payload : Fields) : Db :=
  let update (t : CanonicalTwin) : CanonicalTwin := { t with nativeStatus := nativeStatus, payload := payload }
  { db with twins := Table.update (fun t => t.id = twinId) update db.twins }

def withQueue (s : WriteBackState) (q : Option QueueState) : Option WriteBackState :=
  q.map fun q => { s with queue := q }

section
variable (P : Platform)

def writeBackStep (s : WriteBackState) : WriteBackAction → Option WriteBackState
  | .queue a =>
    if admits a then
      (queueStep P s.queue a).map fun q => { s with queue := q, begun := begunAfter s q a }
    else none
  | .ingest twinId nativeStatus payload =>
    some { s with queue := ⟨ingestTwin s.queue.db twinId nativeStatus payload, s.queue.calls⟩ }
  | .readTwin request orgId twinId =>
    match s.edits request, s.queue.db.twins.find? fun t => t.id = twinId && t.orgId = orgId with
    | none, some twin => some { s with edits := setAt s.edits request (some (.read twin)) }
    | _, _ => none
  | .decideEdit request field value workOrderId =>
    match s.edits request with
    | some (.read twin) =>
      (connectorOf s.connectors twin.orgId twin.connectorId).map fun connector =>
        let decision := routeTwinEdit P twin connector field value workOrderId
        { s with edits := setAt s.edits request (some (.decided decision)) }
    | _ => none
  | .insertEdit request =>
    match s.edits request with
    | some (.decided (.routed _ _ _ order)) => withQueue s (insertStep s.queue order)
    | _ => none
  | .readEntry request orgId connectorId entryId =>
    match s.queue.db.orders.find? (isEntryOf orgId connectorId entryId) with
    | some entry => some { s with entries := setAt s.entries request (some entry) }
    | none => none
  | .reinject request payload now =>
    match s.entries request with
    | some entry =>
      match reinjected entry payload with
      | .ok content =>
        withQueue s (queueStep P s.queue (.reinject entry.orgId entry.targetConnectorId entry.id
          entry.targetTwinId content.sourcePayload content.targetState content.fields
          (entry.attemptHistory ++ [⟨entry.attempts, now, now, .requeued, none⟩]) payload.isSome))
      | .error _ => none
    | none => none
  | a => (connectorsAfter s.connectors a).map fun connectors => { s with connectors := connectors }

def writeBackSystem : System WriteBackState WriteBackAction := ⟨writeBackStep P⟩

/-- No order and no request yet. -/
def WriteBackState.start (twins : List CanonicalTwin) (connectors : List GovernedConnector) : WriteBackState where
  queue := emptyQueue twins
  connectors := connectors
  edits _ := none
  entries _ := none
  begun _ := none

/-- The connector's configuration lets this be written. -/
def Permitted (connectors : List GovernedConnector) (orgId connectorId : Uuid) (entityType : String)
    (targetState : Option String) (fields : Fields) : Prop :=
  ∃ connector, connectorOf connectors orgId connectorId = some connector ∧
    permits connector entityType targetState fields = true

/-- An edit that may still be sent. -/
def OpenEdit (w : WorkOrder) : Prop :=
  w.origin = .operatorEdit ∧ (w.status = .pending ∨ w.status = .failed ∨ w.status = .processing)

def OrderPermitted (connectors : List GovernedConnector) (w : WorkOrder) : Prop :=
  Permitted connectors w.orgId w.targetConnectorId w.targetEntityType w.targetState w.fields

/-- Whatever may still be sent is permitted by the configuration in force. -/
def EditsPermitted (s : WriteBackState) : Prop :=
  ∀ w ∈ s.queue.db.orders, OpenEdit w → OrderPermitted s.connectors w

/-- What `pushUpdate` is given for an edit is permitted by the configuration
that was in force when the execution began. -/
def PushPermitted (s : WriteBackState) : WriteBackAction → Prop
  | .queue (.push call _ _ _) =>
    ∀ work claimId transactionId targetState fields,
      s.queue.calls call = some (.writing work claimId transactionId targetState fields) →
      work.origin = .operatorEdit →
      ∃ connector, s.begun call = some connector ∧
        permits connector work.targetEntityType targetState fields = true
  | _ => True

/-- An edit is inserted, or re-injected, with values that the configuration in
force permits, and no change of the configuration forbids an edit that may
still be sent. -/
def PolicyHolds (s : WriteBackState) : WriteBackAction → Prop
  | .insertEdit request =>
    ∀ field before after order, s.edits request = some (.decided (.routed field before after order)) →
      Permitted s.connectors order.orgId order.targetConnectorId order.targetEntityType order.targetState
        order.fields
  | .reinject request payload _ =>
    ∀ entry content, s.entries request = some entry → reinjected entry payload = .ok content →
      ∀ w ∈ s.queue.db.orders, isEntryOf entry.orgId entry.targetConnectorId entry.id w = true →
        w.origin = .operatorEdit →
        Permitted s.connectors w.orgId w.targetConnectorId w.targetEntityType (some content.targetState)
          content.fields
  | .configureWriteBack orgId connectorId input =>
    ∀ connectors, connectorsAfter s.connectors (.configureWriteBack orgId connectorId input) = some connectors →
      ∀ w ∈ s.queue.db.orders, OpenEdit w → OrderPermitted connectors w
  | .overwriteConfig orgId connectorId policy =>
    ∀ connectors, connectorsAfter s.connectors (.overwriteConfig orgId connectorId policy) = some connectors →
      ∀ w ∈ s.queue.db.orders, OpenEdit w → OrderPermitted connectors w
  | .discoverSchema orgId connectorId discovery status =>
    ∀ connectors,
      connectorsAfter s.connectors (.discoverSchema orgId connectorId discovery status) = some connectors →
      ∀ w ∈ s.queue.db.orders, OpenEdit w → OrderPermitted connectors w
  | _ => True

end

/-! ## What a statement of the queue does to the edits -/

section
variable {P : Platform} {q q' : QueueState}

/-- What is written, and where. -/
def writeColumns (w : WorkOrder) : Uuid × Uuid × String × Option String × Fields :=
  (w.orgId, w.targetConnectorId, w.targetEntityType, w.targetState, w.fields)

theorem OrderPermitted.of_columns {connectors : List GovernedConnector} {w v : WorkOrder}
    (h : OrderPermitted connectors w) (hsame : writeColumns v = writeColumns w) : OrderPermitted connectors v := by
  simp only [writeColumns, Prod.mk.injEq] at hsame
  obtain ⟨horg, hconnector, hentity, hstate, hfields⟩ := hsame
  rwa [OrderPermitted, horg, hconnector, hentity, hstate, hfields]

def TranslatesPropagated (q : QueueState) : Prop :=
  ∀ call work claimId, q.calls call = some (.translating work claimId) →
    work.origin = .statePropagation ∧ ∃ w ∈ q.db.orders, w.id = work.id ∧ w.origin = .statePropagation

/-- An update that opens no edit and changes none that is open. -/
structure KeepsEdits (orders : List WorkOrder) (p : WorkOrder → Bool) (f : WorkOrder → WorkOrder) : Prop where
  id : ∀ w, (f w).id = w.id
  origin : ∀ w, (f w).origin = w.origin
  opened : ∀ w ∈ orders, p w = true → OpenEdit (f w) → OpenEdit w ∧ writeColumns (f w) = writeColumns w

def EditsKept (orders orders' : List WorkOrder) : Prop :=
  ∃ p f, KeepsEdits orders p f ∧ orders' = Table.update p f orders

theorem EditsKept.refl (orders : List WorkOrder) : EditsKept orders orders :=
  ⟨fun _ => false, id, ⟨fun _ => rfl, fun _ => rfl, fun _ _ hp => by cases hp⟩, by simp [Table.update]⟩

theorem EditsKept.of_processing {orders orders' : List WorkOrder} {p : WorkOrder → Bool}
    {f : WorkOrder → WorkOrder} (horders : orders' = Table.update p f orders)
    (hp : ∀ w ∈ orders, p w = true → w.status = .processing) (hid : ∀ w, (f w).id = w.id)
    (horigin : ∀ w, (f w).origin = w.origin) (hcolumns : ∀ w, writeColumns (f w) = writeColumns w) :
    EditsKept orders orders' := by
  refine ⟨p, f, ⟨hid, horigin, fun w hw hpw hopen => ⟨⟨?_, ?_⟩, hcolumns w⟩⟩, horders⟩
  · rw [← horigin w]
    exact hopen.1
  · exact .inr (.inr (hp w hw hpw))

theorem EditsKept.of_translating {orders' : List WorkOrder} (hfifo : FifoInv q) (htrans : TranslatesPropagated q)
    {call : Nat} {work : WorkOrder} {claimId : String} {f : WorkOrder → WorkOrder}
    (hcall : q.calls call = some (.translating work claimId))
    (horders : orders' = Table.update (heldBy work claimId) f q.db.orders) (hid : ∀ w, (f w).id = w.id)
    (horigin : ∀ w, (f w).origin = w.origin) : EditsKept q.db.orders orders' := by
  refine ⟨heldBy work claimId, f, ⟨hid, horigin, fun w hw hp hopen => ?_⟩, horders⟩
  obtain ⟨-, v, hv, hvid, hvorigin⟩ := htrans call work claimId hcall
  simp only [heldBy, Bool.and_eq_true, decide_eq_true_eq] at hp
  have hsame : w = v := Table.eq_of_key hfifo.ids hw hv (hp.1.1.trans hvid.symm)
  have hedit := hopen.1
  rw [horigin, hsame, hvorigin] at hedit
  cases hedit

theorem editsKept_failWith (hfifo : FifoInv q) (call : Nat) (work : WorkOrder) (claimId : String)
    (inProgress : Bool) (report : WorkOrderReport) (error : ExecError) (times : AttemptTimes) :
    EditsKept q.db.orders (failWith q call work claimId inProgress report error times).db.orders := by
  cases error <;>
    exact .of_processing rfl (fun w hw => hfifo.held_processing hw) (fun _ => rfl) (fun _ => rfl) (fun _ => rfl)

theorem editsKept_step (hfifo : FifoInv q) (htrans : TranslatesPropagated q) {a : QueueAction}
    (hadmits : admits a = true) (hnot : ∀ n, a ≠ .insert n) (hstep : queueStep P q a = some q') :
    EditsKept q.db.orders q'.db.orders := by
  cases a with
  | insert n => exact absurd rfl (hnot n)
  | reinject => cases hadmits
  | load =>
    simp only [queueStep, loadStep] at hstep
    split at hstep <;> cases hstep
    exact .refl _
  | checkBlocked =>
    simp only [queueStep, checkBlockedStep] at hstep
    split at hstep <;> cases hstep
    exact .refl _
  | claim call claimId dbNow workerNow =>
    simp only [queueStep, claimStep] at hstep
    split at hstep
    · rename_i row hcall
      cases hstep
      refine ⟨claimable row dbNow, claimRow claimId (workerNow + workOrderClaimMs),
        ⟨fun _ => rfl, fun _ => rfl, fun w _ hp hopen => ?_⟩, rfl⟩
      obtain ⟨-, -, -, hstatus⟩ := claimable_iff.mp hp
      refine ⟨⟨hopen.1, ?_⟩, rfl⟩
      exact hstatus.imp id fun h => h.imp id And.left
    · cases hstep
  | translate call translation times =>
    simp only [queueStep, translateStep] at hstep
    split at hstep
    · rename_i work claimId hcall
      cases translation with
      | hold =>
        cases hstep
        exact .of_translating hfifo htrans hcall rfl (fun _ => rfl) (fun _ => rfl)
      | ready =>
        dsimp only at hstep
        split at hstep <;> cases hstep
        · exact .of_translating hfifo htrans hcall rfl (fun _ => rfl) (fun _ => rfl)
        · exact .of_translating hfifo htrans hcall rfl (fun _ => rfl) (fun _ => rfl)
    · cases hstep
  | push =>
    simp only [queueStep, pushStep] at hstep
    split at hstep <;> cases hstep
    exact .of_processing rfl (fun w hw => hfifo.held_processing hw) (fun _ => rfl) (fun _ => rfl) (fun _ => rfl)
  | fail =>
    simp only [queueStep, failStep] at hstep
    split at hstep <;> cases hstep
    · exact editsKept_failWith hfifo ..
    · exact editsKept_failWith hfifo ..
  | renew =>
    simp only [queueStep, renewStep] at hstep
    split at hstep <;> cases hstep
    refine .of_processing rfl (fun w _ hp => ?_) (fun _ => rfl) (fun _ => rfl) (fun _ => rfl)
    simp only [Bool.and_eq_true, decide_eq_true_eq] at hp
    exact hp.2
  | recover =>
    cases hstep
    refine .of_processing rfl (fun w _ hp => ?_) (fun _ => rfl) (fun _ => rfl) (fun _ => rfl)
    simp only [Bool.and_eq_true, decide_eq_true_eq] at hp
    exact hp.1

theorem insertStep_orders {n : NewWorkOrder} (hstep : insertStep q n = some q') :
    q'.calls = q.calls ∧
      (q'.db.orders = q.db.orders ∧ eventTwinTaken q.db.orders n = true ∨
        q'.db.orders = q.db.orders ++ [n.row q.db.nextPosition]) := by
  unfold insertStep at hstep
  split at hstep <;> cases hstep
  refine ⟨rfl, ?_⟩
  simp only [insertWorkOrder]
  split
  · rename_i htaken
    exact .inl ⟨rfl, htaken⟩
  · exact .inr rfl

theorem origin_step (hfifo : FifoInv q) (htrans : TranslatesPropagated q) {a : QueueAction}
    (hstep : queueStep P q a = some q') {w : WorkOrder} (hw : w ∈ q.db.orders) :
    ∃ v ∈ q'.db.orders, v.id = w.id ∧ v.origin = w.origin := by
  have hupdate : ∀ {p : WorkOrder → Bool} {f : WorkOrder → WorkOrder}, (∀ w, (f w).id = w.id) →
      (∀ w, (f w).origin = w.origin) →
      ∃ v ∈ Table.update p f q.db.orders, v.id = w.id ∧ v.origin = w.origin := by
    intro p f hid horigin
    refine ⟨if p w then f w else w, List.mem_map_of_mem hw, ?_⟩
    split
    · exact ⟨hid w, horigin w⟩
    · exact ⟨rfl, rfl⟩
  cases ha : admits a with
  | true =>
    by_cases hinsert : ∃ n, a = .insert n
    · obtain ⟨n, rfl⟩ := hinsert
      obtain ⟨-, ⟨horders, -⟩ | horders⟩ := insertStep_orders hstep
      · exact ⟨w, horders ▸ hw, rfl, rfl⟩
      · exact ⟨w, horders ▸ List.mem_append_left _ hw, rfl, rfl⟩
    · obtain ⟨p, f, hkeeps, horders⟩ :=
        editsKept_step hfifo htrans ha (fun n hn => hinsert ⟨n, hn⟩) hstep
      rw [horders]
      exact hupdate hkeeps.id hkeeps.origin
  | false =>
    cases a with
    | insert n =>
      obtain ⟨-, ⟨horders, -⟩ | horders⟩ := insertStep_orders hstep
      · exact ⟨w, horders ▸ hw, rfl, rfl⟩
      · exact ⟨w, horders ▸ List.mem_append_left _ hw, rfl, rfl⟩
    | reinject =>
      cases hstep
      exact hupdate (fun _ => rfl) (fun _ => rfl)
    | _ => cases ha

theorem TranslatesPropagated.step (hfifo : FifoInv q) (htrans : TranslatesPropagated q) {a : QueueAction}
    (hstep : queueStep P q a = some q') : TranslatesPropagated q' := by
  intro call work claimId hcall
  have hkept : ∀ {w : WorkOrder}, w ∈ q.db.orders → w.id = work.id → w.origin = .statePropagation →
      ∃ v ∈ q'.db.orders, v.id = work.id ∧ v.origin = .statePropagation := by
    intro w hw hid horigin
    obtain ⟨v, hv, hvid, hvorigin⟩ := origin_step hfifo htrans hstep hw
    exact ⟨v, hv, hvid.trans hid, hvorigin.trans horigin⟩
  have hold : q.calls call = some (.translating work claimId) →
      work.origin = .statePropagation ∧ ∃ v ∈ q'.db.orders, v.id = work.id ∧ v.origin = .statePropagation := by
    intro hcall
    obtain ⟨horigin, w, hw, hid, hworigin⟩ := htrans call work claimId hcall
    exact ⟨horigin, hkept hw hid hworigin⟩
  by_cases hclaim : ∃ c drawn dbNow workerNow, a = .claim c drawn dbNow workerNow
  · obtain ⟨c, drawn, dbNow, workerNow, rfl⟩ := hclaim
    simp only [queueStep, claimStep] at hstep
    split at hstep
    · rename_i row hrow
      obtain rfl := Option.some.inj hstep
      by_cases hc : call = c
      · subst hc
        simp only [QueueState.advance, setAt_same, claimWorkOrder, Option.some.injEq] at hcall
        split at hcall
        · rename_i claimed hclaimed
          obtain ⟨v, hv, rfl⟩ := Option.map_eq_some_iff.mp hclaimed
          unfold claimedStage at hcall
          split at hcall
          · rename_i horigin
            cases hcall
            exact ⟨horigin.1, hkept (List.mem_of_find?_eq_some hv) rfl horigin.1⟩
          · cases hcall
        · cases hcall
      · simp only [QueueState.advance, setAt_other _ _ hc] at hcall
        exact hold hcall
    · cases hstep
  · rcases calls_step hstep with hsame | ⟨c, stage, hset, hmove⟩
    · rw [hsame] at hcall
      exact hold hcall
    · rw [hset] at hcall
      by_cases hc : call = c
      · subst hc
        rw [setAt_same] at hcall
        cases hmove with
        | loaded | unblocked | translated | returned => cases hcall
        | claimed ha => exact absurd ⟨_, _, _, _, ha⟩ hclaim
      · rw [setAt_other _ _ hc] at hcall
        exact hold hcall

end

/-! ## The policy along a run -/

section
variable {P : Platform} {s t : WriteBackState}

theorem routed_order {twin : CanonicalTwin} {connector : GovernedConnector} {field value before : Option Json}
    {name after : String} {workOrderId : Uuid} {order : NewWorkOrder}
    (h : routeTwinEdit P twin connector field value workOrderId = .routed name before after order) :
    order.origin = .operatorEdit ∧ order.sourceEventId = none := by
  simp only [routeTwinEdit] at h
  split at h
  · cases h
  · split at h
    · cases h
    · split at h
      · cases h
      · split at h
        · cases h
        · split at h <;> cases h
          exact ⟨rfl, rfl⟩

def RoutedEdits (s : WriteBackState) : Prop :=
  ∀ request field before after order, s.edits request = some (.decided (.routed field before after order)) →
    order.origin = .operatorEdit ∧ order.sourceEventId = none

structure WriteBackInv (s : WriteBackState) : Prop where
  fifo : FifoInv s.queue
  translating : TranslatesPropagated s.queue
  routed : RoutedEdits s

theorem writeBackInv_start (twins : List CanonicalTwin) (connectors : List GovernedConnector) :
    WriteBackInv (.start twins connectors) where
  fifo := fifoInv_empty twins
  translating := by
    intro call work claimId hcall
    cases hcall
  routed := by
    intro request field before after order hedit
    cases hedit

theorem RoutedEdits.set (h : RoutedEdits s) {request : Nat} {stage : EditStage}
    (hedits : t.edits = setAt s.edits request (some stage))
    (hstage : ∀ field before after order, stage = .decided (.routed field before after order) →
      order.origin = .operatorEdit ∧ order.sourceEventId = none) : RoutedEdits t := by
  intro r field before after order hedit
  rw [hedits] at hedit
  by_cases hr : r = request
  · subst hr
    rw [setAt_same, Option.some.injEq] at hedit
    exact hstage field before after order hedit
  · rw [setAt_other _ _ hr] at hedit
    exact h r field before after order hedit

theorem RoutedEdits.step (h : RoutedEdits s) {a : WriteBackAction} (hstep : writeBackStep P s a = some t) :
    RoutedEdits t := by
  cases a with
  | queue =>
    simp only [writeBackStep] at hstep
    split at hstep
    · obtain ⟨q, -, rfl⟩ := Option.map_eq_some_iff.mp hstep
      exact h
    · cases hstep
  | ingest =>
    cases hstep
    exact h
  | readTwin =>
    simp only [writeBackStep] at hstep
    split at hstep <;> cases hstep
    exact h.set rfl (fun _ _ _ _ hstage => by cases hstage)
  | decideEdit =>
    simp only [writeBackStep] at hstep
    split at hstep
    · obtain ⟨connector, -, rfl⟩ := Option.map_eq_some_iff.mp hstep
      exact h.set rfl (fun _ _ _ _ hstage => routed_order (EditStage.decided.inj hstage))
    · cases hstep
  | insertEdit =>
    simp only [writeBackStep] at hstep
    split at hstep
    · obtain ⟨q, -, rfl⟩ := Option.map_eq_some_iff.mp hstep
      exact h
    · cases hstep
  | readEntry =>
    simp only [writeBackStep] at hstep
    split at hstep <;> cases hstep
    exact h
  | reinject =>
    simp only [writeBackStep] at hstep
    split at hstep
    · split at hstep
      · obtain ⟨q, -, rfl⟩ := Option.map_eq_some_iff.mp hstep
        exact h
      · cases hstep
    · cases hstep
  | configureWriteBack | overwriteConfig | discoverSchema | setStatus =>
    simp only [writeBackStep] at hstep
    obtain ⟨connectors, -, rfl⟩ := Option.map_eq_some_iff.mp hstep
    exact h

inductive QueueMove (P : Platform) (s t : WriteBackState) : WriteBackAction → Prop where
  | step {a : QueueAction} (hadmits : admits a = true) (hstep : queueStep P s.queue a = some t.queue)
      (hbegun : t.begun = begunAfter s t.queue a) (hconnectors : t.connectors = s.connectors) :
      QueueMove P s t (.queue a)
  | inserted {request : Nat} {field : String} {before : Option Json} {after : String} {order : NewWorkOrder}
      (hedit : s.edits request = some (.decided (.routed field before after order)))
      (hstep : insertStep s.queue order = some t.queue) (hbegun : t.begun = s.begun)
      (hconnectors : t.connectors = s.connectors) : QueueMove P s t (.insertEdit request)
  | reinjected {request : Nat} {payload : Option Fields} {now : Millis} {entry : WorkOrder}
      {content : ReinjectedOrder} {history : List ConnectorQueueAttempt}
      (hentry : s.entries request = some entry) (hcontent : reinjected entry payload = .ok content)
      (hstep : queueStep P s.queue (.reinject entry.orgId entry.targetConnectorId entry.id entry.targetTwinId
        content.sourcePayload content.targetState content.fields history payload.isSome) = some t.queue)
      (hbegun : t.begun = s.begun) (hconnectors : t.connectors = s.connectors) :
      QueueMove P s t (.reinject request payload now)
  | other {a : WriteBackAction} (horders : t.queue.db.orders = s.queue.db.orders)
      (hnext : t.queue.db.nextPosition = s.queue.db.nextPosition) (hcalls : t.queue.calls = s.queue.calls)
      (hbegun : t.begun = s.begun) (hconnectors : connectorsAfter s.connectors a = some t.connectors)
      (hqueue : ∀ b, a ≠ .queue b) (hinsert : ∀ r, a ≠ .insertEdit r)
      (hreinject : ∀ r payload now, a ≠ .reinject r payload now) : QueueMove P s t a

theorem queueMove {a : WriteBackAction} (hstep : writeBackStep P s a = some t) : QueueMove P s t a := by
  cases a with
  | queue a =>
    simp only [writeBackStep] at hstep
    split at hstep
    · rename_i hadmits
      obtain ⟨q, hq, rfl⟩ := Option.map_eq_some_iff.mp hstep
      exact .step hadmits hq rfl rfl
    · cases hstep
  | ingest =>
    cases hstep
    exact .other rfl rfl rfl rfl rfl (by rintro _ ⟨⟩) (by rintro _ ⟨⟩) (by rintro _ _ _ ⟨⟩)
  | readTwin =>
    simp only [writeBackStep] at hstep
    split at hstep <;> cases hstep
    exact .other rfl rfl rfl rfl rfl (by rintro _ ⟨⟩) (by rintro _ ⟨⟩) (by rintro _ _ _ ⟨⟩)
  | decideEdit =>
    simp only [writeBackStep] at hstep
    split at hstep
    · obtain ⟨connector, -, rfl⟩ := Option.map_eq_some_iff.mp hstep
      exact .other rfl rfl rfl rfl rfl (by rintro _ ⟨⟩) (by rintro _ ⟨⟩) (by rintro _ _ _ ⟨⟩)
    · cases hstep
  | insertEdit request =>
    simp only [writeBackStep] at hstep
    split at hstep
    · rename_i hedit
      obtain ⟨q, hq, rfl⟩ := Option.map_eq_some_iff.mp hstep
      exact .inserted hedit hq rfl rfl
    · cases hstep
  | readEntry =>
    simp only [writeBackStep] at hstep
    split at hstep <;> cases hstep
    exact .other rfl rfl rfl rfl rfl (by rintro _ ⟨⟩) (by rintro _ ⟨⟩) (by rintro _ _ _ ⟨⟩)
  | reinject request payload now =>
    simp only [writeBackStep] at hstep
    split at hstep
    · rename_i entry hentry
      split at hstep
      · rename_i content hcontent
        obtain ⟨q, hq, rfl⟩ := Option.map_eq_some_iff.mp hstep
        exact .reinjected hentry hcontent hq rfl rfl
      · cases hstep
    · cases hstep
  | configureWriteBack | overwriteConfig | discoverSchema | setStatus =>
    simp only [writeBackStep] at hstep
    obtain ⟨connectors, hconnectors, rfl⟩ := Option.map_eq_some_iff.mp hstep
    exact .other rfl rfl rfl rfl hconnectors (by rintro _ ⟨⟩) (by rintro _ ⟨⟩) (by rintro _ _ _ ⟨⟩)

theorem FifoInv.of_same {q q' : QueueState} (h : FifoInv q) (horders : q'.db.orders = q.db.orders)
    (hnext : q'.db.nextPosition = q.db.nextPosition) (hcalls : q'.calls = q.calls) : FifoInv q' where
  ids := horders ▸ h.ids
  positions := horders ▸ h.positions
  issued := by
    rw [horders, hnext]
    exact h.issued
  indexed := horders ▸ h.indexed
  unclaimed := horders ▸ h.unclaimed
  served := horders ▸ h.served
  loaded := by
    rw [horders, hcalls]
    exact h.loaded
  unblocked := by
    rw [horders, hcalls]
    exact h.unblocked

theorem WriteBackInv.step (h : WriteBackInv s) {a : WriteBackAction} (hstep : writeBackStep P s a = some t) :
    WriteBackInv t := by
  have hrouted := h.routed.step hstep
  have hqueue : ∀ {b : QueueAction}, queueStep P s.queue b = some t.queue → WriteBackInv t := fun hq =>
    ⟨h.fifo.step hq, h.translating.step h.fifo hq, hrouted⟩
  cases queueMove hstep with
  | step _ hq => exact hqueue hq
  | inserted _ hq => exact hqueue (b := .insert _) hq
  | reinjected _ _ hq => exact hqueue hq
  | other horders hnext hcalls =>
    refine ⟨FifoInv.of_same h.fifo horders hnext hcalls, ?_, hrouted⟩
    rw [TranslatesPropagated, horders, hcalls]
    exact h.translating

/-! ## One step -/

theorem openEdit_row {n : NewWorkOrder} {position : Nat} (h : n.origin = .operatorEdit) :
    OpenEdit (n.row position) := ⟨h, .inl rfl⟩

theorem editsPermitted_kept {orders orders' : List WorkOrder} {connectors : List GovernedConnector}
    (hkept : EditsKept orders orders') (h : ∀ w ∈ orders, OpenEdit w → OrderPermitted connectors w) :
    ∀ w ∈ orders', OpenEdit w → OrderPermitted connectors w := by
  obtain ⟨p, f, hkeeps, rfl⟩ := hkept
  intro w hw hopen
  rcases Table.mem_update.mp hw with ⟨v, hv, hp, rfl⟩ | ⟨hw, -⟩
  · obtain ⟨hvopen, hcolumns⟩ := hkeeps.opened v hv hp hopen
    exact (h v hv hvopen).of_columns hcolumns
  · exact h w hw hopen

theorem permitted_setStatus {connectors : List GovernedConnector} {orgId connectorId : Uuid}
    {status : ConnectorStatus} {activated : Bool} {w : WorkOrder} (h : OrderPermitted connectors w) :
    OrderPermitted (Table.update (isConnector orgId connectorId)
      (fun c => { c with status := status, activated := activated }) connectors) w := by
  obtain ⟨connector, hfind, hpermits⟩ := h
  refine ⟨if isConnector orgId connectorId connector then
    { connector with status := status, activated := activated } else connector, ?_, ?_⟩
  · rw [connectorOf, Table.update, List.find?_map]
    have hsame : (isConnector w.orgId w.targetConnectorId ∘ fun c : GovernedConnector =>
        if isConnector orgId connectorId c then { c with status := status, activated := activated } else c) =
        isConnector w.orgId w.targetConnectorId := by
      funext c
      simp only [Function.comp_apply]
      split <;> rfl
    rw [hsame, show connectors.find? (isConnector w.orgId w.targetConnectorId) = some connector from hfind]
    rfl
  · split
    · exact hpermits
    · exact hpermits

theorem editsPermitted_insert (h : EditsPermitted s) {order : NewWorkOrder}
    (hstep : insertStep s.queue order = some t.queue) (hconnectors : t.connectors = s.connectors)
    (hnew : order.origin = .operatorEdit → Permitted s.connectors order.orgId order.targetConnectorId
      order.targetEntityType order.targetState order.fields) : EditsPermitted t := by
  obtain ⟨-, ⟨horders, -⟩ | horders⟩ := insertStep_orders hstep
  · rw [EditsPermitted, horders, hconnectors]
    exact h
  · rw [EditsPermitted, horders, hconnectors]
    intro w hw hopen
    rcases List.mem_append.mp hw with hw | hw
    · exact h w hw hopen
    · rw [List.mem_singleton.mp hw] at hopen ⊢
      exact hnew hopen.1

end

section
variable {P : Platform} {s t : WriteBackState}

theorem not_taken {orders : List WorkOrder} {n : NewWorkOrder} (h : n.sourceEventId = none) :
    eventTwinTaken orders n = false := by
  rw [eventTwinTaken, h]
  rfl

theorem editsPermitted_step (hinv : WriteBackInv s) (h : EditsPermitted s) {a : WriteBackAction}
    (hstep : writeBackStep P s a = some t) : EditsPermitted t ↔ PolicyHolds s a := by
  cases queueMove hstep with
  | @step b hadmits hq hbegun hconnectors =>
    refine ⟨fun _ => trivial, fun _ => ?_⟩
    by_cases hinsert : ∃ n, b = .insert n
    · obtain ⟨n, rfl⟩ := hinsert
      exact editsPermitted_insert h hq hconnectors fun horigin => absurd horigin (of_decide_eq_true hadmits)
    · rw [EditsPermitted, hconnectors]
      exact editsPermitted_kept
        (editsKept_step hinv.fifo hinv.translating hadmits (fun n hn => hinsert ⟨n, hn⟩) hq) h
  | @inserted request field before after order hedit hq hbegun hconnectors =>
    constructor
    · intro ht field' before' after' order' hedit'
      obtain rfl : order' = order := by
        rw [hedit] at hedit'
        cases hedit'
        rfl
      obtain ⟨horigin, hevent⟩ := hinv.routed request field before after order' hedit
      obtain ⟨-, ⟨-, htaken⟩ | horders⟩ := insertStep_orders hq
      · rw [not_taken hevent] at htaken
        cases htaken
      · have hrow := ht (order'.row s.queue.db.nextPosition)
          (horders ▸ List.mem_append_right _ (List.mem_singleton_self _)) (openEdit_row horigin)
        rwa [hconnectors] at hrow
    · intro hpolicy
      exact editsPermitted_insert h hq hconnectors fun _ => hpolicy field before after order hedit
  | @reinjected request payload now entry content history hentry hcontent hq hbegun hconnectors =>
    have horders : t.queue.db.orders = Table.update (isEntryOf entry.orgId entry.targetConnectorId entry.id)
        (fun w => { w.release .pending with
          sourcePayload := content.sourcePayload, targetState := some content.targetState
          fields := content.fields
          transactionId := if w.origin = .statePropagation then none else w.transactionId
          attempts := 0, attemptHistory := history, lastError := none
          nextAttemptAt := none, executedAt := none }) s.queue.db.orders := by
      rw [← Option.some.inj hq]
      rfl
    constructor
    · intro ht entry' content' hentry' hcontent' w hw hmatches horigin
      obtain rfl : entry' = entry := Option.some.inj (hentry'.symm.trans hentry)
      obtain rfl : content' = content := Except.ok.inj (hcontent'.symm.trans hcontent)
      rw [EditsPermitted, horders, hconnectors] at ht
      exact ht _ (Table.mem_update.mpr (.inl ⟨w, hw, hmatches, rfl⟩)) ⟨horigin, .inl rfl⟩
    · intro hpolicy
      rw [EditsPermitted, horders, hconnectors]
      intro w hw hopen
      rcases Table.mem_update.mp hw with ⟨v, hv, hmatches, rfl⟩ | ⟨hw, -⟩
      · exact hpolicy entry content hentry hcontent v hv hmatches hopen.1
      · exact h w hw hopen
  | other horders hnext hcalls hbegun hconnectors hqueue hinsert hreinject =>
    rw [EditsPermitted, horders]
    cases a with
    | queue b => exact absurd rfl (hqueue b)
    | insertEdit r => exact absurd rfl (hinsert r)
    | reinject r payload now => exact absurd rfl (hreinject r payload now)
    | ingest | readTwin | decideEdit | readEntry =>
      refine ⟨fun _ => trivial, fun _ => ?_⟩
      rw [← Option.some.inj hconnectors]
      exact h
    | setStatus =>
      refine ⟨fun _ => trivial, fun _ => ?_⟩
      rw [← Option.some.inj hconnectors]
      exact fun w hw hopen => permitted_setStatus (h w hw hopen)
    | configureWriteBack | overwriteConfig | discoverSchema =>
      constructor
      · intro ht connectors hafter
        obtain rfl := Option.some.inj (hconnectors.symm.trans hafter)
        exact ht
      · intro hpolicy
        exact hpolicy _ hconnectors

/-- A call that is about to write an edit has begun under a configuration that
permits it. -/
def WritesPermitted (s : WriteBackState) : Prop :=
  ∀ call work claimId transactionId targetState fields,
    s.queue.calls call = some (.writing work claimId transactionId targetState fields) →
    work.origin = .operatorEdit →
    ∃ connector, s.begun call = some connector ∧ permits connector work.targetEntityType targetState fields = true

theorem writesPermitted_queue (hinv : WriteBackInv s) (h : EditsPermitted s) (hwrites : WritesPermitted s)
    {a : QueueAction} (hstep : queueStep P s.queue a = some t.queue) (hbegun : t.begun = begunAfter s t.queue a) :
    WritesPermitted t := by
  intro call work claimId transactionId targetState fields hcall hedit
  by_cases hclaim : ∃ c drawn dbNow workerNow, a = .claim c drawn dbNow workerNow
  · obtain ⟨c, drawn, dbNow, workerNow, rfl⟩ := hclaim
    have hclaimed := hstep
    simp only [queueStep, claimStep] at hclaimed
    split at hclaimed
    · rename_i row hrow
      by_cases hc : call = c
      · subst hc
        -- the order is claimed as it is in the table, where it is an open edit
        have hstage := hcall
        rw [← Option.some.inj hclaimed] at hstage
        simp only [QueueState.advance, setAt_same, claimWorkOrder, Option.some.injEq] at hstage
        split at hstage
        · rename_i claimed hrows
          obtain ⟨v, hv, rfl⟩ := Option.map_eq_some_iff.mp hrows
          obtain ⟨-, -, -, hstatus⟩ := claimable_iff.mp (List.find?_some hv)
          unfold claimedStage at hstage
          split at hstage
          · cases hstage
          · cases hstage
            obtain ⟨connector, hfind, hpermits⟩ :=
              h v (List.mem_of_find?_eq_some hv) ⟨hedit, hstatus.imp id fun h => h.imp id And.left⟩
            refine ⟨connector, ?_, hpermits⟩
            simp only [hbegun, begunAfter, hcall, Option.bind_some, Stage.claim?, setAt_same]
            exact hfind
        · cases hstage
      · have hsame : t.queue.calls call = s.queue.calls call := by
          rw [← Option.some.inj hclaimed]
          exact setAt_other _ _ hc
        rw [hsame] at hcall
        obtain ⟨connector, hread, hpermits⟩ :=
          hwrites call work claimId transactionId targetState fields hcall hedit
        refine ⟨connector, ?_, hpermits⟩
        rw [hbegun, begunAfter]
        cases (t.queue.calls c).bind Stage.claim? with
        | none => exact hread
        | some claim =>
          show setAt s.begun c _ call = some connector
          rw [setAt_other _ _ hc]
          exact hread
    · cases hclaimed
  · have hread : t.begun = s.begun := by
      rw [hbegun]
      cases a with
      | claim => exact absurd ⟨_, _, _, _, rfl⟩ hclaim
      | _ => rfl
    rw [hread]
    rcases calls_step hstep with hsame | ⟨c, stage, hset, hmove⟩
    · rw [hsame] at hcall
      exact hwrites call work claimId transactionId targetState fields hcall hedit
    · rw [hset] at hcall
      by_cases hc : call = c
      · subst hc
        rw [setAt_same] at hcall
        cases hmove with
        | loaded | unblocked | returned => cases hcall
        | claimed ha => exact absurd ⟨_, _, _, _, ha⟩ hclaim
        | translated htranslating =>
          cases hcall
          rw [(hinv.translating _ _ _ htranslating).1] at hedit
          cases hedit
      · rw [setAt_other _ _ hc] at hcall
        exact hwrites call work claimId transactionId targetState fields hcall hedit

theorem WritesPermitted.step (hinv : WriteBackInv s) (h : EditsPermitted s) (hwrites : WritesPermitted s)
    {a : WriteBackAction} (hstep : writeBackStep P s a = some t) : WritesPermitted t := by
  have hsame : t.queue.calls = s.queue.calls → t.begun = s.begun → WritesPermitted t := by
    intro hcalls hbegun
    rw [WritesPermitted, hcalls, hbegun]
    exact hwrites
  cases queueMove hstep with
  | step _ hq hbegun => exact writesPermitted_queue hinv h hwrites hq hbegun
  | inserted _ hq hbegun => exact hsame (insertStep_orders hq).1 hbegun
  | reinjected _ _ hq hbegun =>
    refine hsame ?_ hbegun
    rw [← Option.some.inj hq]
  | other _ _ hcalls hbegun => exact hsame hcalls hbegun

theorem pushPermitted_of_writes (h : WritesPermitted s) (a : WriteBackAction) : PushPermitted s a := by
  cases a with
  | queue b =>
    cases b with
    | push call => exact h call
    | _ => trivial
  | _ => trivial

/-- **The edits that may still be sent are permitted** in every state of a run
exactly if each is inserted and re-injected with values that the configuration
in force permits, and no change of the configuration forbids one of them; then
every write of an edit is permitted by the configuration it began under. -/
theorem edits_permitted_iff (P : Platform) (twins : List CanonicalTwin) (connectors : List GovernedConnector)
    (acts : List WriteBackAction) (hrun : (writeBackSystem P).run (.start twins connectors) acts = some t) :
    ((writeBackSystem P).Throughout EditsPermitted (.start twins connectors) acts ↔
        (writeBackSystem P).Along PolicyHolds (.start twins connectors) acts) ∧
      ((writeBackSystem P).Along PolicyHolds (.start twins connectors) acts →
        (writeBackSystem P).Along PushPermitted (.start twins connectors) acts) := by
  have hedits : EditsPermitted (.start twins connectors) := by
    intro w hw
    cases hw
  constructor
  · exact (writeBackSystem P).throughout_iff (P := WriteBackInv) (fun h hstep => h.step hstep)
      (fun hinv h hstep => editsPermitted_step hinv h hstep) (writeBackInv_start twins connectors) hedits hrun
  · intro hall
    refine (writeBackSystem P).along_mono
      (P := fun s => WriteBackInv s ∧ EditsPermitted s ∧ WritesPermitted s) (fun hs hpolicy hstep => ?_)
      (fun hs _ => pushPermitted_of_writes hs.2.2 _) ⟨writeBackInv_start twins connectors, hedits, ?_⟩ hall
    · obtain ⟨hinv, h, hwrites⟩ := hs
      exact ⟨hinv.step hstep, (editsPermitted_step hinv h hstep).mpr hpolicy, hwrites.step hinv h hstep⟩
    · intro call work claimId transactionId targetState fields hcall
      cases hcall

end

/-! ## A value that nobody has judged -/

/-- A ServiceNow connector that lets operators set the state. -/
def incidentConnector : GovernedConnector where
  id := 2
  orgId := 1
  provider := "servicenow"
  name := "Service desk"
  status := .active
  activated := true
  discoveryMetadata := some ⟨[⟨"incident", [⟨"state", "State", ["New", "Closed"]⟩]⟩], [.stateWrite]⟩
  writeBack := ⟨true, []⟩

def openIncident : CanonicalTwin where
  id := 5
  orgId := 1
  connectorId := 2
  provider := "servicenow"
  artifactType := "incident"
  externalId := "INC1"
  nativeKey := none
  nativeUrl := none
  title := none
  nativeStatus := some "New"
  syncState := .synced
  fieldAuthority := []
  payload := []
  contentHash := none
  sourceUpdatedAt := none
  correlationNodeId := none

theorem routed_permitted_closed : ∃ name before after order,
    routeTwinEdit .ascii openIncident incidentConnector (some (.str "status")) (some (.str "closed")) 10 =
        .routed name before after order ∧
      permits incidentConnector order.targetEntityType order.targetState order.fields = true := by
  have hrouted : routeTwinEdit .ascii openIncident incidentConnector (some (.str "status")) (some (.str "closed")) 10 =
    .routed _ _ _ _ := rfl
  exact ⟨_, _, _, _, hrouted, routed_permitted rfl hrouted⟩

/-- The incident is to be closed; the order is claimed. -/
def closeIncident : List WriteBackAction :=
  [.readTwin 0 1 5, .decideEdit 0 (some (.str "status")) (some (.str "closed")) 10, .insertEdit 0,
    .queue (.load 0 1 10 0 true), .queue (.checkBlocked 0), .queue (.claim 0 "w:0" 0 0)]

/-- ServiceNow cannot be reached, write-back is turned off, and the order is
tried again. -/
def retriedAfterwards : List WriteBackAction :=
  closeIncident ++ [.queue (.fail 0 (.remote "503" true none) none none ⟨0, 1⟩),
    .configureWriteBack 1 2 (some (.obj [("state", .bool false)])),
    .queue (.load 1 1 10 60000 true), .queue (.checkBlocked 1), .queue (.claim 1 "w:1" 60000 60000)]

/-- ServiceNow refuses the order, and it is re-injected with another state. -/
def reinjectedAfterwards : List WriteBackAction :=
  closeIncident ++ [.queue (.fail 0 (.remote "400" false none) none none ⟨0, 1⟩), .readEntry 0 1 2 10,
    .reinject 0 (some [("targetState", .str "Deleted")]) 2,
    .queue (.load 1 1 10 60000 true), .queue (.checkBlocked 1), .queue (.claim 1 "w:1" 60000 60000)]

/-- What a call is about to write, and whether it began under a configuration
that permits it. -/
def writing (s : WriteBackState) (call : Nat) : Option (WorkOrderOrigin × Option String × Option Bool) :=
  match s.queue.calls call with
  | some (.writing work _ _ targetState fields) =>
    some (work.origin, targetState, (s.begun call).map fun connector =>
      permits connector work.targetEntityType targetState fields)
  | _ => none

/-- A state that the field does not have is written, and one is written
although write-back of states is off. -/
theorem unjudged_write :
    (¬ ∀ (twins : List CanonicalTwin) (connectors : List GovernedConnector) (acts : List WriteBackAction)
      (t : WriteBackState), (writeBackSystem .ascii).run (.start twins connectors) acts = some t →
        (writeBackSystem .ascii).Along PushPermitted (.start twins connectors) acts) ∧
      ((writeBackSystem .ascii).run (.start [openIncident] [incidentConnector]) retriedAfterwards).map
        (fun s => writing s 1) = some (some (.operatorEdit, some "Closed", some false)) := by
  refine ⟨fun h => ?_, by decide⟩
  have hrun : ((writeBackSystem .ascii).run (.start [openIncident] [incidentConnector]) reinjectedAfterwards).map
      (fun s => writing s 1) = some (some (.operatorEdit, some "Deleted", some false)) := by decide
  obtain ⟨s, hs, hwriting⟩ := Option.map_eq_some_iff.mp hrun
  simp only [writing] at hwriting
  split at hwriting
  · rename_i work claimId transactionId targetState fields hcall
    simp only [Option.some.injEq, Prod.mk.injEq, Option.map_eq_some_iff] at hwriting
    obtain ⟨horigin, -, connector, hbegun, hpermits⟩ := hwriting
    have hpush : (writeBackSystem .ascii).step s (.queue (.push 1 "servicenow" "ok" ⟨60000, 60001⟩)) = some
        { s with
          queue := s.queue.advance
            (settleExecuted s.queue.db work claimId 60001 (attemptOf work ⟨60000, 60001⟩ .executed none)
              (executedEvent work work.targetEntityType "servicenow" (reportOf work transactionId targetState) fields
                "ok")) 1 (.returned .executed) } := by
      simp only [writeBackSystem, writeBackStep, admits, if_true, queueStep, pushStep, hcall, begunAfter,
        Option.map_some]
    have hall := h [openIncident] [incidentConnector]
      (reinjectedAfterwards ++ [.queue (.push 1 "servicenow" "ok" ⟨60000, 60001⟩)]) _
      ((writeBackSystem .ascii).run_append.mpr ⟨s, hs, (writeBackSystem .ascii).run_cons.mpr ⟨_, hpush, rfl⟩⟩)
    have hlast := (writeBackSystem .ascii).along_suffix hall hs
    obtain ⟨connector', hbegun', hpermits'⟩ :=
      hlast.1 work claimId transactionId targetState fields hcall horigin
    obtain rfl : connector' = connector := Option.some.inj (hbegun'.symm.trans hbegun)
    rw [hpermits] at hpermits'
    cases hpermits'
  · cases hwriting

/-- The incident is closed at the second attempt. -/
def retriedUnderPolicy : List WriteBackAction :=
  closeIncident ++ [.queue (.fail 0 (.remote "503" true none) none none ⟨0, 1⟩),
    .queue (.load 1 1 10 60000 true), .queue (.checkBlocked 1), .queue (.claim 1 "w:1" 60000 60000),
    .queue (.push 1 "servicenow" "ok" ⟨60000, 60001⟩)]

/-- Where nothing is re-injected or configured the insertions decide. -/
def insertsPermitted (s : WriteBackState) : WriteBackAction → Bool
  | .insertEdit request =>
    match s.edits request with
    | some (.decided (.routed _ _ _ order)) =>
      (connectorOf s.connectors order.orgId order.targetConnectorId).any fun connector =>
        permits connector order.targetEntityType order.targetState order.fields
    | _ => true
  | .queue _ | .readTwin .. | .decideEdit .. => true
  | _ => false

theorem policyHolds_of_inserts (s : WriteBackState) (a : WriteBackAction) (h : insertsPermitted s a = true) :
    PolicyHolds s a := by
  cases a with
  | insertEdit request =>
    intro field before after order hedit
    simp only [insertsPermitted, hedit, Option.any_eq_true] at h
    exact h
  | queue | readTwin | decideEdit => trivial
  | ingest | readEntry | reinject | configureWriteBack | overwriteConfig | discoverSchema | setStatus => cases h

theorem edits_permitted_retried :
    (writeBackSystem .ascii).Along PushPermitted (.start [openIncident] [incidentConnector]) retriedUnderPolicy := by
  have hrun : ((writeBackSystem .ascii).run (.start [openIncident] [incidentConnector]) retriedUnderPolicy).isSome =
      true := by decide
  have hinserts : (writeBackSystem .ascii).checks insertsPermitted (.start [openIncident] [incidentConnector])
      retriedUnderPolicy = true := by decide
  obtain ⟨t, ht⟩ := Option.isSome_iff_exists.mp hrun
  refine (edits_permitted_iff .ascii [openIncident] [incidentConnector] retriedUnderPolicy ht).2 ?_
  exact (writeBackSystem .ascii).along_of_checks policyHolds_of_inserts hinserts

end Cadena.Connectors.WriteBack
