import Cadena.Connectors.IngestionQueue
import Cadena.Connectors.WorkOrderClaim

/-!
# A paused twin stays paused

A twin with a dead or held order, or a dead entry in its partition, waits
for an operator and is shown as paused. `sync_state` is set to synced from
three places: a successful write looks for other dead or held orders first,
a record update and a re-injection do not look, and nobody looks at the
ingestion queue.
-/

namespace Cadena.Connectors

open Cadena.Base Cadena.Integrations

def WorkOrder.blocks (w : WorkOrder) (t : CanonicalTwin) : Bool :=
  w.orgId = t.orgId && w.targetTwinId = t.id && (w.status = .dead || w.status = .held)

def IngestionEntry.blocks (P : Platform) (e : IngestionEntry) (t : CanonicalTwin) : Bool :=
  e.orgId = t.orgId && e.connectorId = t.connectorId
    && e.partitionKey = twinPartitionKey P t.provider t.artifactType t.externalId
    && e.status = .dead

def Blocked (P : Platform) (orders : List WorkOrder) (entries : List IngestionEntry)
    (t : CanonicalTwin) : Prop :=
  (∃ w ∈ orders, w.blocks t = true) ∨ ∃ e ∈ entries, e.blocks P t = true

def VisiblyPaused (P : Platform) (s : ConnectorState) : Prop :=
  ∀ t ∈ s.queue.db.twins, Blocked P s.queue.db.orders s.entries t → t.syncState = .paused

instance (P : Platform) (orders : List WorkOrder) (entries : List IngestionEntry)
    (t : CanonicalTwin) : Decidable (Blocked P orders entries t) :=
  inferInstanceAs (Decidable (_ ∨ _))

instance (P : Platform) (s : ConnectorState) : Decidable (VisiblyPaused P s) :=
  inferInstanceAs (Decidable (∀ t ∈ s.queue.db.twins, _ → _))

theorem order_blocks_iff {w : WorkOrder} {t : CanonicalTwin} :
    w.blocks t = true ↔
      w.orgId = t.orgId ∧ w.targetTwinId = t.id ∧ (w.status = .dead ∨ w.status = .held) := by
  simp only [WorkOrder.blocks, Bool.and_eq_true, Bool.or_eq_true, decide_eq_true_eq]
  tauto

variable {P : Platform} {s t : QueueState}

theorem entry_blocks_iff {e : IngestionEntry} {t : CanonicalTwin} : e.blocks P t = true ↔
      e.orgId = t.orgId ∧ e.connectorId = t.connectorId ∧
        e.partitionKey = twinPartitionKey P t.provider t.artifactType t.externalId ∧
        e.status = .dead := by
  simp only [IngestionEntry.blocks, Bool.and_eq_true, decide_eq_true_eq]
  tauto

/-- The record would be written to the twin it belongs to. -/
def recordApplies (P : Platform) (connector : ConnectorRecord) (record : ExternalRecordPayload)
    (prior : CanonicalTwin) : Bool :=
  prior.connectorId = connector.id && !isStale prior record
    && prior.contentHash ≠ some (contentHash P record)

/-- Processing the record meets no blocked twin: neither the twin it
updates nor the one it inserts is blocked. -/
def ProcessKeeps (P : Platform) (s : ConnectorState) (orgId : Uuid)
    (connector : ConnectorRecord) (ids : FreshIds) (record : ExternalRecordPayload) : Prop :=
  match s.queue.db.twins.find? (twinKeyMatches orgId connector record) with
  | some prior =>
    recordApplies P connector record prior = true →
      ∀ t ∈ s.queue.db.twins, t.id = prior.id → t.orgId = orgId →
        ¬ Blocked P s.queue.db.orders s.entries t
  | none =>
    ¬ Blocked P s.queue.db.orders s.entries
      (newTwin P orgId connector record ids.twin ids.node)

/-- A step that sets a twin to synced finds nothing else that blocks it, and
an entry that dies has the natural key of the twins in its partition. -/
def Keeps (P : Platform) (s : ConnectorState) : ConnectorAction → Prop
  | .order (.push call _ _ _) =>
    ∀ work claimId transactionId targetState fields,
      s.queue.calls call = some (.writing work claimId transactionId targetState fields) →
      ∀ t ∈ s.queue.db.twins, t.id = work.targetTwinId → t.orgId = work.orgId →
        (∀ w ∈ s.queue.db.orders, w.id = work.id → w.blocks t = false) ∧
        ∀ e ∈ s.entries, e.blocks P t = false
  | .order (.reinject orgId connectorId entryId twinId _ _ _ _ _) =>
    ∀ t ∈ s.queue.db.twins, t.id = twinId → t.orgId = orgId →
      (∀ w ∈ s.queue.db.orders, w.blocks t = true →
        w.id = entryId ∧ w.targetConnectorId = connectorId) ∧
      ∀ e ∈ s.entries, e.blocks P t = false
  | .process call ids =>
    ∀ orgId connector job claimId,
      s.ingesting call = some (.claimed orgId connector job claimId) →
      ProcessKeeps P s orgId connector ids job.payload
  | .failEntry call error _ =>
    ∀ orgId connector job claimId,
      (s.ingesting call).bind IngestionStage.job? = some (orgId, connector, job, claimId) →
      (∀ message until_, error ≠ .loadShed message until_) → entryFinal job = true →
      ∀ e ∈ s.entries, isEntry job e = true → ∀ t ∈ s.queue.db.twins,
        { e with status := .dead }.blocks P t = true →
        twinKeyMatches orgId connector job.payload t = true ∨ t.syncState = .paused
  | .reinjectEntry orgId connector entryId (some twinId) _ _ =>
    ∀ t ∈ s.queue.db.twins, t.id = twinId → t.orgId = orgId →
      (∀ w ∈ s.queue.db.orders, w.blocks t = false) ∧
      ∀ e ∈ s.entries, e.blocks P t = true → e.id = entryId ∧ e.connectorId = connector.id
  | _ => True

/-! ## What a statement does to the blocked twins -/

section Statements

variable {P : Platform} {orders orders' : List WorkOrder} {entries entries' : List IngestionEntry}
  {twins twins' : List CanonicalTwin}

def Calm (P : Platform) (orders orders' : List WorkOrder)
    (entries entries' : List IngestionEntry) (twins twins' : List CanonicalTwin) : Prop :=
  ∀ t ∈ twins', Blocked P orders' entries' t →
    t.syncState = .paused ∨ (t ∈ twins ∧ Blocked P orders entries t)

/-- No twin is blocked by the orders that was not before. -/
def OrdersCalm (orders orders' : List WorkOrder) : Prop :=
  ∀ t, (∃ w ∈ orders', w.blocks t = true) → ∃ w ∈ orders, w.blocks t = true

def EntriesCalm (P : Platform) (entries entries' : List IngestionEntry) : Prop :=
  ∀ t, (∃ e ∈ entries', e.blocks P t = true) → ∃ e ∈ entries, e.blocks P t = true

theorem OrdersCalm.refl (orders : List WorkOrder) : OrdersCalm orders orders := fun _ h => h

theorem EntriesCalm.refl (P : Platform) (entries : List IngestionEntry) :
    EntriesCalm P entries entries := fun _ h => h

theorem OrdersCalm.update {p : WorkOrder → Bool} {f : WorkOrder → WorkOrder}
    (hf : ∀ w ∈ orders, p w = true → ∀ t, (f w).blocks t = true → w.blocks t = true) :
    OrdersCalm orders (Table.update p f orders) := by
  rintro t ⟨w, hw, hblocks⟩
  rcases Table.mem_update.mp hw with ⟨q, hq, hp, rfl⟩ | ⟨hw, -⟩
  · exact ⟨q, hq, hf q hq hp t hblocks⟩
  · exact ⟨w, hw, hblocks⟩

theorem not_blocks_of_status {w : WorkOrder} {t : CanonicalTwin} (hdead : w.status ≠ .dead)
    (hheld : w.status ≠ .held) : ¬ w.blocks t = true := by
  intro h
  rcases (order_blocks_iff.mp h).2.2 with hs | hs
  · exact hdead hs
  · exact hheld hs

theorem EntriesCalm.update {p : IngestionEntry → Bool} {f : IngestionEntry → IngestionEntry}
    (hf : ∀ e ∈ entries, p e = true → (f e).status ≠ .dead) :
    EntriesCalm P entries (Table.update p f entries) := by
  rintro t ⟨e, he, hblocks⟩
  rcases Table.mem_update.mp he with ⟨q, hq, hp, rfl⟩ | ⟨he, -⟩
  · exact absurd (entry_blocks_iff.mp hblocks).2.2.2 (hf q hq hp)
  · exact ⟨e, he, hblocks⟩

theorem Calm.of_orders (ho : OrdersCalm orders orders') (he : EntriesCalm P entries entries') :
    Calm P orders orders' entries entries' twins twins := by
  rintro t ht (hblocked | hblocked)
  · exact .inr ⟨ht, .inl (ho t hblocked)⟩
  · exact .inr ⟨ht, .inr (he t hblocked)⟩

theorem Calm.pause {p : CanonicalTwin → Bool}
    (h : ∀ t ∈ twins, p t = false → Blocked P orders' entries' t →
      t.syncState = .paused ∨ Blocked P orders entries t) :
    Calm P orders orders' entries entries' twins
      (Table.update p (fun t => { t with syncState := .paused }) twins) := by
  intro t ht hblocked
  rcases Table.mem_update.mp ht with ⟨q, -, -, rfl⟩ | ⟨ht, hp⟩
  · exact .inl rfl
  · exact (h t ht hp hblocked).imp id fun hold => ⟨ht, hold⟩

/-- A write that keeps the columns a block is found by. -/
structure KeepsPlace (f : CanonicalTwin → CanonicalTwin) : Prop where
  blocked : ∀ P orders entries t, Blocked P orders entries (f t) ↔ Blocked P orders entries t

theorem keepsPlace_syncState (state : SyncState) :
    KeepsPlace fun t => { t with syncState := state } := ⟨fun _ _ _ _ => Iff.rfl⟩

theorem keepsPlace_applyRecord (P : Platform) (record : ExternalRecordPayload)
    (nodeId : Uuid) : KeepsPlace (applyRecord P record nodeId) := ⟨fun _ _ _ _ => Iff.rfl⟩

theorem Calm.resume {p : CanonicalTwin → Bool} {f : CanonicalTwin → CanonicalTwin}
    (hplace : KeepsPlace f) (ho : OrdersCalm orders orders')
    (he : EntriesCalm P entries entries')
    (hfree : ∀ t ∈ twins, p t = true → ¬ Blocked P orders' entries' t) :
    Calm P orders orders' entries entries' twins (Table.update p f twins) := by
  intro t ht hblocked
  rcases Table.mem_update.mp ht with ⟨q, hq, hp, rfl⟩ | ⟨ht, -⟩
  · exact absurd ((hplace.blocked _ _ _ _).mp hblocked) (hfree q hq hp)
  · exact Calm.of_orders ho he t ht hblocked

end Statements

/-! ## The claimed order of a call -/

def ClaimsKnown (s : QueueState) : Prop :=
  ∀ c work claimId, (s.calls c).bind Stage.claim? = some (work, claimId) →
    ∃ w ∈ s.db.orders, w.key = work.key

/-- How a call comes to its next stage. -/
inductive StageMove (s : QueueState) (a : QueueAction) (call : Nat) : Stage → Prop where
  | loaded (row : WorkOrder) : StageMove s a call (.loaded row)
  | unblocked (row : WorkOrder) : StageMove s a call (.unblocked row)
  | claimed {work : WorkOrder} {claimId : String} {dbNow workerNow : Millis} :
      a = .claim call claimId dbNow workerNow → (∃ w ∈ s.db.orders, w.key = work.key) →
      StageMove s a call (claimedStage work claimId)
  | translated {work : WorkOrder} {claimId : String} {transactionId : Option Uuid}
      {targetState : Option String} {fields : Fields} :
      s.calls call = some (.translating work claimId) →
      StageMove s a call (.writing work claimId transactionId targetState fields)
  | returned (status : WorkOrderStatus) : StageMove s a call (.returned status)

theorem calls_step {a : QueueAction} (hstep : queueStep P s a = some t) :
    t.calls = s.calls ∨ ∃ c stage, t.calls = setAt s.calls c (some stage) ∧ StageMove s a c stage := by
  cases a with
  | insert n =>
    simp only [queueStep, insertStep] at hstep
    split at hstep <;> cases hstep
    exact .inl rfl
  | load call orgId workOrderId now connectorOpen =>
    simp only [queueStep, loadStep] at hstep
    split at hstep
    · cases hstep
      refine .inr ⟨call, _, rfl, ?_⟩
      split
      · exact .loaded _
      · exact .returned _
    · cases hstep
  | checkBlocked call =>
    simp only [queueStep, checkBlockedStep] at hstep
    split at hstep
    · cases hstep
      refine .inr ⟨call, _, rfl, ?_⟩
      split
      · exact .returned _
      · exact .unblocked _
    · cases hstep
  | claim call drawn dbNow workerNow =>
    simp only [queueStep, claimStep] at hstep
    split at hstep
    · cases hstep
      refine .inr ⟨call, _, rfl, ?_⟩
      split
      · rename_i work hres
        simp only [claimWorkOrder, Option.map_eq_some_iff] at hres
        obtain ⟨v, hv, rfl⟩ := hres
        exact .claimed rfl ⟨v, List.mem_of_find?_eq_some hv, rfl⟩
      · exact .returned _
    · cases hstep
  | translate call translation times =>
    simp only [queueStep, translateStep] at hstep
    split at hstep
    · rename_i work claimId hcall
      cases translation with
      | hold =>
        cases hstep
        exact .inr ⟨call, _, rfl, .returned _⟩
      | ready =>
        simp only at hstep
        split at hstep <;> cases hstep
        · exact .inr ⟨call, _, rfl, .returned _⟩
        · exact .inr ⟨call, _, rfl, .translated hcall⟩
    · cases hstep
  | push call provider message times =>
    simp only [queueStep, pushStep] at hstep
    split at hstep <;> cases hstep
    exact .inr ⟨call, _, rfl, .returned _⟩
  | fail call error transactionId targetState times =>
    simp only [queueStep, failStep] at hstep
    split at hstep
    · cases hstep
      cases error <;> exact .inr ⟨call, _, rfl, .returned _⟩
    · cases hstep
      cases error <;> exact .inr ⟨call, _, rfl, .returned _⟩
    · cases hstep
  | renew call workerNow =>
    simp only [queueStep, renewStep] at hstep
    split at hstep <;> cases hstep
    exact .inl rfl
  | reinject =>
    cases hstep
    exact .inl rfl
  | recover =>
    cases hstep
    exact .inl rfl

theorem queueStep_claims {a : QueueAction}
    (hstep : queueStep P s a = some t) {c : Nat} {work : WorkOrder} {claimId : String}
    (hclaim : (t.calls c).bind Stage.claim? = some (work, claimId)) :
    (s.calls c).bind Stage.claim? = some (work, claimId) ∨
      ∃ w ∈ s.db.orders, w.key = work.key := by
  rcases calls_step hstep with hsame | ⟨call, stage, hset, hmove⟩
  · rw [hsame] at hclaim
    exact .inl hclaim
  · rw [hset] at hclaim
    by_cases hc : c = call
    · subst hc
      rw [setAt_same, Option.bind_some] at hclaim
      cases hmove with
      | loaded | unblocked | returned => cases hclaim
      | claimed _ hrow =>
        rw [claimedStage_claim] at hclaim
        obtain ⟨rfl, rfl⟩ := Prod.mk.inj (Option.some.inj hclaim)
        exact .inr hrow
      | translated hcall =>
        rw [hcall]
        exact .inl hclaim
    · rw [setAt_other _ _ hc] at hclaim
      exact .inl hclaim

theorem ClaimsKnown.step {a : QueueAction}
    (h : ClaimsKnown s) (hfifo : FifoInv s) (hstep : queueStep P s a = some t) :
    ClaimsKnown t := by
  intro c work claimId hclaim
  have hknown : ∃ w ∈ s.db.orders, w.key = work.key := by
    rcases queueStep_claims hstep hclaim with hold | hnew
    · exact h c work claimId hold
    · exact hnew
  obtain ⟨w, hw, hkey⟩ := hknown
  obtain ⟨v, hv, hvw⟩ := hfifo.key_step hstep hw
  exact ⟨v, hv, hvw.trans hkey⟩

theorem ClaimsKnown.held_target (h : ClaimsKnown s) (hfifo : FifoInv s)
    {c : Nat} {work : WorkOrder} {claimId : String}
    (hcall : (s.calls c).bind Stage.claim? = some (work, claimId)) {w : WorkOrder}
    (hw : w ∈ s.db.orders) (hheld : heldBy work claimId w = true) :
    w.targetTwinId = work.targetTwinId ∧ w.orgId = work.orgId := by
  obtain ⟨v, hv, hkey⟩ := h c work claimId hcall
  simp only [heldBy, Bool.and_eq_true, decide_eq_true_eq] at hheld
  have hwv : w = v := Table.eq_of_key hfifo.ids hw hv
    (hheld.1.1.trans (congrArg (·.1) hkey).symm)
  exact ⟨hwv ▸ congrArg (·.2.2.1) hkey, hheld.1.2⟩

/-! ## The steps of the work-order queue -/

section OrderSteps

variable {P : Platform} {s t : QueueState} {entries : List IngestionEntry}

/-- What `Calm` says of a step of the work orders. -/
def QueueCalm (P : Platform) (entries : List IngestionEntry) (s t : QueueState) : Prop :=
  Calm P s.db.orders t.db.orders entries entries s.db.twins t.db.twins

theorem QueueCalm.of_orders (ho : OrdersCalm s.db.orders t.db.orders)
    (htwins : t.db.twins = s.db.twins) : QueueCalm P entries s t := by
  rw [QueueCalm, htwins]
  exact Calm.of_orders ho (EntriesCalm.refl P entries)

theorem QueueCalm.pause (hknown : ClaimsKnown s) (hfifo : FifoInv s) {c : Nat}
    {work : WorkOrder} {claimId : String}
    (hcall : (s.calls c).bind Stage.claim? = some (work, claimId))
    {set : WorkOrder → WorkOrder} (hkey : ∀ w, (set w).key = w.key)
    (horders : t.db.orders = Table.update (heldBy work claimId) set s.db.orders)
    (htwins : t.db.twins = setSyncState s.db.twins work.targetTwinId work.orgId .paused) :
    QueueCalm P entries s t := by
  rw [QueueCalm, htwins]
  refine Calm.pause fun u _ hother hblocked => .inr ?_
  rcases hblocked with ⟨w, hw, hblocks⟩ | hentry
  · rw [horders] at hw
    rcases Table.mem_update.mp hw with ⟨q, hq, hheld, rfl⟩ | ⟨hw, -⟩
    · -- the order that was written belongs to the paused twin
      obtain ⟨htwin, horg⟩ := hknown.held_target hfifo hcall hq hheld
      have hk := hkey q
      simp only [WorkOrder.key, Prod.mk.injEq] at hk
      obtain ⟨horgu, htwinu, -⟩ := order_blocks_iff.mp hblocks
      have hmatch : u.id = work.targetTwinId ∧ u.orgId = work.orgId :=
        ⟨by rw [← htwinu, hk.2.2.1, htwin], by rw [← horgu, hk.2.1, horg]⟩
      simp [hmatch] at hother
    · exact .inl ⟨w, hw, hblocks⟩
  · exact .inr hentry

theorem held_ordersCalm {work : WorkOrder} {claimId : String} {set : WorkOrder → WorkOrder}
    {orders : List WorkOrder} (hdead : ∀ w, (set w).status ≠ .dead)
    (hheld : ∀ w, (set w).status ≠ .held) :
    OrdersCalm orders (Table.update (heldBy work claimId) set orders) :=
  OrdersCalm.update fun w _ _ _ h => absurd h (not_blocks_of_status (hdead w) (hheld w))

theorem insert_calm {n : NewWorkOrder} (hstep : insertStep s n = some t) :
    QueueCalm P entries s t := by
  unfold insertStep at hstep
  split at hstep <;> cases hstep
  refine QueueCalm.of_orders ?_ rfl
  rintro u ⟨w, hw, hblocks⟩
  simp only [insertWorkOrder] at hw
  split at hw
  · exact ⟨w, hw, hblocks⟩
  · rcases List.mem_append.mp hw with hw | hw
    · exact ⟨w, hw, hblocks⟩
    · rw [List.mem_singleton.mp hw] at hblocks
      exact absurd hblocks (not_blocks_of_status (by rintro ⟨⟩) (by rintro ⟨⟩))

theorem translate_calm (hknown : ClaimsKnown s) (hfifo : FifoInv s) {call : Nat}
    {translation : Translation} {times : AttemptTimes}
    (hstep : translateStep P s call translation times = some t) :
    QueueCalm P entries s t := by
  unfold translateStep at hstep
  split at hstep
  · rename_i work claimId hcall
    have hclaim : (s.calls call).bind Stage.claim? = some (work, claimId) := by
      rw [hcall]
      rfl
    cases translation with
    | hold transactionId reason message =>
      cases hstep
      refine QueueCalm.pause hknown hfifo hclaim ?_ rfl rfl
      exact fun _ => rfl
    | ready transactionId targetState fields effectiveStatus =>
      simp only at hstep
      split at hstep
      · cases hstep
        exact QueueCalm.of_orders
          (held_ordersCalm (fun _ h => nomatch h) (fun _ h => nomatch h)) rfl
      · cases hstep
        exact QueueCalm.of_orders (OrdersCalm.update fun _ _ _ _ h => h) rfl
  · cases hstep

theorem failWith_calm (hknown : ClaimsKnown s) (hfifo : FifoInv s) {call : Nat}
    {work : WorkOrder} {claimId : String}
    (hclaim : (s.calls call).bind Stage.claim? = some (work, claimId)) (translating : Bool)
    (report : WorkOrderReport) (error : ExecError) (times : AttemptTimes) :
    QueueCalm P entries s
      (failWith s call work claimId translating report error times) := by
  have hshed : ∀ message until_, QueueCalm P entries s
      (failWith s call work claimId translating report (.loadShed message until_) times) :=
    fun _ _ => QueueCalm.of_orders
      (held_ordersCalm (fun _ h => nomatch h) (fun _ h => nomatch h)) rfl
  have hsettled : ∀ final message next attempt event stage, QueueCalm P entries s
      (s.advance (settleFailed s.db work claimId final message next attempt event) call
        stage) := by
    intro final message next attempt event stage
    cases final with
    | true =>
      refine QueueCalm.pause hknown hfifo hclaim ?_ rfl rfl
      exact fun _ => rfl
    | false =>
      exact QueueCalm.of_orders
        (held_ordersCalm (fun _ h => nomatch h) (fun _ h => nomatch h)) rfl
  cases error with
  | loadShed message until_ => exact hshed message until_
  | remote => exact hsettled _ _ _ _ _ _
  | credential => exact hsettled _ _ _ _ _ _
  | other => exact hsettled _ _ _ _ _ _

theorem push_calm {call : Nat} {provider message : String} {times : AttemptTimes}
    (hkeeps : ∀ work claimId transactionId targetState fields,
      s.calls call = some (.writing work claimId transactionId targetState fields) →
      ∀ u ∈ s.db.twins, u.id = work.targetTwinId → u.orgId = work.orgId →
        (∀ w ∈ s.db.orders, w.id = work.id → w.blocks u = false) ∧
        ∀ e ∈ entries, e.blocks P u = false)
    (hstep : pushStep s call provider message times = some t) :
    QueueCalm P entries s t := by
  unfold pushStep at hstep
  split at hstep
  · rename_i work claimId transactionId targetState fields hcall
    cases hstep
    have ho : OrdersCalm s.db.orders (Table.update (heldBy work claimId)
        (fun w => { w.release .executed with
          executedAt := some times.completedAt, lastError := none, nextAttemptAt := none
          attemptHistory := work.attemptHistory ++ [attemptOf work times .executed none] })
        s.db.orders) :=
      held_ordersCalm (fun _ h => nomatch h) (fun _ h => nomatch h)
    refine Calm.resume (keepsPlace_syncState .synced) ho (EntriesCalm.refl P entries) ?_
    intro u hu hmatch hblocked
    simp only [Bool.and_eq_true, decide_eq_true_eq, Bool.not_eq_true'] at hmatch
    obtain ⟨⟨hid, horg⟩, hguard⟩ := hmatch
    obtain ⟨hown, hentries⟩ := hkeeps work claimId transactionId targetState fields hcall u hu
      hid horg
    rcases hblocked with ⟨w, hw, hblocks⟩ | ⟨e, he, hblocks⟩
    · obtain ⟨hworg, hwtwin, hstatus⟩ := order_blocks_iff.mp hblocks
      by_cases hself : w.id = work.id
      · -- the settled order itself was not dead or held before either
        rcases Table.mem_update.mp hw with ⟨q, -, -, rfl⟩ | ⟨hw, -⟩
        · rcases hstatus with h | h <;> cases h
        · rw [hown w hw hself] at hblocks
          cases hblocks
      · -- another order would have stopped the guarded statement
        have hfound := List.any_eq_false.mp hguard w hw
        simp [hworg, hwtwin, hself, hstatus] at hfound
    · rw [hentries e he] at hblocks
      cases hblocks
  · cases hstep

theorem reinject_calm {orgId connectorId entryId twinId : Uuid} {sourcePayload : Fields}
    {targetState : String} {fields : Fields} {history : List ConnectorQueueAttempt}
    {corrected : Bool}
    (hkeeps : ∀ u ∈ s.db.twins, u.id = twinId → u.orgId = orgId →
      (∀ w ∈ s.db.orders, w.blocks u = true →
        w.id = entryId ∧ w.targetConnectorId = connectorId) ∧
      ∀ e ∈ entries, e.blocks P u = false) :
    QueueCalm P entries s { s with
      db := reinjectWorkOrder s.db orgId connectorId entryId twinId sourcePayload targetState
        fields history corrected } := by
  refine Calm.resume (keepsPlace_syncState .synced)
    (OrdersCalm.update fun w _ _ _ h =>
      absurd h (not_blocks_of_status (fun h => nomatch h) (fun h => nomatch h)))
    (EntriesCalm.refl P entries) ?_
  intro u hu hmatch hblocked
  simp only [Bool.and_eq_true, decide_eq_true_eq] at hmatch
  obtain ⟨horders, hentries⟩ := hkeeps u hu hmatch.1 hmatch.2
  rcases hblocked with ⟨w, hw, hblocks⟩ | ⟨e, he, hblocks⟩
  · rcases Table.mem_update.mp hw with ⟨q, -, -, rfl⟩ | ⟨hw, hnot⟩
    · exact absurd hblocks (not_blocks_of_status (fun h => nomatch h) (fun h => nomatch h))
    · obtain ⟨hid, hconnector⟩ := horders w hw hblocks
      obtain ⟨hworg, -, hstatus⟩ := order_blocks_iff.mp hblocks
      simp only [hid, hconnector, hworg, hmatch.2, decide_true, Bool.true_and,
        Bool.or_eq_false_iff, decide_eq_false_iff_not] at hnot
      rcases hstatus with h | h
      · exact hnot.1 h
      · exact hnot.2 h
  · rw [hentries e he] at hblocks
    cases hblocks

theorem queueStep_calm {c : ConnectorState} {a : QueueAction} (hknown : ClaimsKnown c.queue)
    (hfifo : FifoInv c.queue) (hkeeps : Keeps P c (.order a))
    (hstep : queueStep P c.queue a = some t) : QueueCalm P c.entries c.queue t := by
  have hsame : t.db = c.queue.db → QueueCalm P c.entries c.queue t := fun h =>
    QueueCalm.of_orders (by rw [h]; exact OrdersCalm.refl _) (by rw [h])
  cases a with
  | insert n => exact insert_calm hstep
  | load =>
    simp only [queueStep, loadStep] at hstep
    split at hstep <;> cases hstep
    exact hsame rfl
  | checkBlocked =>
    simp only [queueStep, checkBlockedStep] at hstep
    split at hstep <;> cases hstep
    exact hsame rfl
  | claim =>
    simp only [queueStep, claimStep] at hstep
    split at hstep <;> cases hstep
    exact QueueCalm.of_orders (OrdersCalm.update fun w _ _ _ h =>
      absurd h (not_blocks_of_status (by rintro ⟨⟩) (by rintro ⟨⟩))) rfl
  | translate => exact translate_calm hknown hfifo hstep
  | push => exact push_calm hkeeps hstep
  | fail call error transactionId targetState times =>
    simp only [queueStep, failStep] at hstep
    split at hstep
    · rename_i hcall
      cases hstep
      exact failWith_calm hknown hfifo (by rw [hcall]; rfl) _ _ _ _
    · rename_i hcall
      cases hstep
      exact failWith_calm hknown hfifo (by rw [hcall]; rfl) _ _ _ _
    · cases hstep
  | renew =>
    simp only [queueStep, renewStep] at hstep
    split at hstep <;> cases hstep
    exact QueueCalm.of_orders (OrdersCalm.update fun _ _ _ _ h => h) rfl
  | reinject =>
    cases hstep
    exact reinject_calm hkeeps
  | recover =>
    cases hstep
    exact QueueCalm.of_orders (OrdersCalm.update fun w _ _ _ h =>
      absurd h (not_blocks_of_status (by rintro ⟨⟩) (by rintro ⟨⟩))) rfl

end OrderSteps

/-! ## The steps of the ingestion queue -/

section EntrySteps

variable {P : Platform} {s t : ConnectorState}

/-- What `Calm` says of a step of both queues. -/
def ConnectorCalm (P : Platform) (s t : ConnectorState) : Prop :=
  Calm P s.queue.db.orders t.queue.db.orders s.entries t.entries s.queue.db.twins
    t.queue.db.twins

theorem ConnectorCalm.of_entries (he : EntriesCalm P s.entries t.entries)
    (hqueue : t.queue = s.queue) : ConnectorCalm P s t := by
  rw [ConnectorCalm, hqueue]
  exact Calm.of_orders (OrdersCalm.refl _) he

variable {connector : ConnectorRecord}

theorem accept_calm {orgId : Uuid} {entityType : String} {accepted : AcceptedRecord}
    (hstep : acceptStep P s orgId connector entityType accepted = some t) :
    ConnectorCalm P s t := by
  simp only [acceptStep] at hstep
  split at hstep <;> cases hstep
  refine ConnectorCalm.of_entries ?_ rfl
  rintro u ⟨e, he, hblocks⟩
  simp only at he
  split at he
  · exact ⟨e, he, hblocks⟩
  · rcases List.mem_append.mp he with he | he
    · exact ⟨e, he, hblocks⟩
    · rw [List.mem_singleton.mp he] at hblocks
      exact nomatch (entry_blocks_iff.mp hblocks).2.2.2

theorem claimEntry_calm {call : Nat} {orgId : Uuid} {entryId : Uuid} {claimId : String} {dbNow workerNow : Millis}
    (hstep : claimEntryStep s call orgId connector entryId claimId dbNow workerNow = some t) :
    ConnectorCalm P s t := by
  unfold claimEntryStep at hstep
  split at hstep <;> cases hstep
  exact ConnectorCalm.of_entries (EntriesCalm.update fun _ _ _ h => nomatch h) rfl

theorem complete_calm {call : Nat} {times : AttemptTimes}
    (hstep : completeStep s call times = some t) : ConnectorCalm P s t := by
  unfold completeStep at hstep
  split at hstep <;> cases hstep
  exact ConnectorCalm.of_entries (EntriesCalm.update fun _ _ _ h => nomatch h) rfl

theorem processRecord_twins {orgId : Uuid} {ids : FreshIds}
    {record : ExternalRecordPayload} {tables after : IngestState} {outcome : RecordOutcome}
    {event : Option TwinEvent}
    (h : processRecord P orgId connector ids record tables = .ok (outcome, after, event)) :
    after.twins = tables.twins ∨
      (∃ prior nodeId, tables.twins.find? (twinKeyMatches orgId connector record) = some prior ∧
        recordApplies P connector record prior = true ∧
        after.twins = Table.update (fun t => t.id = prior.id && t.orgId = orgId)
          (applyRecord P record nodeId) tables.twins) ∨
      (∃ nodeId, tables.twins.find? (twinKeyMatches orgId connector record) = none ∧
        after.twins = tables.twins ++ [newTwin P orgId connector record ids.twin nodeId]) := by
  cases RecordChange.of_processRecord h with
  | same => exact .inl rfl
  | @updated prior nodeId _ hprior hconnector hstale hhash =>
    refine .inr (.inl ⟨prior, nodeId, hprior, ?_, rfl⟩)
    simp only [recordApplies, Bool.and_eq_true, decide_eq_true_eq]
    exact ⟨⟨hconnector, by simpa using hstale⟩, hhash⟩
  | @created nodeId _ hnone => exact .inr (.inr ⟨nodeId, hnone, rfl⟩)

theorem process_calm {call : Nat} {ids : FreshIds}
    (hkeeps : Keeps P s (.process call ids)) (hstep : processStep P s call ids = some t) :
    ConnectorCalm P s t := by
  unfold processStep at hstep
  split at hstep
  · rename_i orgId connector job claimId hcall
    have hfree := hkeeps orgId connector job claimId hcall
    split at hstep
    · rename_i outcome after event hok
      cases hstep
      have horders := OrdersCalm.refl s.queue.db.orders
      have hentries := EntriesCalm.refl P s.entries
      rcases processRecord_twins hok with hsame | ⟨prior, nodeId, hprior, happlies, hset⟩ |
        ⟨nodeId, hnone, hset⟩
      · show Calm P s.queue.db.orders s.queue.db.orders s.entries s.entries s.queue.db.twins
          after.twins
        rw [hsame]
        exact Calm.of_orders horders hentries
      · show Calm P s.queue.db.orders s.queue.db.orders s.entries s.entries s.queue.db.twins
          after.twins
        simp only [ConnectorState.tables] at hprior
        simp only [ProcessKeeps, hprior] at hfree
        rw [hset]
        refine Calm.resume (keepsPlace_applyRecord P job.payload nodeId) horders hentries ?_
        intro u hu hmatch
        simp only [Bool.and_eq_true, decide_eq_true_eq] at hmatch
        exact hfree happlies u hu hmatch.1 hmatch.2
      · show Calm P s.queue.db.orders s.queue.db.orders s.entries s.entries s.queue.db.twins
          after.twins
        simp only [ConnectorState.tables] at hnone
        simp only [ProcessKeeps, hnone] at hfree
        rw [hset]
        intro u hu hblocked
        rcases List.mem_append.mp hu with hu | hu
        · exact .inr ⟨hu, hblocked⟩
        · rw [List.mem_singleton.mp hu] at hblocked
          exact absurd hblocked hfree
    · cases hstep
  · cases hstep

theorem failEntry_calm {call : Nat} {error : ExecError} {times : AttemptTimes}
    (hkeeps : Keeps P s (.failEntry call error times))
    (hstep : failEntryStep s call error times = some t) : ConnectorCalm P s t := by
  unfold failEntryStep at hstep
  split at hstep
  · rename_i orgId connector job claimId hcall
    have hdies := hkeeps orgId connector job claimId hcall
    split at hstep
    · cases hstep
      exact ConnectorCalm.of_entries (EntriesCalm.update fun _ _ _ h => nomatch h) rfl
    · rename_i hnotShed
      cases hstep
      by_cases hfinal : entryFinal job = true
      · simp only [hfinal, if_true]
        refine Calm.pause fun u hu hother hblocked => ?_
        rcases hblocked with horder | ⟨e, he, hblocks⟩
        · exact .inr (.inl horder)
        · rcases Table.mem_update.mp he with ⟨q, hq, hmatch, rfl⟩ | ⟨he, -⟩
          · -- the entry that dies: its partition is that of the paused twins
            have hplace : { q with status := .dead }.blocks P u = true := by
              rw [entry_blocks_iff] at hblocks ⊢
              exact ⟨hblocks.1, hblocks.2.1, hblocks.2.2.1, rfl⟩
            rcases hdies hnotShed hfinal q hq hmatch u hu hplace with hkey | hpaused
            · rw [hkey] at hother
              cases hother
            · exact .inl hpaused
          · exact .inr (.inr ⟨e, he, hblocks⟩)
      · simp only [hfinal]
        refine ConnectorCalm.of_entries (EntriesCalm.update fun e _ _ => ?_) rfl
        simp [Connectors.failEntry, IngestionEntry.release, hfinal]
  · cases hstep

theorem reinjectEntry_calm {orgId : Uuid} {entryId : Uuid} {twinId : Option Uuid} {payload : ExternalRecordPayload}
    {history : List ConnectorQueueAttempt}
    (hkeeps : Keeps P s (.reinjectEntry orgId connector entryId twinId payload history)) :
    ConnectorCalm P s
      (reinjectEntryStep P s orgId connector entryId twinId payload history) := by
  have hentries : EntriesCalm P s.entries (Table.update
      (fun e => e.id = entryId && e.orgId = orgId && e.connectorId = connector.id
        && e.status = .dead)
      (Connectors.reinjectEntry P connector payload history) s.entries) :=
    EntriesCalm.update fun _ _ _ h => nomatch h
  cases twinId with
  | none => exact ConnectorCalm.of_entries hentries rfl
  | some id =>
    refine Calm.resume (keepsPlace_syncState .synced) (OrdersCalm.refl _) hentries ?_
    intro u hu hmatch hblocked
    simp only [Bool.and_eq_true, decide_eq_true_eq] at hmatch
    obtain ⟨horders, hdead⟩ := hkeeps u hu hmatch.1 hmatch.2
    rcases hblocked with ⟨w, hw, hblocks⟩ | ⟨e, he, hblocks⟩
    · have hfree := horders w hw
      rw [hblocks] at hfree
      cases hfree
    · rcases Table.mem_update.mp he with ⟨q, -, -, rfl⟩ | ⟨he, hnot⟩
      · exact nomatch (entry_blocks_iff.mp hblocks).2.2.2
      · obtain ⟨hid, hconnector⟩ := hdead e he hblocks
        obtain ⟨horg, -, -, hstatus⟩ := entry_blocks_iff.mp hblocks
        simp [hid, hconnector, horg, hmatch.2, hstatus] at hnot

theorem connectorStep_calm {a : ConnectorAction} (hknown : ClaimsKnown s.queue)
    (hfifo : FifoInv s.queue) (hkeeps : Keeps P s a) (hstep : connectorStep P s a = some t) :
    ConnectorCalm P s t := by
  cases a with
  | order a =>
    simp only [connectorStep, Option.map_eq_some_iff] at hstep
    obtain ⟨q, hq, rfl⟩ := hstep
    exact queueStep_calm hknown hfifo hkeeps hq
  | accept => exact accept_calm hstep
  | claimEntry => exact claimEntry_calm hstep
  | process => exact process_calm hkeeps hstep
  | complete => exact complete_calm hstep
  | failEntry => exact failEntry_calm hkeeps hstep
  | reinjectEntry =>
    cases hstep
    exact reinjectEntry_calm hkeeps
  | recoverEntries =>
    cases hstep
    exact ConnectorCalm.of_entries (EntriesCalm.update fun _ _ _ h => nomatch h) rfl

end EntrySteps

/-! ## Runs -/

/-- The invariant: the two facts about the work orders that the steps need,
and the one that is shown. -/
structure PausedInv (P : Platform) (s : ConnectorState) : Prop where
  fifo : FifoInv s.queue
  known : ClaimsKnown s.queue
  visible : VisiblyPaused P s

theorem pausedInv_idle (P : Platform) (tables : IngestState) :
    PausedInv P (idleConnectors tables) where
  fifo := fifoInv_empty tables.twins
  known c work claimId h := by cases h
  visible t _ h := by
    rcases h with ⟨w, hw, -⟩ | ⟨e, he, -⟩
    · cases hw
    · cases he

/-- A step of the ingestion queue leaves orders and calls alone. -/
structure SameOrders (s t : ConnectorState) : Prop where
  orders : t.queue.db.orders = s.queue.db.orders
  nextPosition : t.queue.db.nextPosition = s.queue.db.nextPosition
  calls : t.queue.calls = s.queue.calls

theorem connectorStep_orders {s t : ConnectorState} {a : ConnectorAction} (hstep : connectorStep P s a = some t) :
    (∃ b, a = .order b ∧ queueStep P s.queue b = some t.queue) ∨ SameOrders s t := by
  cases a with
  | order b =>
    simp only [connectorStep, Option.map_eq_some_iff] at hstep
    obtain ⟨q, hq, rfl⟩ := hstep
    exact .inl ⟨b, rfl, hq⟩
  | accept =>
    simp only [connectorStep, acceptStep] at hstep
    split at hstep <;> cases hstep
    exact .inr ⟨rfl, rfl, rfl⟩
  | claimEntry =>
    simp only [connectorStep, claimEntryStep] at hstep
    split at hstep <;> cases hstep
    exact .inr ⟨rfl, rfl, rfl⟩
  | process =>
    simp only [connectorStep, processStep] at hstep
    split at hstep
    · split at hstep <;> cases hstep
      exact .inr ⟨rfl, rfl, rfl⟩
    · cases hstep
  | complete =>
    simp only [connectorStep, completeStep] at hstep
    split at hstep <;> cases hstep
    exact .inr ⟨rfl, rfl, rfl⟩
  | failEntry =>
    simp only [connectorStep, failEntryStep] at hstep
    split at hstep
    · split at hstep <;> cases hstep
      · exact .inr ⟨rfl, rfl, rfl⟩
      · split <;> exact .inr ⟨rfl, rfl, rfl⟩
    · cases hstep
  | reinjectEntry orgId connector entryId twinId payload history =>
    cases hstep
    cases twinId <;> exact .inr ⟨rfl, rfl, rfl⟩
  | recoverEntries =>
    cases hstep
    exact .inr ⟨rfl, rfl, rfl⟩

theorem SameOrders.fifo {s t : ConnectorState} (h : SameOrders s t) (hfifo : FifoInv s.queue) :
    FifoInv t.queue := by
  constructor
  · rw [h.orders]; exact hfifo.ids
  · rw [h.orders]; exact hfifo.positions
  · rw [h.orders, h.nextPosition]; exact hfifo.issued
  · rw [h.orders]; exact hfifo.indexed
  · rw [h.orders]; exact hfifo.unclaimed
  · rw [h.orders]; exact hfifo.served
  · rw [h.orders, h.calls]; exact hfifo.loaded
  · rw [h.orders, h.calls]; exact hfifo.unblocked

theorem PausedInv.step {s t : ConnectorState} {a : ConnectorAction}
    (h : PausedInv P s) (hkeeps : Keeps P s a) (hstep : connectorStep P s a = some t) :
    PausedInv P t := by
  have hcalm := connectorStep_calm h.known h.fifo hkeeps hstep
  have hvisible : VisiblyPaused P t := by
    intro u hu hblocked
    rcases hcalm u hu hblocked with hpaused | ⟨hold, hwas⟩
    · exact hpaused
    · exact h.visible u hold hwas
  rcases connectorStep_orders hstep with ⟨b, rfl, hb⟩ | hsame
  · exact ⟨h.fifo.step hb, h.known.step h.fifo hb, hvisible⟩
  · refine ⟨hsame.fifo h.fifo, ?_, hvisible⟩
    rw [ClaimsKnown, hsame.orders, hsame.calls]
    exact h.known

/-- **A paused twin stays visibly paused, in every run that keeps it so**:
from any twins, and whatever the order of the steps, if no step sets a
blocked twin to synced, every twin with a dead or held order or a dead entry
in its partition is paused. -/
theorem paused_twin_stays_visible (P : Platform) (tables : IngestState)
    (as : List ConnectorAction) (s : ConnectorState)
    (hkeeps : (connectorSystem P).Along (Keeps P) (idleConnectors tables) as)
    (hrun : (connectorSystem P).run (idleConnectors tables) as = some s) :
    VisiblyPaused P s :=
  ((connectorSystem P).along_invariant (P := PausedInv P)
    (fun h hkeeps hstep => h.step hkeeps hstep) (pausedInv_idle P tables) hkeeps hrun).visible

def editedConnector : ConnectorRecord := ⟨2, "servicenow", "Service desk"⟩

/-- A propagated change of twin 5 that has no translation yet. -/
def statePropagation (id : Uuid) : NewWorkOrder :=
  { stateEdit id with origin := .statePropagation, targetState := none }

/-- The order is claimed and held for review, and its twin paused. -/
def holdOrder : List ConnectorAction :=
  [.order (.insert (statePropagation 10)), .order (.load 0 1 10 0 true),
   .order (.checkBlocked 0), .order (.claim 0 "w:0" 0 0),
   .order (.translate 0 (.hold none "unmapped_state" (some "No rule")) ⟨0, 1⟩)]

def editedTables : IngestState := ⟨[editedTwin], [], [editedConnector]⟩

theorem paused_twin_stays_visible_reinjected :
    ∃ s, (connectorSystem .ascii).run (idleConnectors editedTables)
        (holdOrder ++ [.order (.reinject 1 2 10 5 [] "Closed" [] [] false)]) = some s ∧
      VisiblyPaused .ascii s := by
  refine ⟨_, rfl, paused_twin_stays_visible .ascii editedTables
    (holdOrder ++ [.order (.reinject 1 2 10 5 [] "Closed" [] [] false)]) _ ?_ rfl⟩
  refine System.along_cons _ rfl trivial (System.along_cons _ rfl trivial ?_)
  refine System.along_cons _ rfl trivial (System.along_cons _ rfl trivial ?_)
  refine System.along_cons _ rfl trivial (System.along_cons _ rfl ?_ trivial)
  intro t _ _ _
  refine ⟨fun w hw _ => ?_, fun e he => nomatch he⟩
  rw [List.mem_singleton.mp hw]
  exact ⟨rfl, rfl⟩

/-- The provider's next change of the record that the held order is about. -/
def changedRecord : ExternalRecordPayload where
  externalId := "INC1"
  artifactType := "incident"
  title := "Printer"
  nativeKey := none
  nativeUrl := none
  status := "In Progress"
  fields := []
  fieldAuthority := none
  updatedAt := 60000
  updatedBy := none

def ingestChange : List ConnectorAction :=
  [.accept 1 editedConnector "incident" ⟨20, "INC1:60000", none, changedRecord⟩,
   .claimEntry 0 1 editedConnector 20 "w:1" 60000 60000, .process 0 ⟨6, 7, 8⟩]

/-- The changed record sets the twin to synced while its order is held. -/
theorem record_update_unpauses :
    ∃ s, (connectorSystem .ascii).run (idleConnectors editedTables)
        (holdOrder ++ ingestChange) = some s ∧
      s.queue.db.orders.map (·.status) = [.held] ∧
      s.queue.db.twins.map (·.syncState) = [.synced] ∧ ¬ VisiblyPaused .ascii s :=
  ⟨_, rfl, by decide, by decide, by decide⟩

end Cadena.Connectors
