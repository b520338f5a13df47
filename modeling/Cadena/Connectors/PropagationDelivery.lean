import Cadena.Connectors.Propagation

/-!
# Delivery attempts of one event

The consumer registry delivers an event again when an attempt throws. The
unique index keeps a second order for the same counterpart out; what it
cannot do is bring back an attempt that the guard turns away, because the
attempt before it already stored the content as the snapshot.
-/

namespace Cadena.Connectors

open Cadena.Base Cadena.Integrations

/-! ## The statement -/

/-- The tenant and the twin an event is about. -/
def sourceOf (event : TwinEvent) (s : PropagationState) : Option (Uuid × CanonicalTwin) :=
  match event.payload.orgId, event.payload.twinId.or event.workItemId with
  | some orgId, some twinId =>
    (s.queue.db.twins.find? fun t => t.id = twinId && t.orgId = orgId).map fun t => (orgId, t)
  | _, _ => none

def linkedTwins (event : TwinEvent) (s : PropagationState) : List CanonicalTwin :=
  match sourceOf event s with
  | some (orgId, source) => counterparts s orgId source
  | none => []

/-- `w` is the order of the event for the twin. -/
def IsOrderFor (event : TwinEvent) (twinId : Uuid) (w : WorkOrder) : Prop :=
  w.sourceEventId = some event.eventId ∧ w.targetTwinId = twinId

def HasOrder (orders : List WorkOrder) (event : TwinEvent) (twinId : Uuid) : Prop :=
  ∃ w ∈ orders, IsOrderFor event twinId w

/-- Every one of the twins has exactly one order of the event. -/
def DeliveredOnce (orders : List WorkOrder) (event : TwinEvent)
    (targets : List CanonicalTwin) : Prop :=
  ∀ c ∈ targets, ∃ w ∈ orders, IsOrderFor event c.id w ∧
    ∀ v ∈ orders, IsOrderFor event c.id v → v = w

/-- The attempt gets as far as the guard. -/
def TwinEvent.Propagates (event : TwinEvent) : Prop :=
  event.payload.orgId.isSome = true ∧ (event.payload.twinId.or event.workItemId).isSome = true ∧
    ¬ (event.payload.stateChanged = some false ∧ event.payload.fieldsChanged = some false) ∧
    event.eventType ≠ .connectorOperatorStateWritten

section

variable (P : Platform) (event : TwinEvent)

def Genuine (a : Attempt) (s : PropagationState) : Prop :=
  event.Propagates ∧ ∃ orgId source decision guard, sourceOf event s = some (orgId, source) ∧
    evaluateWebhook P s.nodes orgId
      (echoCheck s.mappings event (propagationInput event orgId source)) a.now s.guard
        = .ok (decision, guard) ∧
    decision.reason = .externalChange

/-- What the guard remembers when the attempt starts is the content and
actor of the event. -/
def LooksLikeEcho (a : Attempt) (s : PropagationState) : Prop :=
  ∃ orgId source o, sourceOf event s = some (orgId, source) ∧
    (let dto := echoCheck s.mappings event (propagationInput event orgId source)
     observe P s.nodes orgId dto.identity "actor_id" dto.actorId dto.payload = .ok o) ∧
    (hasMarker s.guard orgId o a.now = true ∨ matchesSnapshot s.guard orgId o = true)

/-- What others may do between two attempts: anything but touch the event's
receipt; orders change by steps of the queue only. -/
structure Interference (s t : PropagationState) : Prop where
  orders : ∃ as q, (queue P).run s.queue as = some q ∧ t.queue.db.orders = q.db.orders ∧
    t.queue.db.nextPosition = q.db.nextPosition ∧ t.queue.calls = q.calls
  receipts : ∀ r ∈ t.receipts, r.sourceEventId = event.eventId → r ∈ s.receipts

/-- The attempt `a` of the event begins in `s`: it is the first and the
event is a genuine change, or the attempts before it threw. -/
inductive Begins : Attempt → PropagationState → Prop where
  | first {a s} (inv : FifoInv s.queue)
      (new : ∀ r ∈ s.receipts, r.sourceEventId ≠ event.eventId)
      (genuine : Genuine P event a s) : Begins a s
  | again {a b s t u} (before : Begins a s)
      (threw : acceptPropagationEvent P event a s = (.threw, t))
      (others : Interference P event t u) : Begins b u

end

/-! ## Orders only grow -/

variable {P : Platform} {event : TwinEvent}

/-- One state's queue comes from the other's by steps of the queue. -/
def QueueRun (P : Platform) (s t : QueueState) : Prop :=
  ∃ as, (queue P).run s as = some t

theorem QueueRun.refl (s : QueueState) : QueueRun P s s := ⟨[], rfl⟩

theorem QueueRun.trans {s t u : QueueState} (hst : QueueRun P s t) (htu : QueueRun P t u) :
    QueueRun P s u := by
  obtain ⟨as, has⟩ := hst
  obtain ⟨bs, hbs⟩ := htu
  exact ⟨as ++ bs, (queue P).run_append.mpr ⟨t, has, hbs⟩⟩

theorem QueueRun.insert {s t : QueueState} {n : NewWorkOrder} (h : insertStep s n = some t) :
    QueueRun P s t :=
  ⟨[.insert n], (queue P).run_cons.mpr ⟨t, h, rfl⟩⟩

theorem QueueRun.inv {s t : QueueState} (h : QueueRun P s t) (hs : FifoInv s) : FifoInv t :=
  hs.run h.choose_spec

theorem QueueRun.hasOrder {s t : QueueState} (h : QueueRun P s t) (hs : FifoInv s)
    {twinId : Uuid} (hw : HasOrder s.db.orders event twinId) :
    HasOrder t.db.orders event twinId := by
  obtain ⟨as, hrun⟩ := h
  obtain ⟨w, hw, hevent, htwin⟩ := hw
  obtain ⟨v, hv, hkey⟩ := hs.key_run hrun hw
  simp only [WorkOrder.key, Prod.mk.injEq] at hkey
  exact ⟨v, hv, hkey.2.2.2.2.trans hevent, hkey.2.2.1.trans htwin⟩

theorem insertStep_hasOrder {s t : QueueState} {n : NewWorkOrder}
    (hevent : n.sourceEventId = some event.eventId) (h : insertStep s n = some t) :
    HasOrder t.db.orders event n.targetTwinId := by
  unfold insertStep at h
  split at h <;> cases h
  simp only [insertWorkOrder]
  split
  · rename_i htaken
    simp only [eventTwinTaken, Bool.and_eq_true, List.any_eq_true] at htaken
    obtain ⟨-, w, hw, hsame⟩ := htaken
    simp only [decide_eq_true_eq] at hsame
    exact ⟨w, hw, hsame.1.trans hevent, hsame.2⟩
  · exact ⟨n.row s.db.nextPosition, by simp, hevent, rfl⟩

theorem insertOrders_run (order : Nat → CanonicalTwin → NewWorkOrder) (failAt : Option Nat)
    (i : Nat) (targets : List CanonicalTwin) (q : QueueState) :
    QueueRun P q (insertOrders order failAt i targets q).1 := by
  induction targets generalizing i q with
  | nil => exact .refl q
  | cons target rest ih =>
    unfold insertOrders
    split
    · exact .refl q
    · split
      · rename_i q' hstep
        exact (QueueRun.insert hstep).trans (ih (i + 1) q')
      · exact .refl q

theorem insertOrders_hasOrder (event : TwinEvent) {order : Nat → CanonicalTwin → NewWorkOrder}
    (hevent : ∀ i t, (order i t).sourceEventId = some event.eventId)
    (htwin : ∀ i t, (order i t).targetTwinId = t.id)
    {failAt : Option Nat} {i : Nat} {targets : List CanonicalTwin} {q q' : QueueState}
    (hq : FifoInv q) (h : insertOrders order failAt i targets q = (q', true)) :
    ∀ c ∈ targets, HasOrder q'.db.orders event c.id := by
  induction targets generalizing i q with
  | nil => simp
  | cons target rest ih =>
    unfold insertOrders at h
    split at h
    · cases h
    · split at h
      · rename_i q₁ hstep
        have hq₁ : FifoInv q₁ := hq.insert hstep
        have hrest : QueueRun (.ascii) q₁ q' := by
          have hrun := insertOrders_run (P := .ascii) order failAt (i + 1) rest q₁
          rwa [h] at hrun
        intro c hc
        rcases List.mem_cons.mp hc with rfl | hc
        · have hhere := insertStep_hasOrder (hevent i c) hstep
          rw [htwin] at hhere
          exact hrest.hasOrder hq₁ hhere
        · exact ih hq₁ h c hc
      · cases h

theorem drainTargets_run (s : PropagationState) (a : Attempt) :
    QueueRun P s.queue (drainTargets P s a).queue := by
  unfold drainTargets
  cases hrun : (queue P).run s.queue a.drain with
  | none => exact .refl _
  | some q => exact ⟨a.drain, hrun⟩

/-! ## One attempt -/

def Unsettled (event : TwinEvent) (receipts : List PropagationReceipt) : Prop :=
  ∀ r ∈ receipts, r.sourceEventId = event.eventId → r.status = .processing

variable {s : PropagationState} {a : Attempt}

theorem Unsettled.not_settled (h : Unsettled event s.receipts)
    (orgId : Uuid) : receiptSettled s event orgId = false := by
  unfold receiptSettled
  split
  · rename_i r hr
    have hid := List.find?_some hr
    simp only [Bool.and_eq_true, decide_eq_true_eq] at hid
    rw [h r (List.mem_of_find?_eq_some hr) hid.1]
    rfl
  · rfl

theorem openReceipt_eq (h : Unsettled event s.receipts) (orgId twinId : Uuid) :
    ∃ receipts, openReceipt s event orgId twinId = { s with receipts := receipts } ∧
      Unsettled event receipts := by
  unfold openReceipt
  split
  · exact ⟨s.receipts, rfl, h⟩
  · refine ⟨_, rfl, fun r hr hid => ?_⟩
    rcases List.mem_append.mp hr with hr | hr
    · exact h r hr hid
    · rw [List.mem_singleton.mp hr]

theorem deliver_outcome {input : PropagationInput} {t : PropagationState}
    {d : Delivery} (h : deliver P event input a s = (d, t)) (hs : FifoInv s.queue) :
    QueueRun P s.queue t.queue ∧ (d = .threw → t.receipts = s.receipts) ∧
      (d = .returned → ∀ c ∈ counterparts s input.orgId input.source,
        HasOrder t.queue.db.orders event c.id) := by
  unfold deliver at h
  split at h
  · cases h
    exact ⟨.refl _, fun _ => rfl, nofun⟩
  · have hins := insertOrders_run (P := P)
      (fun i => propagationOrder event input (a.orderIds i)) a.failAt 0
      (counterparts s input.orgId input.source) s.queue
    simp only at h
    split at h
    · rename_i q hq
      rw [hq] at hins
      cases h
      exact ⟨hins, fun _ => rfl, nofun⟩
    · rename_i q hq
      have hhas := insertOrders_hasOrder event (fun _ _ => rfl) (fun _ _ => rfl) hs hq
      rw [hq] at hins
      have hdrain := drainTargets_run (P := P) { s with queue := q } a
      split at h
      · cases h
        exact ⟨hins.trans hdrain, fun _ => rfl, nofun⟩
      · cases h
        exact ⟨hins.trans hdrain, nofun,
          fun _ c hc => hdrain.hasOrder (hins.inv hs) (hhas c hc)⟩

/-- **What an attempt does**: it throws and settles nothing; or the guard
takes the event for an echo and no order changes; or it does not and every
counterpart has its order. -/
theorem accept_outcome {t : PropagationState} {d : Delivery}
    (hprop : event.Propagates) (hs : FifoInv s.queue) (hopen : Unsettled event s.receipts)
    (h : acceptPropagationEvent P event a s = (d, t)) :
    QueueRun P s.queue t.queue ∧ (d = .threw → Unsettled event t.receipts) ∧
      (d = .returned → (LooksLikeEcho P event a s ∧ t.queue = s.queue) ∨
        (¬ LooksLikeEcho P event a s ∧
          ∀ c ∈ linkedTwins event s, HasOrder t.queue.db.orders event c.id)) := by
  obtain ⟨horg, htwin, hchanged, hoperator⟩ := hprop
  obtain ⟨orgId, horg⟩ := Option.isSome_iff_exists.mp horg
  obtain ⟨twinId, htwin⟩ := Option.isSome_iff_exists.mp htwin
  unfold acceptPropagationEvent at h
  simp only [horg, htwin, hchanged, if_false, hopen.not_settled, Bool.false_eq_true] at h
  split at h
  · cases h
    exact ⟨.refl _, fun _ => hopen, nofun⟩
  rename_i source hsource
  have hsrc : sourceOf event s = some (orgId, source) := by
    simp only [sourceOf, horg, htwin, hsource, Option.map_some]
  obtain ⟨receipts, heq, hunsettled⟩ := openReceipt_eq hopen orgId twinId
  rw [heq] at h
  simp only [hoperator, if_false] at h
  split at h
  · cases h
    exact ⟨.refl _, fun _ => hunsettled, nofun⟩
  rename_i decision guard hok
  obtain ⟨o, ho, -, hsupp, -⟩ := evaluateWebhook_ok hok
  -- The observation is a function of the state, so it decides the echo test.
  have hecho : LooksLikeEcho P event a s ↔ decision.suppressed = true := by
    rw [hsupp, decide_eq_true_eq, evaluateObserved_suppressed_iff]
    constructor
    · rintro ⟨org', source', o', hsrc', ho', hmatch⟩
      rw [hsrc] at hsrc'
      cases hsrc'
      cases ho.symm.trans ho'
      exact hmatch
    · exact fun hmatch => ⟨orgId, source, o, hsrc, ho, hmatch⟩
  split at h
  · rename_i hs'
    split at h
    · cases h
      exact ⟨.refl _, fun _ => hunsettled, nofun⟩
    · cases h
      exact ⟨.refl _, nofun, fun _ => .inl ⟨hecho.mpr hs', rfl⟩⟩
  · rename_i hs'
    obtain ⟨hrun, hthrew, hret⟩ := deliver_outcome h hs
    refine ⟨hrun, fun hd => (hthrew hd) ▸ hunsettled, fun hd => .inr ⟨?_, ?_⟩⟩
    · exact fun he => hs' (hecho.mp he)
    · intro c hc
      refine hret hd c ?_
      rwa [linkedTwins, hsrc] at hc

theorem Genuine.not_looksLikeEcho (h : Genuine P event a s) : ¬ LooksLikeEcho P event a s := by
  obtain ⟨-, orgId, source, decision, guard, hsrc, hok, hreason⟩ := h
  obtain ⟨o, ho, hobs, -, -⟩ := evaluateWebhook_ok hok
  rintro ⟨org', source', o', hsrc', ho', hmatch⟩
  rw [hsrc] at hsrc'
  cases hsrc'
  cases ho.symm.trans ho'
  exact evaluateObserved_suppressed_iff.mpr hmatch (hobs.symm.trans hreason)

theorem Begins.invariant (h : Begins P event a s) :
    event.Propagates ∧ FifoInv s.queue ∧ Unsettled event s.receipts := by
  induction h with
  | first inv new genuine =>
    exact ⟨genuine.1, inv, fun r hr hid => absurd hid (new r hr)⟩
  | again before threw others ih =>
    obtain ⟨hprop, hinv, hopen⟩ := ih
    obtain ⟨hrun, hthrew, -⟩ := accept_outcome hprop hinv hopen threw
    refine ⟨hprop, ?_, fun r hr hid => hthrew rfl r (others.receipts r hr hid) hid⟩
    obtain ⟨as, q, hq, horders, hnext, hcalls⟩ := others.orders
    have hfifo := (hrun.inv hinv).run hq
    exact {
      ids := horders ▸ hfifo.ids
      positions := horders ▸ hfifo.positions
      issued := by rw [horders, hnext]; exact hfifo.issued
      indexed := by rw [horders]; exact hfifo.indexed
      unclaimed := by rw [horders]; exact hfifo.unclaimed
      served := by rw [horders]; exact hfifo.served
      loaded := by rw [horders, hcalls]; exact hfifo.loaded
      unblocked := by rw [horders, hcalls]; exact hfifo.unblocked }

theorem deliveredOnce_iff {q : QueueState} (hq : FifoInv q) (targets : List CanonicalTwin) :
    DeliveredOnce q.db.orders event targets ↔
      ∀ c ∈ targets, HasOrder q.db.orders event c.id := by
  constructor
  · intro h c hc
    obtain ⟨w, hw, hfor, -⟩ := h c hc
    exact ⟨w, hw, hfor⟩
  · intro h c hc
    obtain ⟨w, hw, hfor⟩ := h c hc
    refine ⟨w, hw, hfor, fun v hv hv' => ?_⟩
    exact hq.indexed v hv w hw (by rw [hv'.1]; rfl) (hv'.1.trans hfor.1.symm)
      (hv'.2.trans hfor.2.symm)

/-- **When a redelivered event is delivered once**: whatever attempts threw
before and whatever ran in between, the attempt that returns leaves exactly
one order for every linked twin if and only if the guard does not take the
event for an echo when that attempt starts, or the orders are there
already. -/
theorem delivered_once_iff (P : Platform) (event : TwinEvent) (a : Attempt)
    (s t : PropagationState) (hbegins : Begins P event a s)
    (hreturned : acceptPropagationEvent P event a s = (.returned, t)) :
    DeliveredOnce t.queue.db.orders event (linkedTwins event s) ↔
      ¬ LooksLikeEcho P event a s ∨
        ∀ c ∈ linkedTwins event s, HasOrder s.queue.db.orders event c.id := by
  obtain ⟨hprop, hinv, hopen⟩ := hbegins.invariant
  obtain ⟨hrun, -, hret⟩ := accept_outcome hprop hinv hopen hreturned
  rw [deliveredOnce_iff (hrun.inv hinv)]
  rcases hret rfl with ⟨hecho, hqueue⟩ | ⟨hecho, hall⟩
  · rw [hqueue]
    constructor
    · exact .inr
    · rintro (hnot | hall)
      · exact absurd hecho hnot
      · exact hall
  · exact ⟨fun _ => .inl hecho, fun _ => hall⟩

/-! ## A lost change -/

/-- A Jira issue of tenant 1 and the incident it is linked with. -/
def jiraIssue : CanonicalTwin where
  id := 5
  orgId := 1
  connectorId := 2
  provider := "jira"
  artifactType := "issue"
  externalId := "10001"
  nativeKey := none
  nativeUrl := none
  title := none
  nativeStatus := some "Done"
  syncState := .synced
  fieldAuthority := []
  payload := []
  contentHash := none
  sourceUpdatedAt := none
  correlationNodeId := some 100

def linkedIncident : CanonicalTwin :=
  { jiraIssue with
    id := 6, connectorId := 3, provider := "servicenow", artifactType := "incident"
    externalId := "INC1", correlationNodeId := some 101 }

def linkedPair : PropagationState where
  queue := emptyQueue [jiraIssue, linkedIncident]
  receipts := []
  links := [⟨1, 100, 101, "counterpart"⟩]
  nodes := [⟨100, 1, ⟨"jira", "issue", "10001"⟩⟩]
  mappings := []
  guard := .empty

def issueClosed : TwinEvent where
  eventId := 9
  eventType := .canonicalTwinUpdated
  workItemId := some 5
  payload :=
    { orgId := some 1, twinId := some 5, stateChanged := some true, fieldsChanged := some false
      identity := some ⟨"jira", "issue", "10001"⟩, nativeStatus := some "Done", state := none
      fields := none, updatedBy := some "jira:ann", title := none }

def attemptAt (now : Millis) (failAt : Option Nat) : Attempt where
  now := now
  orderIds i := BitVec.ofNat 128 (1000 + now.toNat * 10 + i)
  drain := []
  drainGuard := []
  failAt := failAt

theorem genuine_of_reason {orgId : Uuid} {source : CanonicalTwin} (hprop : event.Propagates)
    (hsource : sourceOf event s = some (orgId, source))
    (hreason : (evaluateWebhook P s.nodes orgId
      (echoCheck s.mappings event (propagationInput event orgId source)) a.now
        s.guard).toOption.map (·.1.reason) = some .externalChange) :
    Genuine P event a s := by
  refine ⟨hprop, orgId, source, ?_⟩
  cases h : evaluateWebhook P s.nodes orgId
      (echoCheck s.mappings event (propagationInput event orgId source)) a.now s.guard with
  | error e => simp [h, Except.toOption] at hreason
  | ok result =>
    rw [h] at hreason
    exact ⟨result.1, result.2, hsource, rfl, Option.some.inj hreason⟩

theorem issueClosed_propagates : issueClosed.Propagates := by
  refine ⟨rfl, rfl, ?_, ?_⟩ <;> simp [issueClosed]

theorem issueClosed_genuine (failAt : Option Nat) :
    Genuine .ascii issueClosed (attemptAt 0 failAt) linkedPair := by
  have hreason : (evaluateWebhook .ascii linkedPair.nodes 1
      (echoCheck [] issueClosed (propagationInput issueClosed 1 jiraIssue)) 0
        .empty).toOption.map (·.1.reason) = some .externalChange := by
    decide
  exact genuine_of_reason issueClosed_propagates rfl hreason

theorem issueClosed_begins (failAt : Option Nat) :
    Begins .ascii issueClosed (attemptAt 0 failAt) linkedPair :=
  .first (fifoInv_empty _) (fun _ hr => nomatch hr) (issueClosed_genuine failAt)

def afterAttempt (event : TwinEvent) (a : Attempt) (s : PropagationState) : PropagationState :=
  (acceptPropagationEvent .ascii event a s).2

theorem delivered_once_iff_first :
    DeliveredOnce (afterAttempt issueClosed (attemptAt 0 none) linkedPair).queue.db.orders
      issueClosed (linkedTwins issueClosed linkedPair) :=
  (delivered_once_iff .ascii issueClosed (attemptAt 0 none) linkedPair _
    (issueClosed_begins none) (Prod.ext (by decide) rfl)).mpr
    (.inl (issueClosed_genuine none).not_looksLikeEcho)

/-- The first attempt throws at the counterparts' query. -/
def afterThrow : PropagationState :=
  afterAttempt issueClosed (attemptAt 0 (some 0)) linkedPair

/-- The second attempt takes the event for an echo and returns: the linked
incident never gets its order. -/
theorem redelivered_event_lost :
    Genuine .ascii issueClosed (attemptAt 0 (some 0)) linkedPair ∧
    (acceptPropagationEvent .ascii issueClosed (attemptAt 0 (some 0)) linkedPair).1 = .threw ∧
    (acceptPropagationEvent .ascii issueClosed (attemptAt 5 none) afterThrow).1 = .returned ∧
    (linkedTwins issueClosed afterThrow).map (·.id) = [6] ∧
    ¬ DeliveredOnce (afterAttempt issueClosed (attemptAt 5 none) afterThrow).queue.db.orders
      issueClosed (linkedTwins issueClosed afterThrow) := by
  have hlinked : (linkedTwins issueClosed afterThrow).map (·.id) = [6] := by decide
  have hnone : (afterAttempt issueClosed (attemptAt 5 none) afterThrow).queue.db.orders = [] :=
    List.map_eq_nil_iff.mp
      (show List.map (·.id) _ = [] by decide)
  refine ⟨issueClosed_genuine (some 0), by decide, by decide, hlinked, ?_⟩
  intro honce
  rw [hnone] at honce
  cases htargets : linkedTwins issueClosed afterThrow with
  | nil => simp [htargets] at hlinked
  | cons c cs =>
    obtain ⟨w, hw, -⟩ := honce c (by simp [htargets])
    simp at hw

end Cadena.Connectors
