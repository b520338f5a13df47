import Cadena.Base.AttemptTable
import Cadena.Connectors.WorkOrderFifo

/-!
# The attempts of a work order

The claim of an order counts an attempt, and `deferShedWork` gives it back if the
order is still claimed by the call. The book of the claims tells which of them
ended in load shedding.
-/

namespace Cadena.Connectors

open Cadena.Base

def orderColumns : ClaimColumns WorkOrder Uuid String where
  key := (·.id)
  attempts := (·.attempts)
  holder := (·.claimedBy)
  unfinished w := w.status ≠ .executed && w.status ≠ .noop && w.status ≠ .held

def callClaim (s : QueueState) (call : Nat) : Option (WorkOrder × String) := (s.calls call).bind Stage.claim?

def orderAtWork (s : QueueState) (call : Nat) : Option (ClaimAtWork Uuid String) :=
  (callClaim s call).map fun x => ⟨x.1.id, x.2, x.1.attempts⟩

def ExecError.ending : ExecError → ClaimEnding
  | .loadShed .. => .turnedAway
  | _ => .failed

def reported (s : QueueState) (call : Nat) (e : ClaimEnding) : ClaimNote Uuid String :=
  match callClaim s call with
  | some (work, claimId) => ClaimColumns.reportNote (s.db.orders.any (heldBy work claimId)) claimId e
  | none => .nothing

section
variable (P : Platform)

/-- What a step of the queue means for the claims. -/
def orderNote (s : QueueState) : QueueAction → ClaimNote Uuid String
  | .insert order => if eventTwinTaken s.db.orders order then .nothing else .fresh order.id
  | .claim call claimId dbNow _ =>
    match s.calls call with
    | some (.unblocked row) =>
      match s.db.orders.find? (claimable row dbNow) with
      | some w => .claimed w.id claimId w.claimedBy
      | none => .drawn claimId
    | _ => .nothing
  | .translate call translation _ =>
    match translation with
    | .hold .. => reported s call .done
    | .ready _ targetState fields effectiveStatus =>
      if isNoop P targetState fields effectiveStatus then reported s call .done else .nothing
  | .push call _ _ _ => reported s call .done
  | .fail call error _ _ _ => reported s call error.ending
  | .reinject orgId connectorId entryId _ _ _ _ _ _ =>
    if s.db.orders.any fun w => w.id = entryId && w.orgId = orgId && w.targetConnectorId = connectorId
      && (w.status = .dead || w.status = .held)
    then .fresh entryId else .nothing
  | .recover dbNow =>
    .lapsed (orderColumns.claimsWhere (fun w => w.status = .processing && claimExpired w dbNow) s.db.orders)
  | .load .. | .checkBlocked _ | .renew .. => .nothing

abbrev BookedQueue := QueueState × ClaimBook Uuid String

def bookedQueue : System BookedQueue QueueAction := ClaimBook.keep (queue P) (orderNote P)

end

def orderLedger (s : BookedQueue) : AttemptLedger Uuid String Nat :=
  orderColumns.ledger s.1.db.orders (orderAtWork s.1) s.2

/-- A call that is turned away has its claim still, or the order has been
re-injected since. -/
def ShedsOrderInTime (s : BookedQueue) : QueueAction → Prop
  | .fail call (.loadShed ..) _ _ _ => ∀ work claimId, callClaim s.1 call = some (work, claimId) →
      claimId ∈ s.2.claims work.id → s.1.db.orders.any (heldBy work claimId) = true
  | _ => True

/-- The error ends the order whatever its attempts are. -/
def refuses (s : BookedQueue) : QueueAction → Bool
  | .fail call error _ _ _ =>
    match s.1.calls call with
    | some (.writing ..) => !error.retryable
    | _ => false
  | _ => false

structure OrderRetriesKept (s : BookedQueue) (a : QueueAction) (t : BookedQueue) : Prop where
  counted : (orderLedger t).Counted
  exhausted : ∀ w ∈ s.1.db.orders, w.status ≠ .dead → ∀ w' ∈ t.1.db.orders, w'.id = w.id → w'.status = .dead →
    refuses s a = false → maxWorkOrderAttempts ≤ (t.2.wasted w.id).length

/-! ## What a step does to the ledger -/

variable {P : Platform}

structure AttemptInv (s : QueueState) : Prop where
  fifo : FifoInv s
  claimed : ∀ call work claimId, callClaim s call = some (work, claimId) →
    ∃ w ∈ s.db.orders, w.id = work.id ∧ w.orgId = work.orgId

theorem attemptInv_empty (twins : List CanonicalTwin) : AttemptInv (emptyQueue twins) where
  fifo := fifoInv_empty twins
  claimed _ _ _ h := nomatch h

theorem callClaim_advance (s : QueueState) (db : Db) (call : Nat) (stage : Stage) (c : Nat) :
    callClaim (s.advance db call stage) c = if c = call then stage.claim? else callClaim s c := by
  simp only [callClaim, QueueState.advance]
  by_cases hc : c = call
  · subst hc
    simp
  · simp [setAt_other _ _ hc, hc]

theorem orderAtWork_advance (s : QueueState) (db : Db) (call : Nat) (stage : Stage) :
    orderAtWork (s.advance db call stage) =
      setAt (orderAtWork s) call ((stage.claim?).map fun x => ⟨x.1.id, x.2, x.1.attempts⟩) := by
  funext c
  simp only [orderAtWork, callClaim_advance]
  by_cases hc : c = call
  · subst hc
    simp
  · simp only [setAt_other _ _ hc, if_neg hc]
    rfl

variable {claimId : String} {s t : QueueState} {a : QueueAction} {B : ClaimBook Uuid String}

theorem AttemptInv.heldBy_iff (h : AttemptInv s) {call : Nat} {work : WorkOrder}
    (hcall : callClaim s call = some (work, claimId)) {w : WorkOrder} (hw : w ∈ s.db.orders) :
    heldBy work claimId w = true ↔ w.id = work.id ∧ w.claimedBy = some claimId := by
  obtain ⟨v, hv, hid, horg⟩ := h.claimed call work claimId hcall
  simp only [heldBy, Bool.and_eq_true, decide_eq_true_eq]
  constructor
  · rintro ⟨⟨hwid, -⟩, hclaim⟩
    exact ⟨hwid, hclaim⟩
  · rintro ⟨hwid, hclaim⟩
    have hwv : w = v := Table.eq_of_key h.fifo.ids hw hv (hwid.trans hid.symm)
    exact ⟨⟨hwid, hwv ▸ horg⟩, hclaim⟩

theorem callClaim_step (hstep : queueStep P s a = some t) {c : Nat}
    {work : WorkOrder} (hc : callClaim t c = some (work, claimId)) :
    callClaim s c = some (work, claimId) ∨ ∃ w ∈ s.db.orders, w.id = work.id ∧ w.orgId = work.orgId := by
  have hquiet : ∀ {db call stage}, t = s.advance db call stage →
      (stage.claim? = none ∨ stage.claim? = callClaim s call) → callClaim s c = some (work, claimId) := by
    rintro db call stage rfl hstage
    rw [callClaim_advance] at hc
    split at hc
    · rename_i heq
      rcases hstage with hnone | hsame
      · rw [hnone] at hc
        cases hc
      · rw [heq, ← hsame, hc]
    · exact hc
  cases a with
  | insert n =>
    simp only [queueStep, insertStep] at hstep
    split at hstep <;> cases hstep
    exact .inl hc
  | load call orgId workOrderId now connectorOpen =>
    simp only [queueStep, loadStep] at hstep
    split at hstep <;> cases hstep
    refine .inl (hquiet rfl (.inl ?_))
    split <;> rfl
  | checkBlocked call =>
    simp only [queueStep, checkBlockedStep] at hstep
    split at hstep <;> cases hstep
    refine .inl (hquiet rfl (.inl ?_))
    split <;> rfl
  | claim call drawn dbNow workerNow =>
    simp only [queueStep, claimStep] at hstep
    split at hstep <;> cases hstep
    rename_i row _
    cases hfind : s.db.orders.find? (claimable row dbNow) with
    | none =>
      refine .inl (hquiet rfl (.inl ?_))
      simp [claimWorkOrder, hfind, Stage.claim?]
    | some w =>
      rw [callClaim_advance] at hc
      simp only [claimWorkOrder, hfind, Option.map_some, claimedStage_claim] at hc
      split at hc
      · simp only [Option.some.injEq, Prod.mk.injEq] at hc
        obtain ⟨rfl, -⟩ := hc
        exact .inr ⟨w, List.mem_of_find?_eq_some hfind, rfl, rfl⟩
      · exact .inl hc
  | translate call translation times =>
    simp only [queueStep, translateStep] at hstep
    split at hstep
    · rename_i hcall
      split at hstep
      · cases hstep
        exact .inl (hquiet rfl (.inl rfl))
      · split at hstep <;> cases hstep
        · exact .inl (hquiet rfl (.inl rfl))
        · refine .inl (hquiet rfl (.inr ?_))
          rw [callClaim, hcall]
          rfl
    · cases hstep
  | push call provider message times =>
    simp only [queueStep, pushStep] at hstep
    split at hstep <;> cases hstep
    exact .inl (hquiet rfl (.inl rfl))
  | fail call error transactionId targetState times =>
    simp only [queueStep, failStep] at hstep
    split at hstep <;> cases hstep <;> cases error <;> exact .inl (hquiet rfl (.inl rfl))
  | renew call workerNow =>
    simp only [queueStep, renewStep] at hstep
    split at hstep <;> cases hstep
    exact .inl hc
  | reinject | recover =>
    cases hstep
    exact .inl hc

theorem AttemptInv.step (h : AttemptInv s) (hstep : queueStep P s a = some t) : AttemptInv t where
  fifo := h.fifo.step hstep
  claimed c work claimId hc := by
    have hrow : ∃ w ∈ s.db.orders, w.id = work.id ∧ w.orgId = work.orgId :=
      (callClaim_step hstep hc).elim (h.claimed c work claimId) id
    obtain ⟨w, hw, hid, horg⟩ := hrow
    obtain ⟨v, hv, hkey⟩ := h.fifo.key_step hstep hw
    exact ⟨v, hv, (congrArg (·.1) hkey).trans hid, (congrArg (·.2.1) hkey).trans horg⟩

theorem AttemptInv.report (h : AttemptInv s) {call : Nat}
    {work : WorkOrder} {e : ClaimEnding} {inTime : Prop} {db : Db} {status : WorkOrderStatus}
    {set : WorkOrder → WorkOrder} (hcall : callClaim s call = some (work, claimId)) (he : e ≠ .lapsed)
    (horders : db.orders = Table.update (heldBy work claimId) set s.db.orders) (hkey : ∀ w, (set w).id = w.id)
    (hattempts : ∀ w, (set w).attempts = if e = .turnedAway then w.attempts - 1 else w.attempts)
    (hholder : ∀ w, (set w).claimedBy = none)
    (hopen : ∀ w, orderColumns.unfinished (set w) = decide (e ≠ .done))
    (htime : inTime ↔ (e = .turnedAway → claimId ∈ B.claims work.id →
      s.db.orders.any (heldBy work claimId) = true)) :
    AttemptLedger.Step inTime (orderLedger (s, B))
      (orderLedger (s.advance db call (.returned status), B.note (reported s call e))) := by
  have hreported : reported s call e =
      ClaimColumns.reportNote (s.db.orders.any (heldBy work claimId)) claimId e := by
    rw [reported, hcall]
  have hwork : orderAtWork s call = some ⟨work.id, claimId, work.attempts⟩ := by
    rw [orderAtWork, hcall]
    rfl
  rw [hreported]
  show AttemptLedger.Step inTime (orderColumns.ledger s.db.orders (orderAtWork s) B)
    (orderColumns.ledger db.orders (orderAtWork (s.advance db call (.returned status))) _)
  rw [horders, orderAtWork_advance]
  exact ClaimColumns.step_report h.fifo.ids hwork (fun w hw => h.heldBy_iff hcall hw) he hkey hattempts hholder hopen
    htime

theorem orderLedger_same (horders : t.db.orders = s.db.orders)
    (hcalls : ∀ c, callClaim t c = callClaim s c) (B : ClaimBook Uuid String) : orderLedger (t, B) = orderLedger (s, B) := by
  have hwork : orderAtWork t = orderAtWork s := funext fun c => by rw [orderAtWork, orderAtWork, hcalls]
  rw [orderLedger, orderLedger, hwork, horders]

theorem callClaim_unclaimed {call : Nat} {db : Db} {stage : Stage} (hnone : callClaim s call = none)
    (hstage : stage.claim? = none) (c : Nat) : callClaim (s.advance db call stage) c = callClaim s c := by
  rw [callClaim_advance]
  split
  · rename_i hc
    rw [hc, hnone, hstage]
  · rfl

theorem AttemptInv.ledger_claim (h : AttemptInv s) {call : Nat} {dbNow workerNow : Millis}
    (hnew : ∀ c, (orderNote P s (.claim call claimId dbNow workerNow)).draws = some c → c ∉ B.drawn)
    (hstep : claimStep s call claimId dbNow workerNow = some t) :
    AttemptLedger.Move (orderLedger (s, B))
      (orderLedger (t, B.note (orderNote P s (.claim call claimId dbNow workerNow)))) := by
  unfold claimStep at hstep
  split at hstep
  case h_2 => cases hstep
  rename_i row hcall
  have hnone : callClaim s call = none := by
    rw [callClaim, hcall]
    rfl
  have hfree : orderAtWork s call = none := by rw [orderAtWork, hnone, Option.map_none]
  have honly : ∀ v, claimable row dbNow v = true → v.id = row.id := fun v hv => (claimable_iff.mp hv).1
  cases hstep
  cases hfind : s.db.orders.find? (claimable row dbNow) with
  | none =>
    have hnote : orderNote P s (.claim call claimId dbNow workerNow) = .drawn claimId := by
      simp only [orderNote, hcall, hfind]
    simp only [hnote, claimWorkOrder, hfind, Option.map_none, orderLedger, orderAtWork_advance, Stage.claim?]
    rw [← hfree, setAt_self]
    exact ClaimColumns.move_drawn hfind
  | some w =>
    have hnote : orderNote P s (.claim call claimId dbNow workerNow) = .claimed w.id claimId w.claimedBy := by
      simp only [orderNote, hcall, hfind]
    have hw : claimable row dbNow w = true := List.find?_some hfind
    have hopen : orderColumns.unfinished w = true := by
      rcases (claimable_iff.mp hw).2.2.2 with hs | hs | ⟨hs, -⟩ <;> simp [orderColumns, hs]
    rw [hnote] at hnew ⊢
    simp only [claimWorkOrder, hfind, Option.map_some, orderLedger, orderAtWork_advance, claimedStage_claim]
    exact ClaimColumns.move_claim h.fifo.ids (fun _ => rfl) hfind
      (fun q _ hq => (honly q hq).trans (honly w hw).symm) hfree (hnew claimId rfl) hopen rfl rfl rfl

theorem AttemptInv.ledger_step {s t : BookedQueue} (h : AttemptInv s.1)
    (hstep : (bookedQueue P).step s a = some t) :
    AttemptLedger.Step (ShedsOrderInTime s a) (orderLedger s) (orderLedger t) := by
  obtain ⟨s, B⟩ := s
  obtain ⟨t, B'⟩ := t
  obtain ⟨hnew, hq, hbook⟩ := ClaimBook.keep_step hstep
  simp only at hnew hq hbook
  subst hbook
  have hsame : ∀ {u : QueueState}, u.db.orders = s.db.orders → (∀ c, callClaim u c = callClaim s c) →
      AttemptLedger.Move (orderLedger (s, B)) (orderLedger (u, B)) := by
    intro u horders hcalls
    rw [orderLedger_same horders hcalls]
    exact .stay
  cases a with
  | insert n =>
    refine .move trivial ?_
    simp only [queue, queueStep, insertStep] at hq
    split at hq
    · cases hq
    rename_i hfresh
    cases hq
    by_cases htaken : eventTwinTaken s.db.orders n = true
    · simp only [orderNote, htaken, if_true]
      exact hsame (by simp [insertWorkOrder, htaken]) fun _ => rfl
    · have hrows : (insertWorkOrder s.db n).orders = s.db.orders ++ [n.row s.db.nextPosition] := by
        simp [insertWorkOrder, htaken]
      simp only [orderNote, htaken, Bool.false_eq_true, if_false]
      show AttemptLedger.Move (orderColumns.ledger s.db.orders (orderAtWork s) B)
        (orderColumns.ledger (insertWorkOrder s.db n).orders (orderAtWork s) _)
      rw [hrows]
      refine ClaimColumns.move_append (r := n.row s.db.nextPosition) ?_ rfl rfl rfl
      intro q hq heq
      exact hfresh (List.any_eq_true.mpr ⟨q, hq, decide_eq_true heq⟩)
  | load call orgId workOrderId now connectorOpen =>
    refine .move trivial ?_
    simp only [queue, queueStep, loadStep] at hq
    split at hq <;> cases hq
    rename_i hcall _
    refine hsame rfl (callClaim_unclaimed ?_ ?_)
    · rw [callClaim, hcall]
      rfl
    · split <;> rfl
  | checkBlocked call =>
    refine .move trivial ?_
    simp only [queue, queueStep, checkBlockedStep] at hq
    split at hq <;> cases hq
    rename_i hcall
    refine hsame rfl (callClaim_unclaimed ?_ ?_)
    · rw [callClaim, hcall]
      rfl
    · split <;> rfl
  | claim call claimId dbNow workerNow => exact .move trivial (h.ledger_claim hnew hq)
  | translate call translation times =>
    simp only [queue, queueStep, translateStep] at hq
    split at hq
    case h_2 => cases hq
    rename_i work claimId hcall
    have hclaim : callClaim s call = some (work, claimId) := by
      rw [callClaim, hcall]
      rfl
    cases translation with
    | hold transactionId reason message =>
      cases hq
      exact h.report hclaim (by rintro ⟨⟩) rfl (fun _ => rfl) (fun _ => rfl) (fun _ => rfl) (fun _ => rfl)
        ⟨fun _ => by rintro ⟨⟩, fun _ => trivial⟩
    | ready transactionId targetState fields effectiveStatus =>
      simp only [orderNote]
      simp only at hq
      split at hq <;> cases hq
      · rename_i hnoop
        rw [if_pos hnoop]
        exact h.report hclaim (by rintro ⟨⟩) rfl (fun _ => rfl) (fun _ => rfl) (fun _ => rfl) (fun _ => rfl)
          ⟨fun _ => by rintro ⟨⟩, fun _ => trivial⟩
      · rename_i hnoop
        rw [if_neg hnoop]
        refine .move trivial ?_
        simp only [orderLedger, orderAtWork_advance, Stage.claim?, Option.map_some]
        have hwork : some (ClaimAtWork.mk work.id claimId work.attempts) = orderAtWork s call := by
          rw [orderAtWork, hclaim, Option.map_some]
        rw [hwork, setAt_self]
        exact ClaimColumns.move_quiet (fun _ => rfl) fun _ => ⟨rfl, rfl, rfl⟩
  | push call provider message times =>
    simp only [queue, queueStep, pushStep] at hq
    split at hq <;> cases hq
    rename_i work claimId transactionId targetState fields hcall
    have hclaim : callClaim s call = some (work, claimId) := by
      rw [callClaim, hcall]
      rfl
    exact h.report hclaim (by rintro ⟨⟩) rfl (fun _ => rfl) (fun _ => rfl) (fun _ => rfl) (fun _ => rfl)
      ⟨fun _ => by rintro ⟨⟩, fun _ => trivial⟩
  | fail call error transactionId targetState times =>
    have hfail : ∀ translating work claimId report, callClaim s call = some (work, claimId) →
        t = failWith s call work claimId translating report error times →
        AttemptLedger.Step (ShedsOrderInTime (s, B) (.fail call error transactionId targetState times))
          (orderLedger (s, B)) (orderLedger (t, B.note (reported s call error.ending))) := by
      rintro translating work claimId report hclaim rfl
      cases error with
      | loadShed message until_ =>
        refine h.report hclaim (by rintro ⟨⟩) rfl (fun _ => rfl) (fun _ => rfl) (fun _ => rfl) (fun _ => rfl) ?_
        constructor
        · intro htime _ hmem
          exact htime work claimId hclaim hmem
        · intro htime work' claimId' hclaim' hmem
          obtain ⟨rfl, rfl⟩ := Prod.mk.injEq .. ▸ Option.some.inj (hclaim.symm.trans hclaim')
          exact htime rfl hmem
      | remote | credential | other =>
        refine h.report hclaim (by rintro ⟨⟩) rfl (fun _ => rfl) (fun _ => rfl) (fun _ => rfl) ?_
          ⟨fun _ => by rintro ⟨⟩, fun _ => trivial⟩
        intro w
        simp only [orderColumns, WorkOrder.release, ExecError.ending]
        split <;> rfl
    simp only [queue, queueStep, failStep] at hq
    split at hq
    · rename_i work claimId hcall
      refine hfail true work claimId _ ?_ (Option.some.inj hq).symm
      rw [callClaim, hcall]
      rfl
    · rename_i work claimId _ _ _ hcall
      refine hfail false work claimId _ ?_ (Option.some.inj hq).symm
      rw [callClaim, hcall]
      rfl
    · cases hq
  | renew call workerNow =>
    refine .move trivial ?_
    simp only [queue, queueStep, renewStep] at hq
    split at hq <;> cases hq
    exact ClaimColumns.move_quiet (fun _ => rfl) fun _ => ⟨rfl, rfl, rfl⟩
  | reinject orgId connectorId entryId twinId sourcePayload targetState fields history corrected =>
    cases hq
    refine .move trivial (ClaimColumns.move_reset h.fifo.ids (fun _ => rfl) ?_ (fun _ => rfl) (fun _ _ _ => rfl)
      fun _ => rfl)
    intro w hw hp
    simp only [Bool.and_eq_true, Bool.or_eq_true, decide_eq_true_eq] at hp
    refine ⟨hp.1.1.1, h.fifo.unclaimed w hw ?_⟩
    rcases hp.2 with hs | hs <;> rw [hs] <;> rintro ⟨⟩
  | recover dbNow =>
    cases hq
    refine .move trivial (ClaimColumns.move_lapse h.fifo.ids (fun _ => rfl) (fun _ => rfl) (fun _ => rfl) ?_)
    intro w _ hp
    simp only [Bool.and_eq_true, decide_eq_true_eq] at hp
    simp [orderColumns, WorkOrder.release, hp.1]

/-! ## The orders that die -/

theorem failWith_orders (s : QueueState) (call : Nat) (work : WorkOrder) (claimId : String) (translating : Bool)
    (report : WorkOrderReport) (error : ExecError) (times : AttemptTimes) (hfailed : error.ending ≠ .turnedAway) :
    ∃ set : WorkOrder → WorkOrder,
      (failWith s call work claimId translating report error times).db.orders =
        Table.update (heldBy work claimId) set s.db.orders ∧ (∀ v, (set v).id = v.id) ∧
      ∀ v, (set v).status = if !((translating || error.retryable) && work.attempts < maxWorkOrderAttempts)
        then .dead else .failed := by
  cases error with
  | loadShed message until_ => exact absurd rfl hfailed
  | remote | credential | other =>
    refine ⟨_, rfl, ?_, ?_⟩
    · intro v
      rfl
    · intro v
      rfl

theorem AttemptInv.dies (h : AttemptInv s)
    (hq : queueStep P s a = some t) {w w' : WorkOrder} (hw : w ∈ s.db.orders) (halive : w.status ≠ .dead)
    (hw' : w' ∈ t.db.orders) (hid : w'.id = w.id) (hdead : w'.status = .dead) (hretry : refuses (s, B) a = false) :
    ∃ call work claimId, callClaim s call = some (work, claimId) ∧ heldBy work claimId w = true ∧
      maxWorkOrderAttempts ≤ work.attempts ∧ orderNote P s a = reported s call .failed := by
  have hnot : ∀ {p : WorkOrder → Bool} {f : WorkOrder → WorkOrder},
      t.db.orders = Table.update p f s.db.orders → (∀ v, (f v).id = v.id) →
      (∀ v, (f v).status = .dead → v.status = .dead) → False := by
    intro p f horders hkey hf
    rw [horders] at hw'
    exact halive (hf w (Table.found_of_update (q := fun v => v.status = .dead) h.fifo.ids hkey hw hw' hid halive hdead).2)
  have hsame : t.db.orders = s.db.orders → False := by
    intro horders
    exact hnot (p := fun _ => false) (f := fun v => v) (horders.trans (Table.update_self _ _).symm) (fun _ => rfl)
      fun _ hv => hv
  cases a with
  | insert n =>
    have hstays : w ∈ t.db.orders := by
      simp only [queueStep, insertStep] at hq
      split at hq <;> cases hq
      simp only [insertWorkOrder]
      split
      · exact hw
      · exact List.mem_append_left _ hw
    have hsame : w' = w := Table.eq_of_key (h.fifo.step hq).ids hw' hstays hid
    exact absurd (hsame ▸ hdead) halive
  | load call orgId workOrderId now connectorOpen =>
    simp only [queueStep, loadStep] at hq
    split at hq <;> cases hq
    exact (hsame rfl).elim
  | checkBlocked call =>
    simp only [queueStep, checkBlockedStep] at hq
    split at hq <;> cases hq
    exact (hsame rfl).elim
  | claim call claimId dbNow workerNow =>
    simp only [queueStep, claimStep] at hq
    split at hq <;> cases hq
    exact (hnot rfl (fun _ => rfl) fun _ hv => by cases hv).elim
  | translate call translation times =>
    simp only [queueStep, translateStep] at hq
    split at hq
    · split at hq
      · cases hq
        exact (hnot rfl (fun _ => rfl) fun _ hv => by cases hv).elim
      · split at hq <;> cases hq
        · exact (hnot rfl (fun _ => rfl) fun _ hv => by cases hv).elim
        · exact (hnot rfl (fun _ => rfl) fun _ hv => hv).elim
    · cases hq
  | push call provider message times =>
    simp only [queueStep, pushStep] at hq
    split at hq <;> cases hq
    exact (hnot rfl (fun _ => rfl) fun _ hv => by cases hv).elim
  | fail call error transactionId targetState times =>
    have hfail : ∀ translating work claimId report, callClaim s call = some (work, claimId) →
        (translating || error.retryable) = true → t = failWith s call work claimId translating report error times →
        ∃ c work claimId, callClaim s c = some (work, claimId) ∧ heldBy work claimId w = true ∧
          maxWorkOrderAttempts ≤ work.attempts ∧
          orderNote P s (.fail call error transactionId targetState times) = reported s c .failed := by
      rintro translating work claimId report hclaim hretryable rfl
      have hlast : error.ending ≠ .turnedAway → heldBy work claimId w = true ∧ maxWorkOrderAttempts ≤ work.attempts := by
        intro hfailed
        obtain ⟨set, horders, hkey, hset⟩ :=
          failWith_orders s call work claimId translating report error times hfailed
        rw [horders] at hw'
        obtain ⟨hheld, hfinal⟩ := Table.found_of_update (q := fun v => v.status = .dead) h.fifo.ids hkey hw hw' hid halive hdead
        refine ⟨hheld, ?_⟩
        by_contra hless
        rw [hset, hretryable, decide_eq_true (Nat.lt_of_not_le hless)] at hfinal
        cases hfinal
      cases error with
      | loadShed message until_ => exact (hnot rfl (fun _ => rfl) fun _ hv => by cases hv).elim
      | remote | credential | other =>
        obtain ⟨hheld, hattempts⟩ := hlast (by rintro ⟨⟩)
        exact ⟨call, work, claimId, hclaim, hheld, hattempts, rfl⟩
    simp only [queueStep, failStep] at hq
    split at hq
    · rename_i work claimId hcall
      refine hfail true work claimId _ ?_ rfl (Option.some.inj hq).symm
      rw [callClaim, hcall]
      rfl
    · rename_i work claimId _ _ _ hcall
      refine hfail false work claimId _ ?_ ?_ (Option.some.inj hq).symm
      · rw [callClaim, hcall]
        rfl
      · simpa only [refuses, hcall, Bool.not_eq_false', Bool.false_or] using hretry
    · cases hq
  | renew call workerNow =>
    simp only [queueStep, renewStep] at hq
    split at hq <;> cases hq
    exact (hnot rfl (fun _ => rfl) fun _ hv => hv).elim
  | reinject | recover =>
    cases hq
    exact (hnot rfl (fun _ => rfl) fun _ hv => by cases hv).elim

theorem AttemptInv.exhausted {s t : BookedQueue} (h : AttemptInv s.1)
    (hsound : (orderLedger s).Sound) (hcount : (orderLedger s).Counted) (hstep : (bookedQueue P).step s a = some t) :
    ∀ w ∈ s.1.db.orders, w.status ≠ .dead → ∀ w' ∈ t.1.db.orders, w'.id = w.id → w'.status = .dead →
      refuses s a = false → maxWorkOrderAttempts ≤ (t.2.wasted w.id).length := by
  intro w hw halive w' hw' hid hdead hretry
  obtain ⟨-, hq, hbook⟩ := ClaimBook.keep_step hstep
  obtain ⟨call, work, claimId, hcall, hheld, hlast, hnote⟩ := h.dies hq hw halive hw' hid hdead (B := s.2) hretry
  have hfound : s.1.db.orders.any (heldBy work claimId) = true := List.any_eq_true.mpr ⟨w, hw, hheld⟩
  obtain ⟨hrow, hclaim⟩ := (h.heldBy_iff hcall hw).mp hheld
  have hwork : (orderLedger s).calls call = some ⟨work.id, claimId, work.attempts⟩ := by
    show orderAtWork s.1 call = _
    rw [orderAtWork, hcall]
    rfl
  have hholder : (orderLedger s).holder work.id = some claimId := by
    show (orderColumns.row s.1.db.orders work.id).bind orderColumns.holder = _
    have hk : orderColumns.row s.1.db.orders w.id = some w := ClaimColumns.row_of_mem h.fifo.ids hw
    rw [← hrow, hk, Option.bind_some, ← hclaim]
    rfl
  have hwasted := hsound.wasted_failed hcount hwork hholder
  rw [hbook, hnote, reported, hcall, hrow]
  simp only [ClaimColumns.reportNote, hfound, true_or, if_true]
  show _ ≤ (((orderLedger s).settle call work.id claimId .failed).wasted work.id).length
  rw [hwasted]
  exact hlast

def newQueue (twins : List CanonicalTwin) : BookedQueue := (emptyQueue twins, ClaimBook.empty)

/-- Load shedding spends no attempt of an order exactly in the runs in which no
call is turned away after it has lost its claim. -/
theorem order_retries_kept_iff (twins : List CanonicalTwin) {as : List QueueAction} {t : BookedQueue}
    (hrun : (bookedQueue P).run (newQueue twins) as = some t) :
    (bookedQueue P).Along (fun s a => ∀ u, (bookedQueue P).step s a = some u → OrderRetriesKept s a u)
        (newQueue twins) as ↔
      (bookedQueue P).Along ShedsOrderInTime (newQueue twins) as := by
  refine AttemptLedger.along_counted_iff orderLedger (fun s => AttemptInv s.1) ?_ ?_
    (attemptInv_empty twins) ClaimColumns.sound_empty ClaimColumns.counted_empty hrun
  · intro s a t hs hstep
    exact ⟨hs.step (ClaimBook.keep_step hstep).2.1, hs.ledger_step hstep⟩
  · intro s a u hs hsound hcount hstep
    exact ⟨fun hkept => hkept.counted, fun hafter => ⟨hafter, hs.exhausted hsound hcount hstep⟩⟩

end Cadena.Connectors
