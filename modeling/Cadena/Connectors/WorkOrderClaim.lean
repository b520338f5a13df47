import Cadena.Connectors.WorkOrderFifo

/-!
# A worker that lost its claim

The order row is guarded by the claim id, so a late completion never
touches it. The twin row and the domain event written in the same
transaction are not guarded: they are written whoever holds the order.
-/

namespace Cadena.Connectors

open Cadena.Base

variable {P : Platform}

/-- Nobody holds the order under this claim id. -/
def ClaimLost (s : QueueState) (work : WorkOrder) (claimId : String) : Prop :=
  ∀ w ∈ s.db.orders, w.id = work.id → w.claimedBy ≠ some claimId

variable {claimId : String} {work : WorkOrder} {s t : QueueState}

theorem ClaimLost.step {a : QueueAction} (hinv : FifoInv s) (hlost : ClaimLost s work claimId)
    (hdraw : ¬ a.Draws claimId) (hstep : queueStep P s a = some t) :
    ClaimLost t work claimId := by
  intro w hw hid hclaim
  rcases hinv.step_cases hstep with ⟨n, hinsert⟩ | hst
  · unfold insertStep at hinsert
    split at hinsert <;> cases hinsert
    simp only [insertWorkOrder] at hw
    split at hw
    · exact hlost w hw hid hclaim
    · rcases List.mem_append.mp hw with hw | hw
      · exact hlost w hw hid hclaim
      · rw [List.mem_singleton.mp hw] at hclaim
        cases hclaim
  · obtain ⟨p, f, hsound, horders⟩ := hst.orders
    rw [horders] at hw
    rcases Table.mem_update.mp hw with ⟨v, hv, -, rfl⟩ | ⟨hw, -⟩
    · have hvid : (f v).id = v.id := congrArg (·.1) (hsound.key v)
      rcases hsound.drawn v claimId hclaim with hold | hnew
      · exact hlost v hv (hvid ▸ hid) hold
      · exact hdraw hnew
    · exact hlost w hw hid hclaim

theorem ClaimLost.run {as : List QueueAction} (hinv : FifoInv s) (hlost : ClaimLost s work claimId)
    (hdraw : ∀ a ∈ as, ¬ a.Draws claimId) (hrun : (queue P).run s as = some t) :
    ClaimLost t work claimId := by
  induction as generalizing s with
  | nil => exact Option.some.inj hrun ▸ hlost
  | cons a as ih =>
    obtain ⟨u, hu, hrest⟩ := (queue P).run_cons.mp hrun
    refine ih (hinv.step hu) (hlost.step hinv (hdraw a (by simp)) hu) ?_ hrest
    exact fun b hb => hdraw b (List.mem_cons_of_mem _ hb)

theorem claimStep_claimed {call : Nat} {dbNow workerNow : Millis}
    (hstep : claimStep s call claimId dbNow workerNow = some t)
    (hwork : (t.calls call).bind Stage.claim? = some (work, claimId)) :
    ∃ v ∈ t.db.orders, v.id = work.id ∧ v.claimedBy = some claimId := by
  unfold claimStep at hstep
  split at hstep
  · rename_i row _
    cases hstep
    simp only [QueueState.advance, setAt_same, Option.bind_some] at hwork
    split at hwork
    · rename_i w hres
      simp only [claimedStage_claim, Option.some.injEq, Prod.mk.injEq, and_true] at hwork
      subst hwork
      simp only [claimWorkOrder, Option.map_eq_some_iff] at hres
      obtain ⟨v, hv, rfl⟩ := hres
      refine ⟨_, Table.mem_update.mpr (.inl ⟨v, ?_, ?_, rfl⟩), rfl, rfl⟩
      · exact List.mem_of_find?_eq_some hv
      · exact List.find?_some hv
    · cases hwork
  · cases hstep

/-- A run in which, after `work` was claimed under `claimId`, a second call
claims the same order under an id of its own. What the second call and
everyone else do then is left open; they draw ids of their own too. -/
def TakenOver (P : Platform) (twins : List CanonicalTwin) (work : WorkOrder)
    (claimId : String) (s : QueueState) : Prop :=
  ∃ before after second secondId dbNow workerNow work' rest,
    (queue P).Reachable (emptyQueue twins) before ∧
    queueStep P before (.claim second secondId dbNow workerNow) = some after ∧
    (after.calls second).bind Stage.claim? = some (work', secondId) ∧
    work'.id = work.id ∧ secondId ≠ claimId ∧
    (∀ a ∈ rest, ¬ QueueAction.Draws a claimId) ∧
    (queue P).run after rest = some s

theorem TakenOver.claimLost {twins : List CanonicalTwin} (h : TakenOver P twins work claimId s) :
    ClaimLost s work claimId := by
  obtain ⟨before, after, second, secondId, dbNow, workerNow, work', rest, hreach, hclaim,
    hstage, hsame, hne, hrest, hrun⟩ := h
  have hinv : FifoInv after := (fifoInv_reachable hreach).step hclaim
  refine ClaimLost.run hinv ?_ hrest hrun
  intro w hw hid hheld
  obtain ⟨v, hv, hvid, hvheld⟩ := claimStep_claimed hclaim hstage
  have hwv : w = v := Table.eq_of_key hinv.ids hw hv (hid.trans (hsame.symm.trans hvid.symm))
  rw [hwv, hvheld] at hheld
  exact hne (Option.some.inj hheld)

/-! ## The late completion -/

/-- The call's last word: a hold, a noop, an executed write, a failure (or
the saved translation before the write). -/
def QueueAction.Completes (call : Nat) : QueueAction → Prop
  | .translate c _ _ | .push c _ _ _ | .fail c _ _ _ _ => c = call
  | _ => False

/-- The completions that write the order row only: a translation that
holds nothing, and load shedding. -/
def QueueAction.RowOnly : QueueAction → Prop
  | .translate _ (.ready ..) _ => True
  | .fail _ (.loadShed ..) _ _ _ => True
  | _ => False

structure Undisturbed (s t : QueueState) : Prop where
  orders : t.db.orders = s.db.orders
  syncStates : t.db.twins.map (fun w => (w.id, w.syncState))
    = s.db.twins.map fun w => (w.id, w.syncState)
  events : t.db.events = s.db.events

theorem ClaimLost.updateHeld (h : ClaimLost s work claimId) (set : WorkOrder → WorkOrder) :
    updateHeld s.db work claimId set = s.db := by
  have hnone : ∀ w ∈ s.db.orders, heldBy work claimId w = false := by
    intro w hw
    by_cases hid : w.id = work.id
    · simp [heldBy, h w hw hid]
    · simp [heldBy, hid]
  rw [Connectors.updateHeld, Table.update_none hnone]

theorem not_undisturbed {e : WorkOrderEvent} (h : t.db.events = s.db.events ++ [e]) : ¬ Undisturbed s t := by
  intro hsame
  have hlen := congrArg List.length (h.symm.trans hsame.events)
  simp at hlen

theorem undisturbed_of_db (h : t.db = s.db) : Undisturbed s t :=
  ⟨by rw [h], by rw [h], by rw [h]⟩

theorem ClaimLost.completion_cases {first : Nat} {a : QueueAction} (hlost : ClaimLost s work claimId)
    (hcall : (s.calls first).bind Stage.claim? = some (work, claimId))
    (ha : a.Completes first) (hstep : queueStep P s a = some t) :
    (a.RowOnly ∧ t.db = s.db) ∨
      (¬ a.RowOnly ∧ t.db.orders = s.db.orders ∧ ∃ e, t.db.events = s.db.events ++ [e]) := by
  have hrow := hlost.updateHeld
  cases a with
  | translate c translation times =>
    obtain rfl : c = first := ha
    simp only [queueStep, translateStep] at hstep
    split at hstep
    · rename_i work' claimId' hstage
      simp only [hstage, Option.bind_some, Stage.claim?, Option.some.injEq,
        Prod.mk.injEq] at hcall
      obtain ⟨rfl, rfl⟩ := hcall
      cases translation with
      | hold transactionId reason message =>
        cases hstep
        refine .inr ⟨id, ?_, _, rfl⟩
        simp only [QueueState.advance, holdWorkOrder, hrow]
      | ready transactionId targetState fields effectiveStatus =>
        refine .inl ⟨trivial, ?_⟩
        simp only at hstep
        split at hstep <;> cases hstep
        · exact hrow _
        · exact hrow _
    · cases hstep
  | push c provider message times =>
    obtain rfl : c = first := ha
    simp only [queueStep, pushStep] at hstep
    split at hstep
    · rename_i hstage
      simp only [hstage, Option.bind_some, Stage.claim?, Option.some.injEq,
        Prod.mk.injEq] at hcall
      obtain ⟨rfl, rfl⟩ := hcall
      cases hstep
      refine .inr ⟨id, ?_, _, rfl⟩
      simp only [QueueState.advance, settleExecuted, hrow]
    · cases hstep
  | fail c error transactionId targetState times =>
    obtain rfl : c = first := ha
    have hfail : ∀ translating report,
        failWith s c work claimId translating report error times = t →
        ((QueueAction.fail c error transactionId targetState times).RowOnly ∧ t.db = s.db) ∨
        (¬ (QueueAction.fail c error transactionId targetState times).RowOnly ∧
          t.db.orders = s.db.orders ∧ ∃ e, t.db.events = s.db.events ++ [e]) := by
      rintro translating report rfl
      cases error with
      | loadShed message until_ => exact .inl ⟨trivial, hrow _⟩
      | remote | credential | other =>
        refine .inr ⟨id, ?_, _, rfl⟩
        simp only [failWith, QueueState.advance, settleFailed, hrow]
    simp only [queueStep, failStep] at hstep
    split at hstep
    · rename_i hstage
      simp only [hstage, Option.bind_some, Stage.claim?, Option.some.injEq,
        Prod.mk.injEq] at hcall
      obtain ⟨rfl, rfl⟩ := hcall
      exact hfail _ _ (Option.some.inj hstep)
    · rename_i hstage
      simp only [hstage, Option.bind_some, Stage.claim?, Option.some.injEq,
        Prod.mk.injEq] at hcall
      obtain ⟨rfl, rfl⟩ := hcall
      exact hfail _ _ (Option.some.inj hstep)
    · cases hstep
  | insert | load | checkBlocked | claim | renew | reinject | recover => cases ha

/-- **Exactly which late completions have no effect**: once a second call
has taken the order over, the first call's completion leaves orders, sync
states and events alone if and only if it is a translation that holds
nothing or a load-shed deferral. -/
theorem late_completion_undisturbed_iff (P : Platform) (twins : List CanonicalTwin)
    (s t : QueueState) (first : Nat) (work : WorkOrder) (claimId : String)
    (a : QueueAction) (htaken : TakenOver P twins work claimId s)
    (hcall : (s.calls first).bind Stage.claim? = some (work, claimId))
    (ha : a.Completes first) (hstep : queueStep P s a = some t) :
    Undisturbed s t ↔ a.RowOnly := by
  rcases htaken.claimLost.completion_cases hcall ha hstep with
    ⟨hrow, hdb⟩ | ⟨hrow, -, e, hevents⟩
  · exact ⟨fun _ => hrow, fun _ => undisturbed_of_db hdb⟩
  · exact ⟨fun h => absurd h (not_undisturbed hevents), fun h => absurd h hrow⟩

/-! ## A claim that expires during the write -/

def editedTwin : CanonicalTwin where
  id := 5
  orgId := 1
  connectorId := 2
  provider := "servicenow"
  artifactType := "incident"
  externalId := "INC1"
  nativeKey := none
  nativeUrl := none
  title := none
  nativeStatus := some "New"
  syncState := .synced
  fieldAuthority := []
  payload := []
  contentHash := none
  sourceUpdatedAt := none
  correlationNodeId := none

def stateAfter (s : QueueState) (as : List QueueAction) : QueueState :=
  ((queue .ascii).run s as).getD s

/-- Call 0 claims the edit; call 1 finds the order free when the claim has
expired. -/
def firstExpires : List QueueAction :=
  [.insert (stateEdit 10), .load 0 1 10 0 true, .checkBlocked 0, .claim 0 "w:0" 0 0,
   .load 1 1 10 120000 true, .checkBlocked 1]

def beforeTakeover : QueueState := stateAfter (emptyQueue [editedTwin]) firstExpires

/-- Call 1 claims the order, writes it and settles it as executed. -/
def settledBySecond : QueueState :=
  stateAfter beforeTakeover
    [.claim 1 "w:1" 120000 120000, .push 1 "servicenow" "ok" ⟨120000, 120001⟩]

def claimedByFirst : WorkOrder :=
  claimRow "w:0" 120000 ((stateEdit 10).row 1)

theorem settledBySecond_takenOver :
    TakenOver .ascii [editedTwin] claimedByFirst "w:0" settledBySecond := by
  refine ⟨beforeTakeover, stateAfter beforeTakeover [.claim 1 "w:1" 120000 120000], 1, "w:1",
    120000, 120000, claimRow "w:1" 240000 claimedByFirst,
    [.push 1 "servicenow" "ok" ⟨120000, 120001⟩], ⟨firstExpires, rfl⟩, rfl, rfl, rfl, by decide, ?_, rfl⟩
  intro a ha
  rw [List.mem_singleton.mp ha]
  exact id

theorem late_completion_undisturbed_iff_shed :
    Undisturbed settledBySecond (stateAfter settledBySecond
      [.fail 0 (.loadShed "busy" 200000) none none ⟨0, 130000⟩]) :=
  (late_completion_undisturbed_iff .ascii [editedTwin] settledBySecond _ 0 claimedByFirst
    "w:0" (.fail 0 (.loadShed "busy" 200000) none none ⟨0, 130000⟩)
    settledBySecond_takenOver rfl rfl rfl).mpr trivial

/-- The provider rejects the first worker's write after the second worker
has settled the order as executed: the order stays executed, the twin is
paused and the write is reported as failed for good. -/
theorem late_failure_pauses_twin :
    ∃ t, queueStep .ascii settledBySecond
        (.fail 0 (.remote "rejected" false none) none (some "Closed") ⟨0, 130000⟩) = some t ∧
      TakenOver .ascii [editedTwin] claimedByFirst "w:0" settledBySecond ∧
      (settledBySecond.calls 0).bind Stage.claim? = some (claimedByFirst, "w:0") ∧
      settledBySecond.calls 1 = some (.returned .executed) ∧
      ¬ Undisturbed settledBySecond t ∧ t.db.orders.map (·.status) = [.executed] ∧
      settledBySecond.db.twins.map (·.syncState) = [.synced] ∧
      t.db.twins.map (·.syncState) = [.paused] ∧
      settledBySecond.db.events.length = 1 ∧ t.db.events.length = 2 :=
  ⟨_, rfl, settledBySecond_takenOver, rfl, rfl, not_undisturbed rfl, rfl, rfl, rfl, rfl, rfl⟩

end Cadena.Connectors
