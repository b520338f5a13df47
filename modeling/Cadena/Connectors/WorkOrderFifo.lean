import Cadena.Connectors.WorkOrderQueue

/-!
# The queue of one twin is first in, first out

The blocked check and the claim are separate steps, so the check may be
out of date when the claim runs. It is out of date in one direction only:
finished orders stay finished and new orders go behind. `FifoInv` says
what each step needs and keeps.
-/

namespace Cadena.Connectors

open Cadena.Base

/-- Every order in front of `w` is executed or noop. -/
def AtHead (orders : List WorkOrder) (w : WorkOrder) : Prop :=
  ∀ q ∈ orders, q.Before w → q.status.settled = true

variable {v w : WorkOrder} {s t : QueueState} {a : QueueAction} {as : List QueueAction}

theorem AtHead.of_key {orders : List WorkOrder} (h : AtHead orders w) (hkey : v.key = w.key) : AtHead orders v := by
  simp only [WorkOrder.key, Prod.mk.injEq] at hkey
  obtain ⟨-, horg, htwin, hpos, -⟩ := hkey
  intro q hq hbefore
  refine h q hq ?_
  rwa [WorkOrder.Before, ← horg, ← htwin, ← hpos]

theorem not_blocked {db : Db} {row : WorkOrder} (h : blocked db row = false) :
    AtHead db.orders row := by
  intro q hq hbefore
  have hrow := List.any_eq_false.mp h q hq
  simpa [hbefore, WorkOrderStatus.settled] using hrow

/-- The invariant of the queue. -/
structure FifoInv (s : QueueState) : Prop where
  ids : (s.db.orders.map (·.id)).Nodup
  positions : (s.db.orders.map (·.queuePosition)).Nodup
  issued : ∀ w ∈ s.db.orders, w.queuePosition < s.db.nextPosition
  indexed : ∀ w ∈ s.db.orders, ∀ v ∈ s.db.orders, w.sourceEventId.isSome = true →
    w.sourceEventId = v.sourceEventId → w.targetTwinId = v.targetTwinId → w = v
  unclaimed : ∀ w ∈ s.db.orders, w.status ≠ .processing → w.claimedBy = none
  served : ∀ w ∈ s.db.orders, w.status = .processing → AtHead s.db.orders w
  loaded : ∀ c row, s.calls c = some (.loaded row) → ∃ w ∈ s.db.orders, w.key = row.key
  unblocked : ∀ c row, s.calls c = some (.unblocked row) →
    (∃ w ∈ s.db.orders, w.key = row.key) ∧ AtHead s.db.orders row

theorem fifoInv_empty (twins : List CanonicalTwin) : FifoInv (emptyQueue twins) where
  ids := List.nodup_nil
  positions := List.nodup_nil
  issued := by simp [emptyQueue]
  indexed := by simp [emptyQueue]
  unclaimed := by simp [emptyQueue]
  served := by simp [emptyQueue]
  loaded := by simp [emptyQueue]
  unblocked := by simp [emptyQueue]

/-! ## What one statement may do -/

/-- An update of the orders that keeps the queue in order: it touches
unfinished orders only, keeps their key columns, puts an order into
processing only at the head of its queue, and writes no claim but those
of `draws`. -/
structure Sound (draws : String → Prop) (orders : List WorkOrder) (p : WorkOrder → Bool)
    (f : WorkOrder → WorkOrder) : Prop where
  key : ∀ w, (f w).key = w.key
  unfinished : ∀ w ∈ orders, p w = true → w.status.settled = false
  released : ∀ w ∈ orders, p w = true → (f w).status ≠ .processing → (f w).claimedBy = none
  served : ∀ w ∈ orders, p w = true → (f w).status = .processing →
    w.status = .processing ∨ AtHead orders w
  drawn : ∀ w claimId, (f w).claimedBy = some claimId →
    w.claimedBy = some claimId ∨ draws claimId

namespace Sound

variable {draws : String → Prop} {orders : List WorkOrder} {p : WorkOrder → Bool} {f : WorkOrder → WorkOrder}

theorem nothing (draws : String → Prop) (orders : List WorkOrder) :
    Sound draws orders (fun _ => false) id where
  key _ := rfl
  unfinished _ _ h := nomatch h
  released _ _ h := nomatch h
  served _ _ h := nomatch h
  drawn _ _ h := .inl h

theorem settled_mem (h : Sound draws orders p f) {w : WorkOrder} (hw : w ∈ orders)
    (hset : w.status.settled = true) : w ∈ Table.update p f orders := by
  refine Table.mem_update_of_not hw (Bool.eq_false_iff.mpr fun hp => ?_)
  rw [h.unfinished w hw hp] at hset
  cases hset

theorem atHead (h : Sound draws orders p f) {w : WorkOrder} (hw : AtHead orders w) :
    AtHead (Table.update p f orders) w := by
  intro q hq hbefore
  rcases Table.mem_update.mp hq with ⟨q', hq', hp, rfl⟩ | ⟨hq', -⟩
  · have hk := h.key q'
    simp only [WorkOrder.key, Prod.mk.injEq] at hk
    obtain ⟨-, horg, htwin, hpos, -⟩ := hk
    have hset := hw q' hq' (by rwa [WorkOrder.Before, ← horg, ← htwin, ← hpos])
    rw [h.unfinished q' hq' hp] at hset
    cases hset
  · exact hw q hq' hbefore

theorem exists_key (h : Sound draws orders p f) {k : Uuid × Uuid × Uuid × Nat × Option Uuid}
    (hk : ∃ w ∈ orders, w.key = k) : ∃ w ∈ Table.update p f orders, w.key = k := by
  obtain ⟨w, hw, rfl⟩ := hk
  by_cases hp : p w = true
  · exact ⟨f w, Table.mem_update.mpr (.inl ⟨w, hw, hp, rfl⟩), h.key w⟩
  · exact ⟨w, Table.mem_update_of_not hw (by simpa using hp), rfl⟩

theorem indexed (h : Sound draws orders p f)
    (hidx : ∀ w ∈ orders, ∀ v ∈ orders, w.sourceEventId.isSome = true →
      w.sourceEventId = v.sourceEventId → w.targetTwinId = v.targetTwinId → w = v) :
    ∀ w ∈ Table.update p f orders, ∀ v ∈ Table.update p f orders,
      w.sourceEventId.isSome = true → w.sourceEventId = v.sourceEventId →
      w.targetTwinId = v.targetTwinId → w = v := by
  have hsource : ∀ w ∈ Table.update p f orders, ∃ q ∈ orders,
      w = (if p q then f q else q) ∧ w.sourceEventId = q.sourceEventId ∧
        w.targetTwinId = q.targetTwinId := by
    intro w hw
    obtain ⟨q, hq, rfl⟩ := List.mem_map.mp hw
    refine ⟨q, hq, rfl, ?_⟩
    have hk := h.key q
    simp only [WorkOrder.key, Prod.mk.injEq] at hk
    by_cases hp : p q = true
    · simp only [hp, if_true]
      exact ⟨hk.2.2.2.2, hk.2.2.1⟩
    · simp only [hp]
      exact ⟨rfl, rfl⟩
  intro w hw v hv hsome hevent htwin
  obtain ⟨q, hq, hwq, hqe, hqt⟩ := hsource w hw
  obtain ⟨r, hr, hvr, hre, hrt⟩ := hsource v hv
  have hqr : q = r :=
    hidx q hq r hr (hqe ▸ hsome) (hqe ▸ hre ▸ hevent) (hqt ▸ hrt ▸ htwin)
  rw [hwq, hvr, hqr]

end Sound

/-- What a step other than an insertion does: one sound update, and each
call keeps its stage, moves on, or passes a check that the state grants. -/
structure Rewrites (draws : String → Prop) (s t : QueueState) : Prop where
  orders : ∃ p f, Sound draws s.db.orders p f ∧ t.db.orders = Table.update p f s.db.orders
  nextPosition : t.db.nextPosition = s.db.nextPosition
  loaded : ∀ c row, t.calls c = some (.loaded row) →
    s.calls c = some (.loaded row) ∨ row ∈ s.db.orders
  unblocked : ∀ c row, t.calls c = some (.unblocked row) →
    s.calls c = some (.unblocked row) ∨
      (s.calls c = some (.loaded row) ∧ AtHead s.db.orders row)

theorem FifoInv.rewrites {draws : String → Prop} (h : FifoInv s) (hst : Rewrites draws s t) : FifoInv t := by
  obtain ⟨⟨p, f, hsound, horders⟩, hnext, hloaded, hunblocked⟩ := hst
  have hids := Table.update_column (p := p) (·.id)
    (fun w => congrArg (·.1) (hsound.key w)) s.db.orders
  have hpos := Table.update_column (p := p) (·.queuePosition)
    (fun w => congrArg (·.2.2.2.1) (hsound.key w)) s.db.orders
  constructor
  · rw [horders, hids]
    exact h.ids
  · rw [horders, hpos]
    exact h.positions
  · intro w hw
    rw [horders] at hw
    rw [hnext]
    rcases Table.mem_update.mp hw with ⟨q, hq, -, rfl⟩ | ⟨hq, -⟩
    · have hk : (f q).queuePosition = q.queuePosition := congrArg (·.2.2.2.1) (hsound.key q)
      rw [hk]
      exact h.issued q hq
    · exact h.issued w hq
  · rw [horders]
    exact hsound.indexed h.indexed
  · intro w hw hne
    rw [horders] at hw
    rcases Table.mem_update.mp hw with ⟨q, hq, hp, rfl⟩ | ⟨hq, -⟩
    · exact hsound.released q hq hp hne
    · exact h.unclaimed w hq hne
  · intro w hw hproc
    rw [horders] at hw ⊢
    rcases Table.mem_update.mp hw with ⟨q, hq, hp, rfl⟩ | ⟨hq, -⟩
    · have hhead : AtHead s.db.orders q := by
        rcases hsound.served q hq hp hproc with hq' | hq'
        · exact h.served q hq hq'
        · exact hq'
      exact (hsound.atHead hhead).of_key (hsound.key q)
    · exact hsound.atHead (h.served w hq hproc)
  · intro c row hc
    rw [horders]
    rcases hloaded c row hc with hold | hrow
    · exact hsound.exists_key (h.loaded c row hold)
    · exact hsound.exists_key ⟨row, hrow, rfl⟩
  · intro c row hc
    rw [horders]
    rcases hunblocked c row hc with hold | ⟨hold, hhead⟩
    · obtain ⟨hkey, hhead⟩ := h.unblocked c row hold
      exact ⟨hsound.exists_key hkey, hsound.atHead hhead⟩
    · exact ⟨hsound.exists_key (h.loaded c row hold), hsound.atHead hhead⟩

/-! ## Insertion -/

theorem AtHead.append {orders : List WorkOrder} (h : AtHead orders w)
    (hpos : w.queuePosition ≤ v.queuePosition) : AtHead (orders ++ [v]) w := by
  intro q hq hbefore
  rcases List.mem_append.mp hq with hq | hq
  · exact h q hq hbefore
  · have hqv : q = v := by simpa using hq
    have := hbefore.2.2
    rw [hqv] at this
    omega

theorem FifoInv.insert {n : NewWorkOrder} (h : FifoInv s) (hstep : insertStep s n = some t) : FifoInv t := by
  unfold insertStep at hstep
  split at hstep
  · cases hstep
  rename_i hfresh
  cases hstep
  by_cases htaken : eventTwinTaken s.db.orders n = true
  · simp only [insertWorkOrder, htaken, if_true]
    exact { h with issued := fun w hw => Nat.lt_succ_of_lt (h.issued w hw) }
  have hkey : ∀ {row : WorkOrder}, (∃ w ∈ s.db.orders, w.key = row.key) →
      row.queuePosition ≤ (n.row s.db.nextPosition).queuePosition := by
    rintro row ⟨w, hw, hk⟩
    have hpos : w.queuePosition = row.queuePosition := congrArg (·.2.2.2.1) hk
    have := h.issued w hw
    simp only [NewWorkOrder.row]
    omega
  have hmem : ∀ {k}, (∃ w ∈ s.db.orders, w.key = k) →
      ∃ w ∈ s.db.orders ++ [n.row s.db.nextPosition], w.key = k := by
    rintro k ⟨w, hw, hk⟩
    exact ⟨w, List.mem_append_left _ hw, hk⟩
  simp only [insertWorkOrder, htaken, Bool.false_eq_true, if_false]
  constructor
  · refine Table.nodup_insert h.ids fun w hw heq => hfresh (List.any_eq_true.mpr ⟨w, hw, ?_⟩)
    simpa [NewWorkOrder.row] using heq
  · exact Table.nodup_insert h.positions fun w hw => (h.issued w hw).ne
  · intro w hw
    rcases List.mem_append.mp hw with hw | hw
    · exact Nat.lt_succ_of_lt (h.issued w hw)
    · rw [List.mem_singleton.mp hw]
      exact Nat.lt_succ_self _
  · have hfree : ∀ w ∈ s.db.orders, w.sourceEventId.isSome = true →
        w.sourceEventId = n.sourceEventId → w.targetTwinId ≠ n.targetTwinId := by
      intro w hw hsome hevent htwin
      refine htaken ?_
      simp only [eventTwinTaken, ← hevent, hsome, Bool.true_and, List.any_eq_true]
      exact ⟨w, hw, by simp [hevent, htwin]⟩
    intro w hw v hv hsome hevent htwin
    rcases List.mem_append.mp hw with hw | hw
    · rcases List.mem_append.mp hv with hv | hv
      · exact h.indexed w hw v hv hsome hevent htwin
      · rw [List.mem_singleton.mp hv] at hevent htwin
        exact absurd htwin (hfree w hw hsome hevent)
    · rcases List.mem_append.mp hv with hv | hv
      · rw [List.mem_singleton.mp hw] at hevent htwin hsome
        exact absurd htwin.symm (hfree v hv (hevent ▸ hsome) hevent.symm)
      · rw [List.mem_singleton.mp hw, List.mem_singleton.mp hv]
  · intro w hw hne
    rcases List.mem_append.mp hw with hw | hw
    · exact h.unclaimed w hw hne
    · rw [List.mem_singleton.mp hw]
      rfl
  · intro w hw hproc
    rcases List.mem_append.mp hw with hw | hw
    · exact (h.served w hw hproc).append (hkey ⟨w, hw, rfl⟩)
    · rw [List.mem_singleton.mp hw] at hproc
      cases hproc
  · intro c row hc
    exact hmem (h.loaded c row hc)
  · intro c row hc
    obtain ⟨hw, hhead⟩ := h.unblocked c row hc
    exact ⟨hmem hw, hhead.append (hkey hw)⟩

/-! ## The statements of `executeWorkOrder` and its neighbours -/

section Statements

variable {draws : String → Prop} {s : QueueState}

theorem FifoInv.held_processing (h : FifoInv s) {work : WorkOrder} {claimId : String}
    {w : WorkOrder} (hw : w ∈ s.db.orders) (hheld : heldBy work claimId w = true) :
    w.status = .processing := by
  by_contra hne
  have hnone := h.unclaimed w hw hne
  simp [heldBy, hnone] at hheld

theorem FifoInv.sound_held (h : FifoInv s) (work : WorkOrder) (claimId : String)
    {set : WorkOrder → WorkOrder} (hkey : ∀ w, (set w).key = w.key)
    (hset : ∀ w, w.status = .processing → (set w).status ≠ .processing →
      (set w).claimedBy = none)
    (hdrawn : ∀ w k, (set w).claimedBy = some k → w.claimedBy = some k) :
    Sound draws s.db.orders (heldBy work claimId) set where
  key := hkey
  unfinished w hw hp := by rw [h.held_processing hw hp]; rfl
  released w hw hp hne := hset w (h.held_processing hw hp) hne
  served w hw hp _ := .inl (h.held_processing hw hp)
  drawn w k hk := .inl (hdrawn w k hk)

theorem claimable_iff {row w : WorkOrder} {dbNow : Millis} :
    claimable row dbNow w = true ↔
      w.id = row.id ∧ w.orgId = row.orgId ∧ w.attempts = row.attempts ∧
        (w.status = .pending ∨ w.status = .failed ∨
          (w.status = .processing ∧ claimExpired w dbNow = true)) := by
  simp only [claimable, Bool.and_eq_true, Bool.or_eq_true, decide_eq_true_eq]
  tauto

/-- The claim puts an order into processing; its queue was checked by the
same call, and what was true of the queue then is true now. -/
theorem FifoInv.sound_claim (h : FifoInv s) {c : Nat} {row : WorkOrder}
    (hcall : s.calls c = some (.unblocked row)) (claimId : String)
    (dbNow expires : Millis) :
    Sound (· = claimId) s.db.orders (claimable row dbNow) (claimRow claimId expires) where
  key _ := rfl
  unfinished w _ hp := by
    obtain ⟨-, -, -, hstatus⟩ := claimable_iff.mp hp
    rcases hstatus with hs | hs | ⟨hs, -⟩ <;> rw [hs] <;> rfl
  released _ _ _ hne := absurd rfl hne
  served w hw hp _ := by
    obtain ⟨⟨v, hv, hkey⟩, hhead⟩ := h.unblocked c row hcall
    have hid : w.id = v.id :=
      (claimable_iff.mp hp).1.trans (congrArg (·.1) hkey).symm
    have hwv : w = v := Table.eq_of_key h.ids hw hv hid
    exact .inr (hhead.of_key (hwv ▸ hkey))
  drawn _ _ hk := .inr (Option.some.inj hk).symm

variable {call : Nat} {t : QueueState} {times : AttemptTimes}

theorem Rewrites.advance {db : Db} {stage : Stage}
    (horders : ∃ p f, Sound draws s.db.orders p f ∧ db.orders = Table.update p f s.db.orders)
    (hnext : db.nextPosition = s.db.nextPosition)
    (hloaded : ∀ row, stage = .loaded row → row ∈ s.db.orders)
    (hunblocked : ∀ row, stage = .unblocked row →
      s.calls call = some (.loaded row) ∧ AtHead s.db.orders row) :
    Rewrites draws s (s.advance db call stage) where
  orders := horders
  nextPosition := hnext
  loaded c row hc := by
    by_cases hcall : c = call
    · subst hcall
      exact .inr (hloaded row (by simpa [QueueState.advance] using hc))
    · exact .inl (by simpa [QueueState.advance, setAt_other _ _ hcall] using hc)
  unblocked c row hc := by
    by_cases hcall : c = call
    · subst hcall
      exact .inr (hunblocked row (by simpa [QueueState.advance] using hc))
    · exact .inl (by simpa [QueueState.advance, setAt_other _ _ hcall] using hc)

theorem Rewrites.write {db : Db}
    (horders : ∃ p f, Sound draws s.db.orders p f ∧ db.orders = Table.update p f s.db.orders)
    (hnext : db.nextPosition = s.db.nextPosition) : Rewrites draws s { s with db := db } where
  orders := horders
  nextPosition := hnext
  loaded _ _ hc := .inl hc
  unblocked _ _ hc := .inl hc

theorem unchanged_orders (draws : String → Prop) (orders : List WorkOrder) :
    ∃ p f, Sound draws orders p f ∧ orders = Table.update p f orders :=
  ⟨_, _, Sound.nothing draws orders, (Table.update_none fun _ _ => rfl).symm⟩

theorem load_rewrites {orgId workOrderId : Uuid} {now : Millis} {connectorOpen : Bool}
    (hstep : loadStep s call orgId workOrderId now connectorOpen = some t) :
    Rewrites draws s t := by
  unfold loadStep at hstep
  split at hstep
  · rename_i row _ hrow
    cases hstep
    refine Rewrites.advance (unchanged_orders _ _) rfl (fun r hr => ?_) (fun r hr => ?_)
    · split at hr
      · cases hr
        exact List.mem_of_find?_eq_some hrow
      · cases hr
    · split at hr <;> cases hr
  · cases hstep

theorem checkBlocked_rewrites (hstep : checkBlockedStep s call = some t) : Rewrites draws s t := by
  unfold checkBlockedStep at hstep
  split at hstep
  · rename_i row hcall
    cases hstep
    refine Rewrites.advance (unchanged_orders _ _) rfl (fun r hr => ?_) (fun r hr => ?_)
    · split at hr <;> cases hr
    · split at hr
      · cases hr
      · rename_i hblocked
        cases hr
        exact ⟨hcall, not_blocked (by simpa using hblocked)⟩
  · cases hstep

theorem claimedStage_claim (work : WorkOrder) (claimId : String) :
    (claimedStage work claimId).claim? = some (work, claimId) := by
  unfold claimedStage
  split <;> rfl

theorem FifoInv.claim_rewrites (h : FifoInv s) {claimId : String} {dbNow workerNow : Millis}
    (hstep : claimStep s call claimId dbNow workerNow = some t) :
    Rewrites (· = claimId) s t := by
  unfold claimStep at hstep
  split at hstep
  · rename_i row hcall
    cases hstep
    refine Rewrites.advance ⟨_, _, h.sound_claim hcall claimId dbNow _, rfl⟩ rfl ?_ ?_
    · intro r hr
      split at hr
      · have := claimedStage_claim ‹WorkOrder› claimId
        rw [hr] at this
        cases this
      · cases hr
    · intro r hr
      split at hr
      · have := claimedStage_claim ‹WorkOrder› claimId
        rw [hr] at this
        cases this
      · cases hr
  · cases hstep

theorem FifoInv.held_rewrites (h : FifoInv s) {db : Db} {stage : Stage}
    (work : WorkOrder) (claimId : String) {set : WorkOrder → WorkOrder}
    (horders : db.orders = Table.update (heldBy work claimId) set s.db.orders)
    (hnext : db.nextPosition = s.db.nextPosition)
    (hkey : ∀ w, (set w).key = w.key)
    (hset : ∀ w, w.status = .processing → (set w).status ≠ .processing →
      (set w).claimedBy = none)
    (hdrawn : ∀ w k, (set w).claimedBy = some k → w.claimedBy = some k)
    (hloaded : ∀ row, stage ≠ .loaded row) (hunblocked : ∀ row, stage ≠ .unblocked row) :
    Rewrites draws s (s.advance db call stage) := by
  refine Rewrites.advance ⟨_, _, h.sound_held work claimId hkey hset hdrawn, horders⟩ hnext ?_ ?_
  · exact fun row hrow => absurd hrow (hloaded row)
  · exact fun row hrow => absurd hrow (hunblocked row)

theorem FifoInv.translate_rewrites (h : FifoInv s) (P : Platform) {translation : Translation}
    (hstep : translateStep P s call translation times = some t) : Rewrites draws s t := by
  unfold translateStep at hstep
  split at hstep
  · rename_i work claimId _
    split at hstep
    · cases hstep
      exact h.held_rewrites work claimId rfl rfl (fun _ => rfl) (fun _ _ _ => rfl)
        (fun _ _ hk => nomatch hk) (fun _ hr => nomatch hr) (fun _ hr => nomatch hr)
    · split at hstep
      · cases hstep
        exact h.held_rewrites work claimId rfl rfl (fun _ => rfl) (fun _ _ _ => rfl)
          (fun _ _ hk => nomatch hk) (fun _ hr => nomatch hr) (fun _ hr => nomatch hr)
      · cases hstep
        exact h.held_rewrites work claimId rfl rfl (fun _ => rfl)
          (fun _ hproc hne => absurd hproc hne)
          (fun _ _ hk => hk) (fun _ hr => nomatch hr) (fun _ hr => nomatch hr)
  · cases hstep

theorem FifoInv.push_rewrites (h : FifoInv s) {provider message : String}
    (hstep : pushStep s call provider message times = some t) : Rewrites draws s t := by
  unfold pushStep at hstep
  split at hstep
  · rename_i work claimId _ _ _ _
    cases hstep
    exact h.held_rewrites work claimId rfl rfl (fun _ => rfl) (fun _ _ _ => rfl)
      (fun _ _ hk => nomatch hk) (fun _ hr => nomatch hr) (fun _ hr => nomatch hr)
  · cases hstep

theorem FifoInv.failWith_rewrites (h : FifoInv s) (call : Nat) (work : WorkOrder)
    (claimId : String) (translating : Bool) (report : WorkOrderReport)
    (error : ExecError) (times : AttemptTimes) :
    Rewrites draws s (failWith s call work claimId translating report error times) := by
  cases error <;>
    exact h.held_rewrites work claimId rfl rfl (fun _ => rfl) (fun _ _ _ => rfl)
      (fun _ _ hk => nomatch hk) (fun _ hr => nomatch hr) (fun _ hr => nomatch hr)

theorem FifoInv.fail_rewrites (h : FifoInv s)
    {error : ExecError} {transactionId : Option Uuid} {targetState : Option String}
    (hstep : failStep s call error transactionId targetState times = some t) :
    Rewrites draws s t := by
  unfold failStep at hstep
  split at hstep <;> cases hstep
  · exact h.failWith_rewrites ..
  · exact h.failWith_rewrites ..

theorem renew_rewrites {workerNow : Millis} (hstep : renewStep s call workerNow = some t) : Rewrites draws s t := by
  unfold renewStep at hstep
  split at hstep
  · rename_i work claimId _
    cases hstep
    refine Rewrites.write ⟨_, _, ?_, rfl⟩ rfl
    have hproc : ∀ w : WorkOrder, (decide (w.id = work.id)
        && decide (w.claimedBy = some claimId) && decide (w.status = .processing)) = true →
        w.status = .processing := by
      intro w hw
      simp only [Bool.and_eq_true, decide_eq_true_eq] at hw
      exact hw.2
    exact {
      key := fun _ => rfl
      unfinished := fun w _ hp => by rw [hproc w hp]; rfl
      released := fun w _ hp hne => absurd (hproc w hp) hne
      served := fun w _ hp _ => .inl (hproc w hp)
      drawn := fun _ _ hk => .inl hk }
  · cases hstep

theorem reinject_rewrites (s : QueueState) (orgId connectorId entryId twinId : Uuid)
    (sourcePayload : Fields) (targetState : String) (fields : Fields)
    (history : List ConnectorQueueAttempt) (corrected : Bool) :
    Rewrites draws s { s with
      db := reinjectWorkOrder s.db orgId connectorId entryId twinId sourcePayload
        targetState fields history corrected } := by
  refine Rewrites.write ⟨_, _, ?_, rfl⟩ rfl
  constructor
  · intro w
    rfl
  · intro w _ hp
    simp only [Bool.and_eq_true, Bool.or_eq_true, decide_eq_true_eq] at hp
    rcases hp.2 with hs | hs <;> rw [hs] <;> rfl
  · intro w _ _ _
    rfl
  · intro w _ _ hproc
    cases hproc
  · intro w k hk
    cases hk

theorem recover_rewrites (s : QueueState) (dbNow : Millis) :
    Rewrites draws s { s with db := recoverClaims s.db dbNow } := by
  refine Rewrites.write ⟨_, _, ?_, rfl⟩ rfl
  constructor
  · intro w
    rfl
  · intro w _ hp
    simp only [Bool.and_eq_true, decide_eq_true_eq] at hp
    rw [hp.1]
    rfl
  · intro w _ _ _
    rfl
  · intro w _ _ hproc
    cases hproc
  · intro w k hk
    cases hk

end Statements

/-! ## Steps and runs -/

variable {P : Platform}

def QueueAction.Draws (a : QueueAction) (claimId : String) : Prop :=
  match a with
  | .claim _ drawn _ _ => claimId = drawn
  | _ => False

theorem FifoInv.step_rewrites (h : FifoInv s) (hnot : ∀ n, a ≠ .insert n)
    (hstep : queueStep P s a = some t) : Rewrites a.Draws s t := by
  cases a with
  | insert n => exact absurd rfl (hnot n)
  | load => exact load_rewrites hstep
  | checkBlocked => exact checkBlocked_rewrites hstep
  | claim => exact h.claim_rewrites hstep
  | translate => exact h.translate_rewrites P hstep
  | push => exact h.push_rewrites hstep
  | fail => exact h.fail_rewrites hstep
  | renew => exact renew_rewrites hstep
  | reinject =>
    cases hstep
    exact reinject_rewrites ..
  | recover =>
    cases hstep
    exact recover_rewrites ..

theorem FifoInv.step_cases (h : FifoInv s) (hstep : queueStep P s a = some t) :
    (∃ n, insertStep s n = some t) ∨ Rewrites a.Draws s t := by
  cases a with
  | insert n => exact .inl ⟨n, hstep⟩
  | _ => exact .inr (h.step_rewrites nofun hstep)

theorem FifoInv.step (h : FifoInv s) (hstep : queueStep P s a = some t) : FifoInv t := by
  rcases h.step_cases hstep with ⟨n, hinsert⟩ | hst
  · exact h.insert hinsert
  · exact h.rewrites hst

theorem FifoInv.run (h : FifoInv s) (hrun : (queue P).run s as = some t) : FifoInv t :=
  (queue P).run_invariant (fun hs hstep => hs.step hstep) h hrun

theorem fifoInv_reachable {twins : List CanonicalTwin} (h : (queue P).Reachable (emptyQueue twins) s) : FifoInv s :=
  (queue P).reachable_invariant (fifoInv_empty twins) (fun hs hstep => hs.step hstep) h

theorem FifoInv.key_step (h : FifoInv s) (hstep : queueStep P s a = some t) (hw : w ∈ s.db.orders) :
    ∃ v ∈ t.db.orders, v.key = w.key := by
  rcases h.step_cases hstep with ⟨n, hinsert⟩ | hst
  · unfold insertStep at hinsert
    split at hinsert <;> cases hinsert
    simp only [insertWorkOrder]
    split
    · exact ⟨w, hw, rfl⟩
    · exact ⟨w, List.mem_append_left _ hw, rfl⟩
  · obtain ⟨p, f, hsound, horders⟩ := hst.orders
    rw [horders]
    exact hsound.exists_key ⟨w, hw, rfl⟩

theorem FifoInv.key_run (h : FifoInv s) (hrun : (queue P).run s as = some t) (hw : w ∈ s.db.orders) :
    ∃ v ∈ t.db.orders, v.key = w.key := by
  refine (queue P).run_relation (P := FifoInv)
    (R := fun s t => ∀ k, (∃ w ∈ s.db.orders, w.key = k) → ∃ v ∈ t.db.orders, v.key = k)
    (fun hs hstep => hs.step hstep) (fun _ _ hw => hw)
    (fun hst htu k hk => htu k (hst k hk)) (fun hs hstep k hk => ?_) h hrun _ ⟨w, hw, rfl⟩
  obtain ⟨w, hw, rfl⟩ := hk
  exact hs.key_step hstep hw

theorem FifoInv.settled_step (h : FifoInv s) (hstep : queueStep P s a = some t) (hw : w ∈ s.db.orders)
    (hset : w.status.settled = true) : w ∈ t.db.orders := by
  rcases h.step_cases hstep with ⟨n, hinsert⟩ | hst
  · unfold insertStep at hinsert
    split at hinsert <;> cases hinsert
    simp only [insertWorkOrder]
    split
    · exact hw
    · exact List.mem_append_left _ hw
  · obtain ⟨p, f, hsound, horders⟩ := hst.orders
    rw [horders]
    exact hsound.settled_mem hw hset

theorem FifoInv.settled_run (h : FifoInv s) (hrun : (queue P).run s as = some t) (hw : w ∈ s.db.orders)
    (hset : w.status.settled = true) : w ∈ t.db.orders := by
  refine (queue P).run_relation (P := FifoInv)
    (R := fun s t => w ∈ s.db.orders → w ∈ t.db.orders)
    (fun hs hstep => hs.step hstep) (fun _ hw => hw) (fun hst htu hw => htu (hst hw))
    (fun hs hstep hw => hs.settled_step hstep hw hset) h hrun hw

theorem FifoInv.one_processing (h : FifoInv s)
    (hw : w ∈ s.db.orders) (hv : v ∈ s.db.orders) (hwp : w.status = .processing)
    (hvp : v.status = .processing) (horg : w.orgId = v.orgId)
    (htwin : w.targetTwinId = v.targetTwinId) : w = v := by
  rcases Nat.lt_trichotomy w.queuePosition v.queuePosition with hlt | heq | hgt
  · have hset := h.served v hv hvp w hw ⟨horg, htwin, hlt⟩
    rw [hwp] at hset
    cases hset
  · exact Table.eq_of_key h.positions hw hv heq
  · have hset := h.served w hw hwp v hv ⟨horg.symm, htwin.symm, hgt⟩
    rw [hvp] at hset
    cases hset

/-- The step gives the order a claim it did not have: it moves to
processing, or to another worker. -/
def Claims (s t : QueueState) (w : WorkOrder) : Prop :=
  w ∈ t.db.orders ∧ w.status = .processing ∧
    ∀ v ∈ s.db.orders, v.id = w.id → v.status ≠ .processing ∨ v.claimedBy ≠ w.claimedBy

theorem FifoInv.claims_at_head (h : FifoInv s) (hstep : queueStep P s a = some t) (hclaim : Claims s t w) :
    AtHead s.db.orders w := by
  obtain ⟨hw, hproc, hnew⟩ := hclaim
  rcases h.step_cases hstep with ⟨n, hinsert⟩ | hst
  · have hht := (h.insert hinsert).served w hw hproc
    unfold insertStep at hinsert
    split at hinsert <;> cases hinsert
    intro q hq
    refine hht q ?_
    simp only [insertWorkOrder]
    split
    · exact hq
    · exact List.mem_append_left _ hq
  · obtain ⟨p, f, hsound, horders⟩ := hst.orders
    rw [horders] at hw
    rcases Table.mem_update.mp hw with ⟨v, hv, hp, rfl⟩ | ⟨hw, -⟩
    · rcases hsound.served v hv hp hproc with hv' | hhead
      · exact (h.served v hv hv').of_key (hsound.key v)
      · exact hhead.of_key (hsound.key v)
    · exact h.served w hw hproc

/-- **Outbound writes of a twin are first in, first out.** In every
reachable state: a step claims an order only when every order in front of
it is finished, one order of a twin is processing at most, and a finished
order keeps its status in every state that follows. -/
theorem outbound_writes_fifo (P : Platform) (twins : List CanonicalTwin) (s : QueueState)
    (h : (queue P).Reachable (emptyQueue twins) s) :
    (∀ a t, queueStep P s a = some t → ∀ w, Claims s t w →
      ∀ q ∈ s.db.orders, q.Before w → q.status = .executed ∨ q.status = .noop) ∧
    (∀ w ∈ s.db.orders, ∀ v ∈ s.db.orders, w.status = .processing →
      v.status = .processing → w.orgId = v.orgId → w.targetTwinId = v.targetTwinId →
      w = v) ∧
    (∀ as t, (queue P).run s as = some t → ∀ w ∈ s.db.orders,
      (w.status = .executed ∨ w.status = .noop) →
      w ∈ t.db.orders ∧ ∀ v ∈ t.db.orders, v.id = w.id → v.status = w.status) := by
  have hinv := fifoInv_reachable h
  refine ⟨?_, ?_, ?_⟩
  · intro a t hstep w hclaim q hq hbefore
    have hset := hinv.claims_at_head hstep hclaim q hq hbefore
    revert hset
    cases q.status <;> simp [WorkOrderStatus.settled, WorkOrderStatus.unfinished]
  · intro w hw v hv hwp hvp horg htwin
    exact hinv.one_processing hw hv hwp hvp horg htwin
  · intro as t hrun w hw hdone
    have hset : w.status.settled = true := by
      rcases hdone with hs | hs <;> rw [hs] <;> rfl
    have hwt := hinv.settled_run hrun hw hset
    refine ⟨hwt, fun v hv hid => ?_⟩
    rw [Table.eq_of_key (hinv.run hrun).ids hv hwt hid]

/-- Two edits of one twin: the first is written, then the second claimed. -/
def twoEdits : List QueueAction :=
  [.insert (stateEdit 10), .insert (stateEdit 11),
   .load 0 1 10 0 true, .checkBlocked 0, .claim 0 "w:0" 0 0,
   .push 0 "servicenow" "ok" ⟨0, 1⟩,
   .load 1 1 11 2 true, .checkBlocked 1, .claim 1 "w:1" 2 2]

theorem outbound_writes_fifo_two_edits :
    ∃ s, (queue .ascii).run (emptyQueue []) twoEdits = some s ∧
      s.db.orders.map (·.status) = [.executed, .processing] ∧
      ∀ w ∈ s.db.orders, ∀ v ∈ s.db.orders, w.status = .processing →
        v.status = .processing → w.orgId = v.orgId → w.targetTwinId = v.targetTwinId →
        w = v :=
  ⟨_, rfl, rfl, (outbound_writes_fifo .ascii [] _ ⟨twoEdits, rfl⟩).2.1⟩

end Cadena.Connectors
