import Cadena.Connectors.ProjectionSteps

/-!
# Concurrent projections of a twin

The staleness test of a call is made on the item it has read, while its
field update is unconditional and its state change depends on the status
only. Where no write comes after that of a newer event (`InOrder`), the work
item ends as the newest event has it.
-/

namespace Cadena.Connectors.Projections

open Cadena.Base Cadena.WorkItems

section
variable (R : ProjectionRun)

/-! ## Convergence -/

/-- The item has the fields that the event gives. An event without a title
gives none. -/
structure ShowsFields (connectorId : Uuid) (e : Snapshot) (item : WorkItem) : Prop where
  title : e.title ≠ "" → item.title = sliceString e.title 500
  description : item.description = plainText (lookup e.fields "description")
  priority : item.priority = resolvePriority R.ctx.platform e.fields
  owner : item.ownerId = resolveOwner R.ctx e.fields (R.ctx.config connectorId)
  updatedAt : item.source.bind (·.updatedAt) = some e.sourceUpdatedAt

/-- Every event of the twin has been projected, and no call is left that has
not returned normally. -/
structure AllReturned (s : ProjectionState) (twinId : Uuid) : Prop where
  handled : ∀ e ∈ R.events twinId, ∃ c, s.calls c = some ⟨twinId, e, .returned⟩
  normally : ∀ c call, s.calls c = some call → call.twinId = twinId → call.stage = .returned

def Newest (twinId : Uuid) (e : Snapshot) : Prop :=
  e ∈ R.events twinId ∧ ∀ e' ∈ R.events twinId, e'.sourceUpdatedAt ≤ e.sourceUpdatedAt

/-- The twin's one work item is as the newest event has it. -/
def Converged (s : ProjectionState) (twinId : Uuid) : Prop :=
  AllReturned R s twinId → ∀ e, Newest R twinId e →
    ∃ item ∈ s.db.items, isItemOf twinId item = true ∧
      (∀ other ∈ s.db.items, isItemOf twinId other = true → other = item) ∧
      ShowsFields R (R.connectorOf twinId) e item ∧ item.status = e.status

/-- No newer event has been written to the item. -/
def NotOvertaken (s : ProjectionState) (itemId : Uuid) (e : Snapshot) : Prop :=
  ∀ item ∈ s.db.items, item.id = itemId → ∀ t, appliedAt item = some t → t ≤ e.sourceUpdatedAt

/-- What is asked of a call of the twin before its next step: the twin is
projected, the field update and the state change come before those of newer
events, and a call that leaves the status alone finds it as it should be. -/
def StageInOrder (twinId : Uuid) (s : ProjectionState) (e : Snapshot) : Projection → Prop
  | .started => ∃ twin, s.db.twins.find? (·.id == twinId) = some twin ∧ (planOf R.ctx twin e).isSome
  | .updating _ _ existing => NotOvertaken s existing.id e ∧
      (e.status = existing.status →
        ∀ item ∈ s.db.items, item.id = existing.id → item.status = e.status)
  | .committing itemId _ => NotOvertaken s itemId e
  | _ => True

/-- The writes of a twin's calls come in the order of its events. -/
def InOrder (twinId : Uuid) (s : ProjectionState) : ProjectionAction → Prop
  | .step c _ => ∀ call, s.calls c = some call → call.twinId = twinId →
      StageInOrder R twinId s call.state call.stage
  | _ => True

instance (s : ProjectionState) (itemId : Uuid) (e : Snapshot) :
    Decidable (NotOvertaken s itemId e) :=
  inferInstanceAs (Decidable (∀ item ∈ s.db.items, item.id = itemId →
    ∀ t ∈ appliedAt item, t ≤ e.sourceUpdatedAt))

instance (twinId : Uuid) (s : ProjectionState) (e : Snapshot) :
    ∀ stage, Decidable (StageInOrder R twinId s e stage)
  | .started => inferInstanceAs (Decidable
      (∃ twin ∈ s.db.twins.find? (·.id == twinId), (planOf R.ctx twin e).isSome = true))
  | .updating _ _ existing => inferInstanceAs (Decidable (NotOvertaken s existing.id e ∧
      (e.status = existing.status →
        ∀ item ∈ s.db.items, item.id = existing.id → item.status = e.status)))
  | .committing itemId _ => inferInstanceAs (Decidable (NotOvertaken s itemId e))
  | .planned .. | .creating .. | .moving .. | .returned | .failed => isTrue trivial

instance (twinId : Uuid) (s : ProjectionState) : ∀ a, Decidable (InOrder R twinId s a)
  | .step c _ => inferInstanceAs (Decidable (∀ call ∈ s.calls c, call.twinId = twinId →
      StageInOrder R twinId s call.state call.stage))
  | .start .. | .crash .. | .ingest .. | .create .. => isTrue trivial

end

section
variable {R : ProjectionRun} {s t : ProjectionState} {x : Uuid}

variable {twin : CanonicalTwin} {call : ProjectionCall}

theorem desired_shows {connectorId : Uuid} {e : Snapshot} {d : Desired}
    (hplan : planOf R.ctx twin e = some d) (hconn : twin.connectorId = connectorId) :
    (e.title ≠ "" → d.title = sliceString e.title 500) ∧
      d.description = plainText (lookup e.fields "description") ∧
      d.priority = resolvePriority R.ctx.platform e.fields ∧
      d.ownerId = resolveOwner R.ctx e.fields (R.ctx.config connectorId) := by
  subst hconn
  simp only [planOf] at hplan
  split at hplan
  · obtain ⟨type, -, hteam⟩ := Option.bind_eq_some_iff.mp hplan
    obtain ⟨team, -, rfl⟩ := Option.map_eq_some_iff.mp hteam
    refine ⟨fun htitle => ?_, rfl, rfl, rfl⟩
    simp [desiredOf, orText, truthy, htitle]
  · cases hplan

theorem updatedItem_shows {connectorId : Uuid} {e : Snapshot} {d : Desired}
    {item : WorkItem} (hplan : planOf R.ctx twin e = some d) (hconn : twin.connectorId = connectorId)
    (hitem : isItemOf x item = true)
    (hnew : ∀ t, appliedAt item = some t → t ≤ e.sourceUpdatedAt) :
    ShowsFields R connectorId e (updatedItem twin e d item) := by
  obtain ⟨htitle, hdescription, hpriority, howner⟩ := desired_shows hplan hconn
  exact ⟨htitle, hdescription, hpriority, howner,
    (appliedAt_updated _ _ _ hitem).trans (congrArg some (greatest_of_le hnew))⟩

/-! ## The item of one twin -/

/-- The event, or a newer one, is in the fields of the item. -/
def Reached (e : Snapshot) (item : WorkItem) : Prop :=
  ∃ t, appliedAt item = some t ∧ e.sourceUpdatedAt ≤ t

/-- And if it is this event, its status is there too. -/
def SettledOn (e : Snapshot) (item : WorkItem) : Prop :=
  ∃ t, appliedAt item = some t ∧ e.sourceUpdatedAt ≤ t ∧
    (t = e.sourceUpdatedAt → item.status = e.status)

/-- The item of the twin has not lost what calls have brought it. -/
def TwinKept (R : ProjectionRun) (x : Uuid) (s t : ProjectionState) : Prop :=
  ∀ i ∈ s.db.items, isItemOf x i = true →
    ∃ i' ∈ t.db.items, i'.id = i.id ∧ isItemOf x i' = true ∧
      (∀ e, Reached e i → Reached e i') ∧ ∀ e ∈ R.events x, SettledOn e i → SettledOn e i'

structure CallOk (R : ProjectionRun) (x : Uuid) (s : ProjectionState) (call : ProjectionCall) :
    Prop where
  event : call.state ∈ R.events x
  plan : ∀ twin d, call.stage.plan = some (twin, d) →
    planOf R.ctx twin call.state = some d ∧ twin.connectorId = R.connectorOf x
  moving : ∀ id, (call.stage = .moving id ∨ ∃ change, call.stage = .committing id change) →
    ∃ i ∈ s.db.items, i.id = id ∧ isItemOf x i = true ∧ Reached call.state i
  target : ∀ id change, call.stage = .committing id change → change.toState = call.state.status
  returned : call.stage = .returned →
    ∃ i ∈ s.db.items, isItemOf x i = true ∧ SettledOn call.state i

structure TwinInv (R : ProjectionRun) (x : Uuid) (s : ProjectionState) : Prop where
  shown : ∀ i ∈ s.db.items, isItemOf x i = true →
    ∃ e ∈ R.events x, ShowsFields R (R.connectorOf x) e i
  calls : ∀ c call, s.calls c = some call → call.twinId = x → CallOk R x s call

theorem CallOk.keep (h : CallOk R x s call) (hst : TwinKept R x s t) : CallOk R x t call := by
  refine ⟨h.event, h.plan, fun id hid => ?_, h.target, fun hret => ?_⟩
  · obtain ⟨i, hi, rfl, htwin, hreached⟩ := h.moving id hid
    obtain ⟨i', hi', hid', htwin', hkeeps, -⟩ := hst i hi htwin
    exact ⟨i', hi', hid', htwin', hkeeps _ hreached⟩
  · obtain ⟨i, hi, htwin, hsettled⟩ := h.returned hret
    obtain ⟨i', hi', -, htwin', -, hkeeps⟩ := hst i hi htwin
    exact ⟨i', hi', htwin', hkeeps _ h.event hsettled⟩

theorem CallOk.idle (hevent : call.state ∈ R.events x)
    (hstage : call.stage = .started ∨ call.stage = .failed) : CallOk R x s call := by
  refine ⟨hevent, ?_, ?_, ?_, ?_⟩ <;> rcases hstage with hstage | hstage <;> rw [hstage]
  all_goals first
    | exact fun _ _ heq => by cases heq
    | exact fun _ heq => by rcases heq with heq | ⟨_, heq⟩ <;> cases heq
    | exact fun heq => by cases heq

theorem CallOk.planned {d : Desired} {stage : Projection} (hevent : call.state ∈ R.events x)
    (hplan : planOf R.ctx twin call.state = some d) (hconn : twin.connectorId = R.connectorOf x)
    (hstage : stage.plan = some (twin, d)) : CallOk R x s { call with stage := stage } := by
  have hnot : ∀ other, other.plan = none → stage ≠ other := by
    rintro other hother rfl
    rw [hother] at hstage
    cases hstage
  refine ⟨hevent, fun twin' d' heq => ?_, fun id heq => ?_, fun id change heq => ?_, fun heq => ?_⟩
  · obtain ⟨rfl, rfl⟩ := Prod.mk.inj (Option.some.inj (hstage.symm.trans heq))
    exact ⟨hplan, hconn⟩
  · rcases heq with heq | ⟨change, heq⟩
    · exact absurd heq (hnot _ rfl)
    · exact absurd heq (hnot _ rfl)
  · exact absurd heq (hnot _ rfl)
  · exact absurd heq (hnot _ rfl)

theorem CallOk.settled (hevent : call.state ∈ R.events x) {i : WorkItem}
    (hi : i ∈ s.db.items) (htwin : isItemOf x i = true) (hsettled : SettledOn call.state i) :
    CallOk R x s { call with stage := .returned } :=
  ⟨hevent, fun _ _ heq => (by cases heq),
    fun _ heq => (by rcases heq with heq | ⟨_, heq⟩ <;> cases heq),
    fun _ _ heq => (by cases heq), fun _ => ⟨i, hi, htwin, hsettled⟩⟩

theorem CallOk.underWay (hevent : call.state ∈ R.events x) {i : WorkItem}
    (hi : i ∈ s.db.items) (htwin : isItemOf x i = true) (hreached : Reached call.state i)
    {stage : Projection} (hplan : stage.plan = none) (hret : stage ≠ .returned)
    (hid : ∀ id, (stage = .moving id ∨ ∃ change, stage = .committing id change) → id = i.id)
    (htarget : ∀ id change, stage = .committing id change → change.toState = call.state.status) :
    CallOk R x s { call with stage := stage } :=
  ⟨hevent, fun _ _ heq => (by rw [hplan] at heq; cases heq),
    fun id heq => ⟨i, hi, (hid id heq).symm, htwin, hreached⟩, htarget, fun heq => absurd heq hret⟩

theorem CallOk.quiet {stage : Projection} {id : Uuid} {c : Nat}
    (h : CallOk R x s call) (htenant : TenantInv R s) (hcall : s.calls c = some call)
    (htwin : call.twinId = x) (hcond : InOrder R x s (.step c id))
    (hmove : QuietMove R s.db call stage) : CallOk R x s { call with stage := stage } := by
  have hrefers := htenant.calls c call hcall
  cases hmove with
  | unplanned hstage hnone =>
    have hplanned := hcond call hcall htwin
    rw [hstage] at hplanned
    obtain ⟨twin, hfind, hsome⟩ := hplanned
    rw [hnone twin (htwin ▸ hfind)] at hsome
    cases hsome
  | @planned twin d _ hfind hplan =>
    have hid : twin.id = call.twinId := by simpa using List.find?_some hfind
    refine .planned h.event hplan ?_ rfl
    rw [htenant.connectors twin (List.mem_of_find?_eq_some hfind), hid, htwin]
  | @missing twin d hstage =>
    obtain ⟨hplan, hconn⟩ := h.plan twin d (by rw [hstage]; rfl)
    exact .planned h.event hplan hconn rfl
  | @found twin d existing hstage =>
    obtain ⟨hplan, hconn⟩ := h.plan twin d (by rw [hstage]; rfl)
    exact .planned h.event hplan hconn rfl
  | @late twin d existing hstage hmem hitem hlater =>
    have hid : twin.id = x := (hrefers.twin twin d (by rw [hstage]; rfl)).trans htwin
    rw [appliedLater] at hlater
    split at hlater
    · rename_i time htime
      rw [decide_eq_true_eq] at hlater
      exact .settled h.event hmem (hid ▸ hitem)
        ⟨time, htime, le_of_lt hlater, fun heq => absurd heq (ne_of_gt hlater)⟩
    · cases hlater
  | again => exact .idle h.event (.inl rfl)
  | @matched itemId item hstage hmem hid hstatus =>
    obtain ⟨i, hi, hiid, hitwin, time, htime, hle⟩ := h.moving itemId (.inl hstage)
    obtain rfl : i = item := Table.eq_of_key htenant.items.ids hi hmem (hiid.trans hid.symm)
    exact .settled h.event hi hitwin ⟨time, htime, hle, fun _ => hstatus⟩
  | @unmatched itemId item hstage hmem hid =>
    obtain ⟨i, hi, rfl, hitwin, hreached⟩ := h.moving itemId (.inl hstage)
    refine .underWay h.event hi hitwin hreached rfl (by nofun) ?_ ?_
    · rintro id' (heq | ⟨change, heq⟩)
      · cases heq
      · exact (Projection.committing.inj heq).1.symm
    · rintro id' change heq
      obtain ⟨-, rfl⟩ := Projection.committing.inj heq
      rfl
  | ended hstage hret =>
    subst hret
    obtain ⟨i, hi, hitwin, hsettled⟩ := h.returned hstage
    exact .settled h.event hi hitwin hsettled
  | failed => exact .idle h.event (.inr rfl)

end

section
variable {R : ProjectionRun} {s t : ProjectionState} {x : Uuid}

/-! ## Writes -/

theorem TwinKept.of_mem (h : ∀ i ∈ s.db.items, isItemOf x i = true → i ∈ t.db.items) :
    TwinKept R x s t :=
  fun i hi htwin => ⟨i, h i hi htwin, rfl, htwin, fun _ hr => hr, fun _ _ hs => hs⟩

theorem TwinKept.of_update {p : WorkItem → Bool} {f : WorkItem → WorkItem} (hf : KeepsItem f)
    (ht : t.db.items = Table.update p f s.db.items)
    (hwrite : ∀ i ∈ s.db.items, isItemOf x i = true → p i = true →
      (∀ e, Reached e i → Reached e (f i)) ∧
        ∀ e ∈ R.events x, SettledOn e i → SettledOn e (f i)) : TwinKept R x s t := by
  intro i hi htwin
  by_cases hp : p i = true
  · obtain ⟨hreached, hsettled⟩ := hwrite i hi htwin hp
    exact ⟨f i, ht ▸ Table.mem_update.mpr (.inl ⟨i, hi, hp, rfl⟩), hf.id i,
      (hf.twin x i).trans htwin, hreached, hsettled⟩
  · exact ⟨i, ht ▸ Table.mem_update_of_not hi (by simpa using hp), rfl, htwin,
      fun _ hr => hr, fun _ _ hs => hs⟩

theorem shown_update {p : WorkItem → Bool} {f : WorkItem → WorkItem} (hf : KeepsItem f)
    (h : ∀ i ∈ s.db.items, isItemOf x i = true →
      ∃ e ∈ R.events x, ShowsFields R (R.connectorOf x) e i)
    (ht : t.db.items = Table.update p f s.db.items)
    (hwrite : ∀ i ∈ s.db.items, isItemOf x i = true → p i = true →
      ∃ e ∈ R.events x, ShowsFields R (R.connectorOf x) e (f i)) :
    ∀ i ∈ t.db.items, isItemOf x i = true →
      ∃ e ∈ R.events x, ShowsFields R (R.connectorOf x) e i := by
  intro i hi htwin
  rw [ht] at hi
  rcases Table.mem_update.mp hi with ⟨j, hj, hp, rfl⟩ | ⟨hi, -⟩
  · exact hwrite j hj ((hf.twin x j).symm.trans htwin) hp
  · exact h i hi htwin

variable {twin : CanonicalTwin} {call : ProjectionCall}

theorem updated_keeps {e : Snapshot} {d : Desired} {i : WorkItem}
    (htwin : isItemOf x i = true) (hnew : ∀ time, appliedAt i = some time → time ≤ e.sourceUpdatedAt) :
    (∀ e', Reached e' i → Reached e' (updatedItem twin e d i)) ∧
      ∀ e', SettledOn e' i → SettledOn e' (updatedItem twin e d i) := by
  have happlied := (appliedAt_updated twin e d htwin).trans
    (congrArg some (greatest_of_le hnew))
  refine ⟨?_, ?_⟩
  · rintro e' ⟨time, htime, hle⟩
    exact ⟨_, happlied, hle.trans (hnew time htime)⟩
  · rintro e' ⟨time, htime, hle, hstatus⟩
    refine ⟨_, happlied, hle.trans (hnew time htime), fun heq => hstatus ?_⟩
    -- the times of the two events and of the item are the same
    exact le_antisymm (heq ▸ hnew time htime) hle

theorem event_unique {e e' : Snapshot}
    (hdistinct : (R.events x).Pairwise fun a b => a.sourceUpdatedAt ≠ b.sourceUpdatedAt)
    (he : e ∈ R.events x) (he' : e' ∈ R.events x) (h : e.sourceUpdatedAt = e'.sourceUpdatedAt) :
    e = e' := by
  have htimes : ((R.events x).map (·.sourceUpdatedAt)).Nodup := List.pairwise_map.mpr hdistinct
  exact Table.eq_of_key htimes he he' h

theorem applied_keeps {e : Snapshot} {change : StateChange} {i : WorkItem}
    (hdistinct : (R.events x).Pairwise fun a b => a.sourceUpdatedAt ≠ b.sourceUpdatedAt)
    (he : e ∈ R.events x) (htarget : change.toState = e.status) (hreached : Reached e i)
    (hnew : ∀ time, appliedAt i = some time → time ≤ e.sourceUpdatedAt) :
    (∀ e', Reached e' i → Reached e' (change.apply i)) ∧
      ∀ e' ∈ R.events x, SettledOn e' i → SettledOn e' (change.apply i) := by
  refine ⟨fun e' h => h, ?_⟩
  rintro e' he' ⟨time, htime, hle, -⟩
  refine ⟨time, htime, hle, fun heq => ?_⟩
  obtain ⟨time', htime', hle'⟩ := hreached
  obtain rfl : time = time' := Option.some.inj (htime.symm.trans htime')
  -- only one event has the time of the item
  have hsame : e.sourceUpdatedAt = e'.sourceUpdatedAt := (le_antisymm hle' (hnew time htime)).trans heq
  obtain rfl := event_unique hdistinct he he' hsame
  exact htarget

theorem TwinInv.of_acting (h : TwinInv R x s) (hst : TwinKept R x s t) {c : Nat} {stage : Projection}
    (hcalls : t.calls = setAt s.calls c (some { call with stage := stage }))
    (hshown : ∀ i ∈ t.db.items, isItemOf x i = true →
      ∃ e ∈ R.events x, ShowsFields R (R.connectorOf x) e i)
    (hacting : call.twinId = x → CallOk R x t { call with stage := stage }) : TwinInv R x t := by
  refine ⟨hshown, fun j call' hj htwin => ?_⟩
  rw [hcalls] at hj
  by_cases hjc : j = c
  · subst hjc
    rw [setAt_same] at hj
    obtain rfl := Option.some.inj hj
    exact hacting htwin
  · rw [setAt_other _ _ hjc] at hj
    exact (h.calls j call' hj htwin).keep hst

theorem TwinInv.created (h : TwinInv R x s) (htenant : TenantInv R s) {c : Nat} {d : Desired} {id : Uuid}
    (hcall : s.calls c = some call) (hstage : call.stage = .creating twin d) :
    TwinInv R x { s.setCall c { call with stage := .returned } with
      db := { s.db with
        items := s.db.items ++ [projectedItem R.ctx R.clock id twin call.state d] } } := by
  have htwin : twin.id = call.twinId := (htenant.calls c call hcall).twin twin d (by rw [hstage]; rfl)
  refine h.of_acting (.of_mem fun i hi _ => List.mem_append_left _ hi) rfl ?_ ?_
  · intro i hi hitem
    rcases List.mem_append.mp hi with hi | hi
    · exact h.shown i hi hitem
    · rw [List.mem_singleton] at hi
      subst hi
      have hx : call.twinId = x := htwin.symm.trans (isItemOf_projected.mp hitem)
      have hok := h.calls c call hcall hx
      obtain ⟨hplan, hconn⟩ := hok.plan twin d (by rw [hstage]; rfl)
      obtain ⟨htitle, hdescription, hpriority, howner⟩ := desired_shows hplan hconn
      exact ⟨call.state, hok.event, htitle, hdescription, hpriority, howner, rfl⟩
  · intro hx
    exact .settled (h.calls c call hcall hx).event
      (List.mem_append_right _ (List.mem_singleton_self _))
      (isItemOf_projected.mpr (htwin.trans hx)) ⟨_, rfl, le_refl _, fun _ => rfl⟩

theorem TwinInv.updated (h : TwinInv R x s) (htenant : TenantInv R s) {c : Nat} {fresh : Uuid}
    (hcond : InOrder R x s (.step c fresh)) (hstatuses : ∀ e ∈ R.events x, e.status ≠ "")
    {d : Desired} {existing : WorkItem}
    {stage : Projection} (hcall : s.calls c = some call)
    (hstage : call.stage = .updating twin d existing)
    (hnext : stage = .moving existing.id ∨
      stage = .returned ∧ (call.state.status = "" ∨ call.state.status = existing.status)) :
    TwinInv R x { s.setCall c { call with stage := stage } with
      db := { s.db with
        items := Table.update (·.id == existing.id) (updatedItem twin call.state d) s.db.items } } := by
  obtain ⟨own, hown, hownid, howntwin⟩ :=
    (htenant.calls c call hcall).item existing.id (by rw [hstage]; rfl)
  -- the item written is the one that the call refers to
  have hwritten : ∀ i ∈ s.db.items, (i.id == existing.id) = true → i = own := fun i hi hp =>
    Table.eq_of_key htenant.items.ids hi hown ((beq_iff_eq.mp hp).trans hownid.symm)
  have hours : ∀ i ∈ s.db.items, isItemOf x i = true → (i.id == existing.id) = true →
      call.twinId = x := fun i hi hitem hp => isItemOf_inj howntwin (hwritten i hi hp ▸ hitem)
  have hrule : call.twinId = x → (∀ i ∈ s.db.items, i.id = existing.id →
      ∀ time, appliedAt i = some time → time ≤ call.state.sourceUpdatedAt) ∧
        (call.state.status = existing.status →
          ∀ i ∈ s.db.items, i.id = existing.id → i.status = call.state.status) := by
    intro hx
    have hstep := hcond call hcall hx
    rw [hstage] at hstep
    exact hstep
  have hkept : ∀ i ∈ s.db.items, isItemOf x i = true → (i.id == existing.id) = true →
      (∀ e, Reached e i → Reached e (updatedItem twin call.state d i)) ∧
        ∀ e ∈ R.events x, SettledOn e i → SettledOn e (updatedItem twin call.state d i) := by
    intro i hi hitem hp
    have hnew := (hrule (hours i hi hitem hp)).1 i hi (beq_iff_eq.mp hp)
    exact ⟨(updated_keeps hitem hnew).1, fun e _ => (updated_keeps hitem hnew).2 e⟩
  refine h.of_acting (.of_update (updatedItem_keeps _ _ _) rfl hkept) rfl ?_ ?_
  · refine shown_update (updatedItem_keeps _ _ _) h.shown rfl fun i hi hitem hp => ?_
    have hx := hours i hi hitem hp
    have hok := h.calls c call hcall hx
    obtain ⟨hplan, hconn⟩ := hok.plan twin d (by rw [hstage]; rfl)
    exact ⟨call.state, hok.event,
      updatedItem_shows hplan hconn hitem ((hrule hx).1 i hi (beq_iff_eq.mp hp))⟩
  · intro hx
    have hok := h.calls c call hcall hx
    have hitem : isItemOf x own = true := hx ▸ howntwin
    have happlied := (appliedAt_updated twin call.state d hitem).trans
      (congrArg some (greatest_of_le ((hrule hx).1 own hown hownid)))
    have hmem : updatedItem twin call.state d own ∈ Table.update (·.id == existing.id)
        (updatedItem twin call.state d) s.db.items :=
      Table.mem_update.mpr (.inl ⟨own, hown, by simpa using hownid, rfl⟩)
    have htwin := ((updatedItem_keeps twin call.state d).twin x own).trans hitem
    rcases hnext with rfl | ⟨rfl, hstatus⟩
    · refine .underWay hok.event hmem htwin ⟨_, happlied, le_refl _⟩ rfl (by nofun) ?_ ?_
      · rintro id (heq | ⟨change, heq⟩)
        · exact (Projection.moving.inj heq).symm.trans hownid.symm
        · cases heq
      · intro id change heq
        cases heq
    · have hskip := hstatus.resolve_left (hstatuses _ hok.event)
      exact .settled hok.event hmem htwin
        ⟨_, happlied, le_refl _, fun _ => (hrule hx).2 hskip own hown hownid⟩

theorem TwinInv.committed (h : TwinInv R x s) (htenant : TenantInv R s) {c : Nat} {fresh : Uuid}
    (hcond : InOrder R x s (.step c fresh))
    (hdistinct : (R.events x).Pairwise fun a b => a.sourceUpdatedAt ≠ b.sourceUpdatedAt)
    {itemId : Uuid} {change : StateChange} (hcall : s.calls c = some call)
    (hstage : call.stage = .committing itemId change)
    (hfound : ∃ i ∈ s.db.items, i.id = itemId ∧ i.status = change.fromState) :
    TwinInv R x { s.setCall c { call with stage := .returned } with
      db := { s.db with
        items := Table.update (fun i => i.id == itemId && i.status == change.fromState) change.apply
          s.db.items } } := by
  obtain ⟨own, hown, hownid, hownstatus⟩ := hfound
  have howntwin : isItemOf call.twinId own = true := by
    obtain ⟨i, hi, hid, hitem⟩ := (htenant.calls c call hcall).item itemId (by rw [hstage]; rfl)
    exact Table.eq_of_key htenant.items.ids hi hown (hid.trans hownid.symm) ▸ hitem
  have hwritten : ∀ i ∈ s.db.items, (i.id == itemId && i.status == change.fromState) = true →
      i = own := fun i hi hp =>
    Table.eq_of_key htenant.items.ids hi hown
      ((beq_iff_eq.mp (Bool.and_eq_true _ _ ▸ hp).1).trans hownid.symm)
  have hkeeps : call.twinId = x → (∀ e, Reached e own → Reached e (change.apply own)) ∧
      ∀ e ∈ R.events x, SettledOn e own → SettledOn e (change.apply own) := by
    intro hx
    have hok := h.calls c call hcall hx
    have hstep := hcond call hcall hx
    rw [hstage] at hstep
    obtain ⟨i, hi, hid, -, hreached⟩ := hok.moving itemId (.inr ⟨change, hstage⟩)
    obtain rfl : i = own := Table.eq_of_key htenant.items.ids hi hown (hid.trans hownid.symm)
    exact applied_keeps hdistinct hok.event (hok.target itemId change hstage) hreached
      (hstep i hi hid)
  refine h.of_acting (.of_update (apply_keeps _) rfl fun i hi hitem hp => ?_) rfl ?_ ?_
  · obtain rfl := hwritten i hi hp
    exact hkeeps (isItemOf_inj howntwin hitem)
  · refine shown_update (apply_keeps _) h.shown rfl fun i hi hitem _ => ?_
    obtain ⟨e, he, hshows⟩ := h.shown i hi hitem
    exact ⟨e, he, hshows.title, hshows.description, hshows.priority, hshows.owner, hshows.updatedAt⟩
  · intro hx
    have hok := h.calls c call hcall hx
    obtain ⟨i, hi, hid, hitem, time, htime, hle⟩ := hok.moving itemId (.inr ⟨change, hstage⟩)
    obtain rfl : i = own := Table.eq_of_key htenant.items.ids hi hown (hid.trans hownid.symm)
    refine .settled hok.event (Table.mem_update.mpr (.inl ⟨i, hi, ?_, rfl⟩)) hitem
      ⟨time, htime, hle, fun _ => hok.target itemId change hstage⟩
    simp [hid, hownstatus]

end

section
variable {R : ProjectionRun} {s t : ProjectionState} {x : Uuid}

/-! ## Runs -/

theorem TwinInv.callChange (h : TwinInv R x s) (htenant : TenantInv R s) {c : Nat} {fresh : Uuid}
    (hcond : InOrder R x s (.step c fresh))
    (hdistinct : (R.events x).Pairwise fun a b => a.sourceUpdatedAt ≠ b.sourceUpdatedAt)
    (hstatuses : ∀ e ∈ R.events x, e.status ≠ "") {call : ProjectionCall}
    (hcall : s.calls c = some call) (hchange : CallChange R s c call t) : TwinInv R x t := by
  cases hchange with
  | quiet hmove =>
    refine h.of_acting (.of_mem fun i hi _ => hi) rfl h.shown fun hx => ?_
    exact ((h.calls c call hcall hx).quiet htenant hcall hx hcond hmove).keep
      (.of_mem fun i hi _ => hi)
  | created hstage => exact h.created htenant hcall hstage
  | updated hstage hnext => exact h.updated htenant hcond hstatuses hcall hstage hnext
  | committed hstage hfound => exact h.committed htenant hcond hdistinct hcall hstage hfound

theorem TwinInv.step {a : ProjectionAction} (h : TwinInv R x s) (htenant : TenantInv R s)
    (hdistinct : (R.events x).Pairwise fun a b => a.sourceUpdatedAt ≠ b.sourceUpdatedAt)
    (hstatuses : ∀ e ∈ R.events x, e.status ≠ "") (hcond : InOrder R x s a)
    (hstep : projectionStep R s a = some t) : TwinInv R x t := by
  cases a with
  | start c twinId n =>
    simp only [projectionStep, startStep] at hstep
    split at hstep
    · rename_i state _ hevent
      obtain rfl := Option.some.inj hstep
      have hcalls : (s.setCall c ⟨twinId, state, .started⟩).calls = setAt s.calls c
          (some { (⟨twinId, state, .started⟩ : ProjectionCall) with stage := .started }) := rfl
      refine h.of_acting (.of_mem fun i hi _ => hi) hcalls h.shown ?_
      rintro rfl
      exact .idle (List.mem_of_getElem? hevent) (.inl rfl)
    · cases hstep
  | step c fresh =>
    obtain ⟨call, hcall, hchange⟩ := CallChange.of_step hstep
    exact h.callChange htenant hcond hdistinct hstatuses hcall hchange
  | crash c =>
    obtain ⟨call, hcall, rfl⟩ := Option.map_eq_some_iff.mp hstep
    have hcalls : (s.setCall c { call with stage := .failed }).calls = setAt s.calls c
        (some { call with stage := .failed }) := rfl
    refine h.of_acting (.of_mem fun i hi _ => hi) hcalls h.shown fun hx => ?_
    exact .idle (h.calls c call hcall hx).event (.inr rfl)
  | ingest twins =>
    simp only [projectionStep, ingestStep] at hstep
    split at hstep
    · obtain rfl := Option.some.inj hstep
      exact ⟨h.shown, fun c call hcall hx =>
        (h.calls c call hcall hx).keep (.of_mem fun i hi _ => hi)⟩
    · cases hstep
  | create item =>
    obtain ⟨items, hinsert, rfl⟩ := Option.map_eq_some_iff.mp hstep
    obtain ⟨rfl, hlocal, -⟩ := insertLocal_eq hinsert
    refine ⟨fun i hi hitem => ?_, fun c call hcall hx =>
      (h.calls c call hcall hx).keep (.of_mem fun i hi _ => List.mem_append_left _ hi)⟩
    rcases List.mem_append.mp hi with hi | hi
    · exact h.shown i hi hitem
    · rw [List.mem_singleton.mp hi, isItemOf_local hlocal] at hitem
      cases hitem

theorem TenantInv.start (policies : List SlaPolicy) : TenantInv R (.start policies) :=
  ⟨⟨List.nodup_nil, fun _ hi => absurd hi List.not_mem_nil⟩,
    fun _ htwin => absurd htwin List.not_mem_nil, fun _ _ hcall => (by cases hcall)⟩

theorem TwinInv.start (policies : List SlaPolicy) : TwinInv R x (.start policies) :=
  ⟨fun _ hi => absurd hi List.not_mem_nil, fun _ _ hcall => (by cases hcall)⟩

theorem TwinInv.run {policies : List SlaPolicy} {acts : List ProjectionAction}
    (hdistinct : (R.events x).Pairwise fun a b => a.sourceUpdatedAt ≠ b.sourceUpdatedAt)
    (hstatuses : ∀ e ∈ R.events x, e.status ≠ "")
    (hcond : (projections R).Along (InOrder R x) (.start policies) acts)
    (hrun : (projections R).run (.start policies) acts = some t) :
    TenantInv R t ∧ TwinInv R x t := by
  refine (projections R).along_invariant (P := fun s => TenantInv R s ∧ TwinInv R x s) ?_
    ⟨.start policies, .start policies⟩ hcond hrun
  rintro s a t ⟨htenant, htwin⟩ hinorder hstep
  exact ⟨htenant.step hstep, htwin.step htenant hdistinct hstatuses hinorder hstep⟩

theorem TwinInv.converged (h : TwinInv R x s) (htenant : TenantInv R s)
    (hdistinct : (R.events x).Pairwise fun a b => a.sourceUpdatedAt ≠ b.sourceUpdatedAt) :
    Converged R s x := by
  intro hall e hnewest
  obtain ⟨c, hcall⟩ := hall.handled e hnewest.1
  obtain ⟨item, hitem, htwin, time, htime, hle, hstatus⟩ := (h.calls c _ hcall rfl).returned rfl
  obtain ⟨e', he', hshows⟩ := h.shown item hitem htwin
  have happlied : time = e'.sourceUpdatedAt := Option.some.inj (htime.symm.trans hshows.updatedAt)
  have hsame : time = e.sourceUpdatedAt := le_antisymm (happlied ▸ hnewest.2 e' he') hle
  obtain rfl := event_unique hdistinct he' hnewest.1 (happlied.symm.trans hsame)
  exact ⟨item, hitem, htwin, fun other hother hotwin =>
    htenant.items.unique other hother item hitem x hotwin htwin, hshows, hstatus hsame⟩

/-- Where the writes of a twin's calls come in the order of its events, its
work item ends as the newest of them has it. -/
theorem projection_converges (policies : List SlaPolicy) (acts : List ProjectionAction)
    (hdistinct : (R.events x).Pairwise fun a b => a.sourceUpdatedAt ≠ b.sourceUpdatedAt)
    (hstatuses : ∀ e ∈ R.events x, e.status ≠ "")
    (hcond : (projections R).Along (InOrder R x) (.start policies) acts)
    (hrun : (projections R).run (.start policies) acts = some t) : Converged R t x := by
  obtain ⟨htenant, htwin⟩ := TwinInv.run hdistinct hstatuses hcond hrun
  exact htwin.converged htenant hdistinct

/-- **Projections keep to their twins.** In every run, in order or not: a twin has
one work item at most, and a call writes to the item of its own twin. -/
theorem projections_keep_to_twins (policies : List SlaPolicy) (acts : List ProjectionAction)
    (hrun : (projections R).run (.start policies) acts = some t) :
    (∀ i ∈ t.db.items, ∀ j ∈ t.db.items, ∀ x, isItemOf x i = true → isItemOf x j = true → i = j) ∧
      ∀ c call, t.calls c = some call → ∀ id, call.stage.itemId = some id →
        ∃ i ∈ t.db.items, i.id = id ∧ isItemOf call.twinId i = true := by
  have hinv : TenantInv R t :=
    (projections R).run_invariant (fun h hs => TenantInv.step h hs) (.start policies) hrun
  exact ⟨hinv.items.unique, fun c call hcall => (hinv.calls c call hcall).item⟩

end

/-! ## An issue with three versions -/

def oneTeam : ProjectionContext where
  platform := .ascii
  orgId := 0
  teams := [5]
  people := []
  config _ := ⟨true, none, [], []⟩

def issueTwin : CanonicalTwin :=
  ⟨0, 0, 1, "jira", "issue", "10042", some "CAD-42", none, none, none, .synced, [], [], none, none,
    none⟩

def slowIssue : Snapshot := ⟨"Slow", "To Do", [], 0⟩
def slowCheckout : Snapshot := ⟨"Slow checkout", "In Progress", [], 1⟩
def fastCheckout : Snapshot := ⟨"Fast checkout", "Done", [], 2⟩

def issueRun : ProjectionRun where
  ctx := oneTeam
  clock := ⟨fun _ => none⟩
  events twinId := if twinId = 0 then [slowIssue, slowCheckout, fastCheckout] else []
  connectorOf _ := 1

theorem issueEvents_distinct :
    (issueRun.events 0).Pairwise fun a b => a.sourceUpdatedAt ≠ b.sourceUpdatedAt := by decide

theorem issueEvents_statuses : ∀ e ∈ issueRun.events 0, e.status ≠ "" := by
  decide

theorem fastCheckout_newest : Newest issueRun 0 fastCheckout :=
  ⟨by simp [issueRun], by decide⟩

def issueStarts : List ProjectionAction :=
  [.ingest [issueTwin], .start 0 0 0, .start 1 0 1, .start 2 0 2]

def issueSteps (c n : Nat) : List ProjectionAction :=
  List.replicate n (.step c (BitVec.ofNat 128 (c + 1)))

/-- Call 1 reads the item before call 2 does, and writes after it. -/
def overtakenRun : List ProjectionAction :=
  issueStarts ++ issueSteps 0 3 ++ issueSteps 1 2 ++ issueSteps 2 5 ++ issueSteps 1 3

/-- Call 1 comes last. -/
def lateRun : List ProjectionAction :=
  issueStarts ++ issueSteps 0 3 ++ issueSteps 2 5 ++ issueSteps 1 2

def issueCalls : Nat → Option ProjectionCall
  | 0 => some ⟨0, slowIssue, .returned⟩
  | 1 => some ⟨0, slowCheckout, .returned⟩
  | 2 => some ⟨0, fastCheckout, .returned⟩
  | _ => none

theorem issueCalls_returned {s : ProjectionState} (h : s.calls = issueCalls) :
    AllReturned issueRun s 0 := by
  refine ⟨fun e he => ?_, fun c call hcall _ => ?_⟩
  · rw [h]
    rcases List.mem_cons.mp he with rfl | he
    · exact ⟨0, rfl⟩
    rcases List.mem_cons.mp he with rfl | he
    · exact ⟨1, rfl⟩
    · obtain rfl := List.mem_singleton.mp he
      exact ⟨2, rfl⟩
  · rw [h] at hcall
    match c with
    | 0 | 1 | 2 =>
      obtain rfl := Option.some.inj hcall
      rfl
    | c + 3 => cases hcall

/-- The call for the second version writes its fields and status over those of
the third. -/
theorem projection_overtaken :
    ¬ ∀ (R : ProjectionRun) (x : Uuid) policies acts t,
      ((R.events x).Pairwise fun a b => a.sourceUpdatedAt ≠ b.sourceUpdatedAt) →
      (∀ e ∈ R.events x, e.status ≠ "") →
      (projections R).run (.start policies) acts = some t → Converged R t x := by
  intro hall
  have hcalls : ((projections issueRun).run (.start []) overtakenRun).map (fun s =>
      (s.calls, s.db.items.map (·.status))) = some (issueCalls, ["In Progress"]) := by
    refine Option.map_eq_some_iff.mpr ⟨_, rfl, Prod.ext ?_ rfl⟩
    funext c
    match c with
    | 0 | 1 | 2 => rfl
    | c + 3 => rfl
  obtain ⟨t, hrun, ht⟩ := Option.map_eq_some_iff.mp hcalls
  obtain ⟨hcalls, hstatuses⟩ := Prod.mk.inj ht
  obtain ⟨item, hitem, -, -, -, hstatus⟩ :=
    hall issueRun 0 [] overtakenRun t issueEvents_distinct issueEvents_statuses hrun
      (issueCalls_returned hcalls) _ fastCheckout_newest
  have hmem := List.mem_map_of_mem (f := (·.status)) hitem
  rw [hstatuses, hstatus] at hmem
  revert hmem
  decide

theorem projections_keep_to_twins_overtaken : ∃ t, (projections issueRun).run (.start []) overtakenRun = some t ∧
    t.db.items.length = 1 ∧
      ∀ i ∈ t.db.items, ∀ j ∈ t.db.items, ∀ x, isItemOf x i = true → isItemOf x j = true → i = j := by
  have hitems : ((projections issueRun).run (.start []) overtakenRun).map (·.db.items.length) = some 1 := rfl
  obtain ⟨t, ht, hlength⟩ := Option.map_eq_some_iff.mp hitems
  exact ⟨t, ht, hlength, (projections_keep_to_twins [] overtakenRun ht).1⟩

/-- A version that comes after a newer one is left out. -/
theorem projection_converges_late :
    ∃ t, (projections issueRun).run (.start []) lateRun = some t ∧ AllReturned issueRun t 0 ∧
      Converged issueRun t 0 := by
  have hcalls : ((projections issueRun).run (.start []) lateRun).map (·.calls) =
      some issueCalls := by
    refine Option.map_eq_some_iff.mpr ⟨_, rfl, ?_⟩
    funext c
    match c with
    | 0 | 1 | 2 => rfl
    | c + 3 => rfl
  obtain ⟨t, hrun, ht⟩ := Option.map_eq_some_iff.mp hcalls
  exact ⟨t, hrun, issueCalls_returned ht, projection_converges [] lateRun issueEvents_distinct
    issueEvents_statuses (by decide) hrun⟩

end Cadena.Connectors.Projections
