import Cadena.Connectors.TwinProjection

/-!
# Interleaved projections

Any number of `projectTwin` calls, each a read or a transaction at a time,
beside ingestion and local work items. `CallChange` says what one step of a
call can do; from it, the tables and what the calls refer to stay well
formed.
-/

namespace Cadena.Connectors.Projections

open Cadena.Base Cadena.WorkItems

/-- A call that handles an event of a twin. -/
structure ProjectionCall where
  twinId : Uuid
  state : Snapshot
  stage : Projection

structure ProjectionState where
  db : ProjectionDb
  calls : Nat → Option ProjectionCall

inductive ProjectionAction where
  /-- The `n`-th event of the twin is delivered, perhaps again. -/
  | start (call : Nat) (twinId : Uuid) (n : Nat)
  | step (call : Nat) (id : Uuid)
  | crash (call : Nat)
  /-- Ingestion writes the twins. -/
  | ingest (twins : List CanonicalTwin)
  /-- A local work item. -/
  | create (item : WorkItem)

/-- The tenant, the events of its twins, and the connector of each. -/
structure ProjectionRun where
  ctx : ProjectionContext
  clock : Clock
  events : Uuid → List Snapshot
  connectorOf : Uuid → Uuid

section
variable (R : ProjectionRun)

def ProjectionState.setCall (s : ProjectionState) (c : Nat) (call : ProjectionCall) :
    ProjectionState :=
  { s with calls := setAt s.calls c (some call) }

def startStep (s : ProjectionState) (c : Nat) (twinId : Uuid) (n : Nat) : Option ProjectionState :=
  match s.calls c, (R.events twinId)[n]? with
  | none, some state => some (s.setCall c ⟨twinId, state, .started⟩)
  | _, _ => none

def callStep (s : ProjectionState) (c : Nat) (id : Uuid) : Option ProjectionState :=
  match s.calls c with
  | some call =>
    -- randomUUID(): no item has the id
    if s.db.items.any (·.id == id) then none
    else
      let next := advance R.ctx R.clock call.twinId call.state id s.db call.stage
      some { s.setCall c { call with stage := next.2 } with db := next.1 }
  | none => none

def crashStep (s : ProjectionState) (c : Nat) : Option ProjectionState :=
  (s.calls c).map fun call => s.setCall c { call with stage := .failed }

def ingestStep (s : ProjectionState) (twins : List CanonicalTwin) : Option ProjectionState :=
  if twins.all fun t => t.connectorId == R.connectorOf t.id then
    some { s with db := { s.db with twins := twins } }
  else none

def createStep (s : ProjectionState) (item : WorkItem) : Option ProjectionState :=
  (insertLocal s.db.items item).map fun items => { s with db := { s.db with items := items } }

def projectionStep (s : ProjectionState) : ProjectionAction → Option ProjectionState
  | .start c twinId n => startStep R s c twinId n
  | .step c id => callStep R s c id
  | .crash c => crashStep s c
  | .ingest twins => ingestStep R s twins
  | .create item => createStep s item

def projections : System ProjectionState ProjectionAction where
  step := projectionStep R

/-- Nothing ingested, nothing projected. -/
def ProjectionState.start (policies : List SlaPolicy) : ProjectionState where
  db := ⟨[], [], policies⟩
  calls _ := none

end

section
variable {R : ProjectionRun} {s t : ProjectionState}

/-! ## What a call can do -/

/-- A read, or a transaction that is given up. -/
inductive QuietMove (R : ProjectionRun) (db : ProjectionDb) (call : ProjectionCall) :
    Projection → Prop where
  | unplanned : call.stage = .started →
      (∀ twin, db.twins.find? (·.id == call.twinId) = some twin →
        planOf R.ctx twin call.state = none) → QuietMove R db call .returned
  | planned {twin : CanonicalTwin} {d : Desired} : call.stage = .started →
      db.twins.find? (·.id == call.twinId) = some twin → planOf R.ctx twin call.state = some d →
      QuietMove R db call (.planned twin d)
  | missing {twin : CanonicalTwin} {d : Desired} : call.stage = .planned twin d →
      QuietMove R db call (.creating twin d)
  | late {twin : CanonicalTwin} {d : Desired} {existing : WorkItem} :
      call.stage = .planned twin d → existing ∈ db.items → isItemOf twin.id existing = true →
      appliedLater existing call.state = true → QuietMove R db call .returned
  | found {twin : CanonicalTwin} {d : Desired} {existing : WorkItem} :
      call.stage = .planned twin d → existing ∈ db.items → isItemOf twin.id existing = true →
      QuietMove R db call (.updating twin d existing)
  | again {twin : CanonicalTwin} {d : Desired} : call.stage = .creating twin d →
      QuietMove R db call .started
  | matched {itemId : Uuid} {item : WorkItem} : call.stage = .moving itemId → item ∈ db.items →
      item.id = itemId → item.status = call.state.status → QuietMove R db call .returned
  | unmatched {itemId : Uuid} {item : WorkItem} : call.stage = .moving itemId →
      item ∈ db.items → item.id = itemId →
      QuietMove R db call (.committing itemId
        (stateChangeOf db.policies item call.state.status call.state.sourceUpdatedAt
          item.customFields))
  | ended {stage : Projection} : call.stage = stage → stage = .returned → QuietMove R db call stage
  | failed : QuietMove R db call .failed

/-- What one step of a call does. -/
inductive CallChange (R : ProjectionRun) (s : ProjectionState) (c : Nat) (call : ProjectionCall) :
    ProjectionState → Prop where
  | quiet {stage : Projection} : QuietMove R s.db call stage →
      CallChange R s c call (s.setCall c { call with stage := stage })
  | created {twin : CanonicalTwin} {d : Desired} {id : Uuid} : call.stage = .creating twin d →
      (∀ i ∈ s.db.items, isItemOf twin.id i = false) → (∀ i ∈ s.db.items, i.id ≠ id) →
      CallChange R s c call
        { s.setCall c { call with stage := .returned } with
          db := { s.db with
            items := s.db.items ++ [projectedItem R.ctx R.clock id twin call.state d] } }
  | updated {twin : CanonicalTwin} {d : Desired} {existing : WorkItem} {stage : Projection} :
      call.stage = .updating twin d existing →
      (stage = .moving existing.id ∨
        stage = .returned ∧ (call.state.status = "" ∨ call.state.status = existing.status)) →
      CallChange R s c call
        { s.setCall c { call with stage := stage } with
          db := { s.db with
            items := Table.update (·.id == existing.id) (updatedItem twin call.state d)
              s.db.items } }
  | committed {itemId : Uuid} {change : StateChange} : call.stage = .committing itemId change →
      (∃ i ∈ s.db.items, i.id = itemId ∧ i.status = change.fromState) →
      CallChange R s c call
        { s.setCall c { call with stage := .returned } with
          db := { s.db with
            items := Table.update (fun i => i.id == itemId && i.status == change.fromState)
              change.apply s.db.items } }

variable {id : Uuid} {call : ProjectionCall} {c : Nat} {twin : CanonicalTwin}

theorem CallChange.of_started (hstage : call.stage = .started) : CallChange R s c call
      { s.setCall c { call with
          stage := (advance R.ctx R.clock call.twinId call.state id s.db .started).2 } with
        db := (advance R.ctx R.clock call.twinId call.state id s.db .started).1 } := by
  simp only [advance]
  split
  · rename_i hnone
    exact .quiet (.unplanned hstage fun twin htwin => by rw [hnone] at htwin; cases htwin)
  · rename_i twin htwin
    split
    · rename_i hplan
      refine .quiet (.unplanned hstage fun other hother => ?_)
      obtain rfl := Option.some.inj (htwin.symm.trans hother)
      exact hplan
    · rename_i d hplan
      exact .quiet (.planned hstage htwin hplan)

theorem CallChange.of_planned {d : Desired} (hstage : call.stage = .planned twin d) : CallChange R s c call
      { s.setCall c { call with
          stage := (advance R.ctx R.clock call.twinId call.state id s.db (.planned twin d)).2 } with
        db := (advance R.ctx R.clock call.twinId call.state id s.db (.planned twin d)).1 } := by
  simp only [advance]
  split
  · exact .quiet (.missing hstage)
  · rename_i existing hfound
    have hmem := List.mem_of_find?_eq_some hfound
    have hitem := List.find?_some hfound
    split
    · rename_i hlater
      exact .quiet (.late hstage hmem hitem hlater)
    · exact .quiet (.found hstage hmem hitem)

theorem CallChange.of_creating
    {d : Desired} (hstage : call.stage = .creating twin d) (hid : ∀ i ∈ s.db.items, i.id ≠ id) :
    CallChange R s c call
      { s.setCall c { call with
          stage := (advance R.ctx R.clock call.twinId call.state id s.db (.creating twin d)).2 } with
        db := (advance R.ctx R.clock call.twinId call.state id s.db (.creating twin d)).1 } := by
  simp only [advance, createStage]
  split
  · exact .quiet (.again hstage)
  · rename_i hnone
    split
    · exact .quiet .failed
    · refine .created hstage (fun i hi => ?_) hid
      rw [Bool.not_eq_true, List.any_eq_false] at hnone
      exact Bool.not_eq_true _ ▸ hnone i hi

theorem CallChange.of_updating
    {d : Desired} {existing : WorkItem} (hstage : call.stage = .updating twin d existing) :
    CallChange R s c call
      { s.setCall c { call with
          stage := (advance R.ctx R.clock call.twinId call.state id s.db
            (.updating twin d existing)).2 } with
        db := (advance R.ctx R.clock call.twinId call.state id s.db
          (.updating twin d existing)).1 } := by
  simp only [advance, updateStage]
  split
  · exact .quiet .failed
  · refine .updated hstage ?_
    by_cases hmove : (call.state.status != "" && call.state.status != existing.status) = true
    · rw [if_pos hmove]
      exact .inl rfl
    · rw [if_neg hmove]
      rw [Bool.and_eq_true, not_and_or, bne_iff_ne, bne_iff_ne, not_not, not_not] at hmove
      exact .inr ⟨rfl, hmove⟩

theorem CallChange.of_moving {itemId : Uuid} (hstage : call.stage = .moving itemId) : CallChange R s c call
      { s.setCall c { call with
          stage := (advance R.ctx R.clock call.twinId call.state id s.db (.moving itemId)).2 } with
        db := (advance R.ctx R.clock call.twinId call.state id s.db (.moving itemId)).1 } := by
  simp only [advance, moveStage]
  split
  · exact .quiet .failed
  · rename_i item hfound
    have hmem := List.mem_of_find?_eq_some hfound
    have hid : item.id = itemId := by simpa using List.find?_some hfound
    split
    · rename_i hstatus
      exact .quiet (.matched hstage hmem hid hstatus)
    · exact .quiet (.unmatched hstage hmem hid)

theorem CallChange.of_committing {itemId : Uuid}
    {change : StateChange} (hstage : call.stage = .committing itemId change) :
    CallChange R s c call
      { s.setCall c { call with
          stage := (advance R.ctx R.clock call.twinId call.state id s.db
            (.committing itemId change)).2 } with
        db := (advance R.ctx R.clock call.twinId call.state id s.db
          (.committing itemId change)).1 } := by
  simp only [advance, commitStage]
  split
  · rename_i hany
    obtain ⟨i, hi, hmatch⟩ := List.any_eq_true.mp hany
    rw [Bool.and_eq_true, beq_iff_eq, beq_iff_eq] at hmatch
    exact .committed hstage ⟨i, hi, hmatch⟩
  · exact .quiet .failed

theorem CallChange.of_step (h : callStep R s c id = some t) :
    ∃ call, s.calls c = some call ∧ CallChange R s c call t := by
  unfold callStep at h
  split at h
  · rename_i call hcall
    refine ⟨call, hcall, ?_⟩
    split at h
    · cases h
    · rename_i hid
      obtain rfl := Option.some.inj h
      have hfresh : ∀ i ∈ s.db.items, i.id ≠ id := fun i hi heq =>
        hid (List.any_eq_true.mpr ⟨i, hi, by simpa using heq⟩)
      cases hstage : call.stage with
      | started => exact .of_started hstage
      | planned => exact .of_planned hstage
      | creating => exact .of_creating hstage hfresh
      | updating => exact .of_updating hstage
      | moving => exact .of_moving hstage
      | committing => exact .of_committing hstage
      | returned => exact .quiet (.ended hstage rfl)
      | failed => exact .quiet .failed
  · cases h

end

section
variable {R : ProjectionRun} {s t : ProjectionState} {x : Uuid}

/-! ## The table of items -/

/-- A statement that leaves an item the item of its twin. -/
structure KeepsItem (f : WorkItem → WorkItem) : Prop where
  id : ∀ i, (f i).id = i.id
  twin : ∀ x i, isItemOf x (f i) = isItemOf x i

theorem updatedItem_keeps (twin : CanonicalTwin) (state : Snapshot) (d : Desired) :
    KeepsItem (updatedItem twin state d) where
  id _ := rfl
  twin x i := by
    simp only [isItemOf, updatedItem]
    cases i.source <;> rfl

variable {item : WorkItem} {call : ProjectionCall}

theorem appliedAt_updated (twin : CanonicalTwin) (e : Snapshot) (d : Desired) (hitem : isItemOf x item = true) :
    appliedAt (updatedItem twin e d item) = some (greatest (appliedAt item) e.sourceUpdatedAt) := by
  rw [isItemOf, beq_iff_eq] at hitem
  cases hsource : item.source with
  | none => rw [hsource] at hitem; cases hitem
  | some source => simp only [appliedAt, updatedItem, hsource]; rfl

theorem greatest_of_le {applied : Option Millis} {time : Millis}
    (h : ∀ t, applied = some t → t ≤ time) : greatest applied time = time := by
  cases applied with
  | none => exact max_self time
  | some t => exact max_eq_right (h t rfl)

theorem apply_keeps (change : StateChange) : KeepsItem change.apply :=
  ⟨fun _ => rfl, fun _ _ => rfl⟩

structure ItemsOk (items : List WorkItem) : Prop where
  ids : (items.map (·.id)).Nodup
  unique : ∀ i ∈ items, ∀ j ∈ items, ∀ x, isItemOf x i = true → isItemOf x j = true → i = j

theorem ItemsOk.update {items : List WorkItem} (h : ItemsOk items) {p : WorkItem → Bool}
    {f : WorkItem → WorkItem} (hf : KeepsItem f) : ItemsOk (Table.update p f items) := by
  refine ⟨?_, ?_⟩
  · have hcol := Table.update_column (p := p) (fun i : WorkItem => i.id) hf.id items
    exact hcol ▸ h.ids
  · have htwin : ∀ y i, isItemOf y (if p i = true then f i else i) = isItemOf y i := by
      intro y i
      split
      · exact hf.twin y i
      · rfl
    intro i hi j hj y hyi hyj
    obtain ⟨i₀, hi₀, rfl⟩ := List.mem_map.mp hi
    obtain ⟨j₀, hj₀, rfl⟩ := List.mem_map.mp hj
    rw [htwin] at hyi hyj
    rw [h.unique i₀ hi₀ j₀ hj₀ y hyi hyj]

theorem ItemsOk.insert {items : List WorkItem} (h : ItemsOk items) (hid : ∀ i ∈ items, i.id ≠ item.id)
    (htwin : ∀ y, isItemOf y item = true → ∀ i ∈ items, isItemOf y i = false) :
    ItemsOk (items ++ [item]) := by
  refine ⟨Table.nodup_insert h.ids hid, ?_⟩
  intro i hi j hj y hyi hyj
  rw [List.mem_append, List.mem_singleton] at hi hj
  rcases hi with hi | rfl <;> rcases hj with hj | rfl
  · exact h.unique i hi j hj y hyi hyj
  · rw [htwin y hyj i hi] at hyi
    cases hyi
  · rw [htwin y hyi j hj] at hyj
    cases hyj
  · rfl

theorem isItemOf_projected {ctx : ProjectionContext} {clock : Clock} {id y : Uuid}
    {twin : CanonicalTwin} {state : Snapshot} {d : Desired} :
    isItemOf y (projectedItem ctx clock id twin state d) = true ↔ twin.id = y := by
  simp [isItemOf, projectedItem]

theorem isItemOf_inj {y z : Uuid} {i : WorkItem} (hy : isItemOf y i = true)
    (hz : isItemOf z i = true) : y = z := by
  rw [isItemOf, beq_iff_eq] at hy hz
  exact Option.some.inj (hy.symm.trans hz)

theorem insertLocal_eq {items after : List WorkItem} (h : insertLocal items item = some after) :
    after = items ++ [item] ∧ item.source = none ∧ ∀ i ∈ items, i.id ≠ item.id := by
  rw [insertLocal] at h
  split at h
  · cases h
  · rename_i hguard
    simp only [Bool.or_eq_true, not_or, Bool.not_eq_true, Option.isSome_eq_false_iff,
      Option.isNone_iff_eq_none, List.any_eq_false, beq_iff_eq] at hguard
    exact ⟨(Option.some.inj h).symm, hguard.1.1, hguard.1.2⟩

theorem isItemOf_local {y : Uuid} (h : item.source = none) : isItemOf y item = false := by
  rw [isItemOf, h]
  rfl

theorem ItemsOk.insertLocal {items after : List WorkItem} (h : ItemsOk items)
    (hinsert : Projections.insertLocal items item = some after) : ItemsOk after := by
  obtain ⟨rfl, hlocal, hid⟩ := insertLocal_eq hinsert
  refine h.insert hid fun y hy => ?_
  rw [isItemOf_local hlocal] at hy
  cases hy

/-- Every item is still there, as an item of its twin. -/
def ItemsStay (s t : ProjectionState) : Prop :=
  ∀ i ∈ s.db.items, ∃ i' ∈ t.db.items, i'.id = i.id ∧ ∀ y, isItemOf y i' = isItemOf y i

theorem ItemsStay.of_mem (h : ∀ i ∈ s.db.items, i ∈ t.db.items) : ItemsStay s t :=
  fun i hi => ⟨i, h i hi, rfl, fun _ => rfl⟩

theorem ItemsStay.of_update {p : WorkItem → Bool} {f : WorkItem → WorkItem} (hf : KeepsItem f)
    (ht : t.db.items = Table.update p f s.db.items) : ItemsStay s t := by
  intro i hi
  by_cases hp : p i = true
  · exact ⟨f i, ht ▸ Table.mem_update.mpr (.inl ⟨i, hi, hp, rfl⟩), hf.id i, fun y => hf.twin y i⟩
  · exact ⟨i, ht ▸ Table.mem_update_of_not hi (by simpa using hp), rfl, fun _ => rfl⟩

/-! ## What the calls hold on to -/

/-- The item that a call will write. -/
def Projection.itemId : Projection → Option Uuid
  | .updating _ _ existing => some existing.id
  | .moving id | .committing id _ => some id
  | _ => none

/-- The row of the twin and the fields that a call works with. -/
def Projection.plan : Projection → Option (CanonicalTwin × Desired)
  | .planned twin d | .creating twin d | .updating twin d _ => some (twin, d)
  | _ => none

structure CallRefers (s : ProjectionState) (call : ProjectionCall) : Prop where
  item : ∀ id, call.stage.itemId = some id →
    ∃ i ∈ s.db.items, i.id = id ∧ isItemOf call.twinId i = true
  twin : ∀ twin d, call.stage.plan = some (twin, d) → twin.id = call.twinId

theorem CallRefers.of_none (hitem : call.stage.itemId = none)
    (hplan : call.stage.plan = none) : CallRefers s call := by
  refine ⟨fun id hid => ?_, fun twin d heq => ?_⟩
  · rw [hitem] at hid
    cases hid
  · rw [hplan] at heq
    cases heq

theorem CallRefers.stay (h : CallRefers s call) (hst : ItemsStay s t) : CallRefers t call := by
  refine ⟨fun id hid => ?_, h.twin⟩
  obtain ⟨i, hi, rfl, htwin⟩ := h.item id hid
  obtain ⟨i', hi', hid', hsame⟩ := hst i hi
  exact ⟨i', hi', hid', (hsame _).trans htwin⟩

structure TenantInv (R : ProjectionRun) (s : ProjectionState) : Prop where
  items : ItemsOk s.db.items
  connectors : ∀ twin ∈ s.db.twins, twin.connectorId = R.connectorOf twin.id
  calls : ∀ c call, s.calls c = some call → CallRefers s call

theorem CallRefers.quiet {stage : Projection} (h : CallRefers s call)
    (hmove : QuietMove R s.db call stage) : CallRefers s { call with stage := stage } := by
  cases hmove with
  | unplanned | late | matched | failed => exact .of_none rfl rfl
  | again => exact .of_none rfl rfl
  | ended _ hstage =>
    subst hstage
    exact .of_none rfl rfl
  | @planned twin d _ hfind _ =>
    refine ⟨fun _ hid => (by cases hid), fun twin' d' heq => ?_⟩
    obtain ⟨rfl, rfl⟩ := Prod.mk.inj (Option.some.inj heq)
    simpa using List.find?_some hfind
  | missing hstage =>
    refine ⟨fun _ hid => (by cases hid), fun twin' d' heq => h.twin twin' d' ?_⟩
    rw [hstage]
    exact heq
  | @found twin d existing hstage hmem hitem =>
    have htwin : twin.id = call.twinId := h.twin twin d (by rw [hstage]; rfl)
    refine ⟨fun id hid => ?_, fun twin' d' heq => h.twin twin' d' ?_⟩
    · obtain rfl := Option.some.inj hid
      exact ⟨existing, hmem, rfl, htwin ▸ hitem⟩
    · rw [hstage]
      exact heq
  | unmatched hstage =>
    refine ⟨fun id hid => h.item id ?_, fun _ _ heq => (by cases heq)⟩
    rw [hstage]
    exact hid

theorem ItemsStay.callChange {c : Nat} (h : CallChange R s c call t) : ItemsStay s t := by
  cases h with
  | quiet => exact .of_mem fun i hi => hi
  | created => exact .of_mem fun i hi => List.mem_append_left _ hi
  | updated => exact .of_update (updatedItem_keeps _ _ _) rfl
  | committed => exact .of_update (apply_keeps _) rfl

theorem TenantInv.callRefers (h : TenantInv R s) {c : Nat}
    (hcall : s.calls c = some call) (hchange : CallChange R s c call t) :
    ∀ j call', t.calls j = some call' → CallRefers t call' := by
  have hst := ItemsStay.callChange hchange
  have hself := h.calls c call hcall
  intro j call' hcall'
  by_cases hj : j = c
  · subst hj
    cases hchange with
    | quiet hmove =>
      simp only [ProjectionState.setCall, setAt_same] at hcall'
      obtain rfl := Option.some.inj hcall'
      exact (hself.quiet hmove).stay hst
    | created =>
      simp only [ProjectionState.setCall, setAt_same] at hcall'
      obtain rfl := Option.some.inj hcall'
      exact .of_none rfl rfl
    | @updated twin d existing stage hstage hnext =>
      simp only [ProjectionState.setCall, setAt_same] at hcall'
      obtain rfl := Option.some.inj hcall'
      rcases hnext with rfl | ⟨rfl, -⟩
      · have hitem : CallRefers s { call with stage := .moving existing.id } := by
          refine ⟨fun id hid => hself.item id ?_, fun _ _ heq => (by cases heq)⟩
          rw [hstage]
          exact hid
        exact hitem.stay hst
      · exact .of_none rfl rfl
    | committed =>
      simp only [ProjectionState.setCall, setAt_same] at hcall'
      obtain rfl := Option.some.inj hcall'
      exact .of_none rfl rfl
  · have hother : s.calls j = some call' := by
      cases hchange <;> simpa only [ProjectionState.setCall, setAt_other _ _ hj] using hcall'
    exact (h.calls j call' hother).stay hst

theorem TenantInv.callChange (h : TenantInv R s) {c : Nat}
    (hcall : s.calls c = some call) (hchange : CallChange R s c call t) : TenantInv R t := by
  have hcalls := h.callRefers hcall hchange
  cases hchange with
  | quiet => exact ⟨h.items, h.connectors, hcalls⟩
  | @created twin d id hstage hnone hid =>
    refine ⟨h.items.insert hid fun y hy => ?_, h.connectors, hcalls⟩
    rw [isItemOf_projected] at hy
    exact hy ▸ hnone
  | updated => exact ⟨h.items.update (updatedItem_keeps _ _ _), h.connectors, hcalls⟩
  | committed => exact ⟨h.items.update (apply_keeps _), h.connectors, hcalls⟩

theorem TenantInv.step {a : ProjectionAction} (h : TenantInv R s)
    (hstep : projectionStep R s a = some t) : TenantInv R t := by
  cases a with
  | start c twinId n =>
    simp only [projectionStep, startStep] at hstep
    split at hstep
    · obtain rfl := Option.some.inj hstep
      refine ⟨h.items, h.connectors, fun j call hj => ?_⟩
      by_cases hjc : j = c
      · subst hjc
        simp only [ProjectionState.setCall, setAt_same] at hj
        obtain rfl := Option.some.inj hj
        exact .of_none rfl rfl
      · simp only [ProjectionState.setCall, setAt_other _ _ hjc] at hj
        exact ⟨(h.calls j call hj).item, (h.calls j call hj).twin⟩
    · cases hstep
  | step c id =>
    obtain ⟨call, hcall, hchange⟩ := CallChange.of_step hstep
    exact h.callChange hcall hchange
  | crash c =>
    obtain ⟨call, hcall, rfl⟩ := Option.map_eq_some_iff.mp hstep
    exact h.callChange hcall (.quiet .failed)
  | ingest twins =>
    simp only [projectionStep, ingestStep] at hstep
    split at hstep
    · rename_i hall
      obtain rfl := Option.some.inj hstep
      refine ⟨h.items, fun twin htwin => ?_, fun j call hj => ?_⟩
      · simpa using List.all_eq_true.mp hall twin htwin
      · exact ⟨(h.calls j call hj).item, (h.calls j call hj).twin⟩
    · cases hstep
  | create item =>
    obtain ⟨items, hinsert, rfl⟩ := Option.map_eq_some_iff.mp hstep
    refine ⟨h.items.insertLocal hinsert, h.connectors, fun j call hj => ?_⟩
    refine (h.calls j call hj).stay (.of_mem fun i hi => ?_)
    rw [(insertLocal_eq hinsert).1]
    exact List.mem_append_left _ hi

end

end Cadena.Connectors.Projections
