import Cadena.Connectors.ProjectionSteps

/-!
# Native keys of projected twins

Records become twins, and the events of the twins are handled one after the
other, in any order and any number of times. A twin is known by its
identity, but its work item also takes the twin's native key, which is
unique among all items of the tenant. `KeyFree` says that no other item has
the key; a call fails exactly where it does not hold.
-/

namespace Cadena.Connectors.Projections

open Cadena.Base Cadena.Integrations Cadena.WorkItems

/-- What the event of a twin tells its projection. -/
structure TwinChange where
  twinId : Uuid
  snapshot : Snapshot

/-- The tables, the committed events, and which of them have been handled
normally or with a failure. -/
structure KeyState where
  tables : IngestState
  items : List WorkItem
  policies : List SlaPolicy
  changes : List TwinChange
  handled : List Nat
  failures : List Nat

def KeyState.db (s : KeyState) : ProjectionDb := ⟨s.tables.twins, s.items, s.policies⟩

inductive KeyAction where
  | record (connector : ConnectorRecord) (ids : FreshIds) (record : ExternalRecordPayload)
  | handle (n : Nat) (id : Uuid)
  /-- A local work item. -/
  | create (item : WorkItem)

/-- `source_updated_at`, `title`, `native_status` and `fields` of the payload. -/
def snapshotOf (record : ExternalRecordPayload) : Snapshot :=
  ⟨record.title, record.status, record.fields, record.updatedAt⟩

def changesOf (record : ExternalRecordPayload) (event : Option TwinEvent) : List TwinChange :=
  (event.bind (·.workItemId)).toList.map fun id => ⟨id, snapshotOf record⟩

section
variable (ctx : ProjectionContext) (clock : Clock)

/-- A whole call: it has at most five reads and transactions. -/
def projectTwin (twinId : Uuid) (state : Snapshot) (id : Uuid) (db : ProjectionDb) :
    ProjectionDb × Projection :=
  (fun p => advance ctx clock twinId state id p.1 p.2)^[5] (db, .started)

def recordStep (s : KeyState) (connector : ConnectorRecord) (ids : FreshIds)
    (record : ExternalRecordPayload) : Option KeyState :=
  -- randomUUID(): no twin has the id
  if s.tables.twins.any (·.id == ids.twin) then none
  else
    match processRecord ctx.platform ctx.orgId connector ids record s.tables with
    | .ok (_, tables, event) =>
      some { s with tables := tables, changes := s.changes ++ changesOf record event }
    | .error _ => none

def handleStep (s : KeyState) (n : Nat) (id : Uuid) : Option KeyState :=
  match s.changes[n]? with
  | none => none
  | some change =>
    if s.items.any (·.id == id) then none
    else
      match projectTwin ctx clock change.twinId change.snapshot id s.db with
      | (db, .returned) => some { s with items := db.items, handled := n :: s.handled }
      | (db, _) => some { s with items := db.items, failures := n :: s.failures }

def keyStep (s : KeyState) : KeyAction → Option KeyState
  | .record connector ids record => recordStep ctx s connector ids record
  | .handle n id => handleStep ctx clock s n id
  | .create item => (insertLocal s.items item).map fun items => { s with items := items }

def keySystem : System KeyState KeyAction := ⟨keyStep ctx clock⟩

def KeyState.start (policies : List SlaPolicy) : KeyState :=
  ⟨⟨[], [], []⟩, [], policies, [], [], []⟩

def Projects (connectorId : Uuid) (provider entityType : String) (fields : Fields) : Prop :=
  let config := ctx.config connectorId
  config.enabled = true ∧ (resolveType ctx.platform provider entityType fields config).isSome ∧
    (resolveTeam ctx config).isSome

def Resolvable : KeyAction → Prop
  | .record connector _ record => Projects ctx connector.id connector.provider record.artifactType record.fields
  | _ => True

end

/-- No call has failed, and once every event has been handled each twin has
one item, with the twin's native key. -/
def KeysProjected (s : KeyState) : Prop :=
  s.failures = [] ∧ ((∀ n < s.changes.length, n ∈ s.handled) →
    ∀ twin ∈ s.tables.twins, ∃ item ∈ s.items, isItemOf twin.id item = true ∧
      (∀ other ∈ s.items, isItemOf twin.id other = true → other = item) ∧
      item.itemKey = sourceKey twin)

def FreeFor (twin : CanonicalTwin) (items : List WorkItem) : Prop :=
  ∀ other ∈ items, other.itemKey = sourceKey twin → isItemOf twin.id other = true

/-- The event is not older than what the item shows. -/
def InTime (twin : CanonicalTwin) (state : Snapshot) (items : List WorkItem) : Prop :=
  ∀ item ∈ items, isItemOf twin.id item = true → appliedLater item state = false

/-- When an event is handled that is not too late, the twin's key is free. -/
def KeyFree (s : KeyState) : KeyAction → Prop
  | .handle n _ => ∀ change ∈ s.changes[n]?,
      ∀ twin ∈ s.tables.twins.find? (·.id == change.twinId),
        InTime twin change.snapshot s.items → FreeFor twin s.items
  | _ => True

instance (twin : CanonicalTwin) (items : List WorkItem) : Decidable (FreeFor twin items) :=
  inferInstanceAs (Decidable (∀ other ∈ items, _ → _))

instance (twin : CanonicalTwin) (state : Snapshot) (items : List WorkItem) :
    Decidable (InTime twin state items) :=
  inferInstanceAs (Decidable (∀ item ∈ items, _ → _))

instance (s : KeyState) : ∀ a, Decidable (KeyFree s a)
  | .handle n _ => inferInstanceAs (Decidable (∀ change ∈ s.changes[n]?,
      ∀ twin ∈ s.tables.twins.find? (·.id == change.twinId),
        InTime twin change.snapshot s.items → FreeFor twin s.items))
  | .record .. | .create .. => isTrue trivial

/-! ## A whole call -/

section
variable {ctx : ProjectionContext} {clock : Clock} {db : ProjectionDb} {twin : CanonicalTwin}
  {state : Snapshot} {d : Desired} {id twinId : Uuid}

/-- What a call for a twin that is projected does. -/
inductive Projected (ctx : ProjectionContext) (clock : Clock) (twin : CanonicalTwin) (state : Snapshot)
    (d : Desired) (id : Uuid) (db : ProjectionDb) : ProjectionDb × Projection → Prop where
  | late {existing : WorkItem} : existing ∈ db.items → isItemOf twin.id existing = true →
      appliedLater existing state = true → Projected ctx clock twin state d id db (db, .returned)
  | taken : InTime twin state db.items → ¬ FreeFor twin db.items →
      Projected ctx clock twin state d id db (db, .failed)
  | created : (∀ i ∈ db.items, isItemOf twin.id i = false) → FreeFor twin db.items →
      Projected ctx clock twin state d id db
        ({ db with items := db.items ++ [projectedItem ctx clock id twin state d] }, .returned)
  | updated {existing : WorkItem} {write : WorkItem → WorkItem} : existing ∈ db.items →
      isItemOf twin.id existing = true → FreeFor twin db.items → KeepsItem write →
      (∀ i, isItemOf twin.id i = true → (write i).itemKey = sourceKey twin ∧
        appliedAt (write i) = some (greatest (appliedAt i) state.sourceUpdatedAt)) →
      Projected ctx clock twin state d id db
        ({ db with items := Table.update (·.id == existing.id) write db.items }, .returned)

end

section
variable {ctx : ProjectionContext} {clock : Clock} {db : ProjectionDb} {twin : CanonicalTwin}
  {state : Snapshot} {d : Desired} {id twinId : Uuid}

theorem advance_ended (k : Nat) {stage : Projection} (h : stage = .returned ∨ stage = .failed) :
    (fun p => advance ctx clock twinId state id p.1 p.2)^[k] (db, stage) = (db, stage) := by
  refine Function.iterate_fixed ?_ k
  rcases h with rfl | rfl <;> rfl

variable {items : List WorkItem}

theorem keyTaken_iff {itemId : Uuid} {key : String} :
    keyTaken items itemId key = true ↔ ∃ i ∈ items, i.id ≠ itemId ∧ i.itemKey = key := by
  simp [keyTaken]

theorem keyTaken_existing (h : ItemsOk items) {existing : WorkItem}
    (hmem : existing ∈ items) (htwin : isItemOf twin.id existing = true) :
    keyTaken items existing.id (sourceKey twin) = false ↔ FreeFor twin items := by
  rw [Bool.eq_false_iff, ne_eq, keyTaken_iff]
  refine ⟨fun hnone other hother hkey => ?_, ?_⟩
  · have hid : other.id = existing.id := by
      by_contra hne
      exact hnone ⟨other, hother, hne, hkey⟩
    exact Table.eq_of_key h.ids hother hmem hid ▸ htwin
  · rintro hfree ⟨other, hother, hne, hkey⟩
    exact hne (congrArg _ (h.unique other hother existing hmem _ (hfree other hother hkey) htwin))

theorem keyTaken_new (hid : ∀ i ∈ items, i.id ≠ id) (hnone : ∀ i ∈ items, isItemOf twin.id i = false) :
    keyTaken items id (sourceKey twin) = false ↔ FreeFor twin items := by
  rw [Bool.eq_false_iff, ne_eq, keyTaken_iff]
  refine ⟨fun h other hother hkey => absurd ⟨other, hother, hid other hother, hkey⟩ h, ?_⟩
  rintro hfree ⟨other, hother, -, hkey⟩
  have hown := hfree other hother hkey
  rw [hnone other hother] at hown
  cases hown

theorem moveStages {itemId : Uuid} {item : WorkItem} (hfind : items.find? (·.id == itemId) = some item) :
    ∃ move, KeepsItem move ∧
      (∀ i, (move i).itemKey = i.itemKey ∧ appliedAt (move i) = appliedAt i) ∧
      (fun p => advance ctx clock twinId state id p.1 p.2)^[2] ({ db with items := items }, .moving itemId) =
        ({ db with items := Table.update (·.id == itemId) move items }, .returned) := by
  have hmem := List.mem_of_find?_eq_some hfind
  have hid : item.id = itemId := by simpa using List.find?_some hfind
  rw [Function.iterate_succ_apply]
  by_cases hstatus : item.status = state.status
  · have hmove : advance ctx clock twinId state id { db with items := items } (.moving itemId) =
        ({ db with items := items }, .returned) := by
      simp only [advance, moveStage, hfind, if_pos hstatus]
    refine ⟨fun i => i, ⟨fun _ => rfl, fun _ _ => rfl⟩, fun _ => ⟨rfl, rfl⟩, ?_⟩
    rw [hmove, Table.update_self]
    exact advance_ended 1 (.inl rfl)
  · have hmove : advance ctx clock twinId state id { db with items := items } (.moving itemId) =
        ({ db with items := items }, .committing itemId
          (stateChangeOf db.policies item state.status state.sourceUpdatedAt item.customFields)) := by
      simp only [advance, moveStage, hfind, if_neg hstatus]
    set change := stateChangeOf db.policies item state.status state.sourceUpdatedAt item.customFields
    have hany : (items.any fun i => i.id == itemId && i.status == change.fromState) = true :=
      List.any_eq_true.mpr ⟨item, hmem, by simp [hid, change, stateChangeOf]⟩
    refine ⟨fun i => if i.status == change.fromState then change.apply i else i,
      ⟨fun i => ?_, fun x i => ?_⟩, fun i => ?_, ?_⟩
    · split <;> rfl
    · split <;> rfl
    · show (if _ then _ else _ : WorkItem).itemKey = _ ∧ appliedAt (if _ then _ else _) = _
      split <;> exact ⟨rfl, rfl⟩
    · rw [hmove, Function.iterate_succ_apply, Function.iterate_zero_apply, ← Table.update_and]
      simp only [advance, commitStage, hany]
      rfl

theorem updateStages (hitems : ItemsOk db.items) {existing : WorkItem} (hmem : existing ∈ db.items)
    (htwin : isItemOf twin.id existing = true) (hfree : FreeFor twin db.items) :
    ∃ write, KeepsItem write ∧
      (∀ i, isItemOf twin.id i = true → (write i).itemKey = sourceKey twin ∧
        appliedAt (write i) = some (greatest (appliedAt i) state.sourceUpdatedAt)) ∧
      (fun p => advance ctx clock twinId state id p.1 p.2)^[3] (db, .updating twin d existing) =
        ({ db with items := Table.update (·.id == existing.id) write db.items }, .returned) := by
  have hwrites : ∀ i, isItemOf twin.id i = true →
      (updatedItem twin state d i).itemKey = sourceKey twin ∧
        appliedAt (updatedItem twin state d i) =
          some (greatest (appliedAt i) state.sourceUpdatedAt) :=
    fun i hi => ⟨rfl, appliedAt_updated twin state d hi⟩
  have hkeeps := updatedItem_keeps twin state d
  have hupdate : advance ctx clock twinId state id db (.updating twin d existing) =
      ({ db with items := Table.update (·.id == existing.id) (updatedItem twin state d) db.items },
        if state.status != "" && state.status != existing.status then .moving existing.id
        else .returned) := by
    simp only [advance, updateStage, (keyTaken_existing hitems hmem htwin).mpr hfree]
    rfl
  rw [Function.iterate_succ_apply, hupdate]
  split
  · -- the item is read again, and its status set
    obtain ⟨item, hfind⟩ : ∃ item, (Table.update (·.id == existing.id) (updatedItem twin state d)
        db.items).find? (·.id == existing.id) = some item := by
      rw [← Option.isSome_iff_exists, List.find?_isSome]
      exact ⟨_, Table.mem_update.mpr (.inl ⟨existing, hmem, by simp, rfl⟩), by simp [hkeeps.id]⟩
    obtain ⟨move, hmove, hsame, hstages⟩ := moveStages hfind
    refine ⟨fun i => move (updatedItem twin state d i), ⟨fun i => ?_, fun x i => ?_⟩, fun i hi => ?_, ?_⟩
    · rw [hmove.id, hkeeps.id]
    · rw [hmove.twin, hkeeps.twin]
    · rw [(hsame _).1, (hsame _).2]
      exact hwrites i hi
    · rw [hstages, Table.update_update]
      exact fun i => by rw [hkeeps.id]
  · exact ⟨_, hkeeps, hwrites, advance_ended 2 (.inl rfl)⟩

end

section
variable {ctx : ProjectionContext} {clock : Clock} {db : ProjectionDb} {twin : CanonicalTwin}
  {state : Snapshot} {d : Desired} {id twinId : Uuid}

theorem Projected.of_projectTwin (hitems : ItemsOk db.items) (hid : ∀ i ∈ db.items, i.id ≠ id)
    (htwin : db.twins.find? (·.id == twinId) = some twin) (hplan : planOf ctx twin state = some d) :
    Projected ctx clock twin state d id db (projectTwin ctx clock twinId state id db) := by
  have hstart : advance ctx clock twinId state id db .started = (db, .planned twin d) := by
    simp only [advance, htwin, hplan]
  rw [projectTwin, Function.iterate_succ_apply, hstart, Function.iterate_succ_apply]
  cases hfound : db.items.find? (isItemOf twin.id) with
  | none =>
    have hnone : ∀ i ∈ db.items, isItemOf twin.id i = false := fun i hi =>
      Bool.eq_false_iff.mpr (List.find?_eq_none.mp hfound i hi)
    have hany : db.items.any (isItemOf twin.id) = false :=
      List.any_eq_false.mpr fun i hi => by rw [hnone i hi]; rintro ⟨⟩
    have hplanned : advance ctx clock twinId state id db (.planned twin d) =
        (db, .creating twin d) := by
      simp only [advance, hfound]
    rw [hplanned, Function.iterate_succ_apply]
    by_cases hfree : FreeFor twin db.items
    · have hcreate : advance ctx clock twinId state id db (.creating twin d) =
          ({ db with items := db.items ++ [projectedItem ctx clock id twin state d] },
            .returned) := by
        simp only [advance, createStage, hany, (keyTaken_new hid hnone).mpr hfree]
        rfl
      rw [hcreate, advance_ended 2 (.inl rfl)]
      exact .created hnone hfree
    · have htaken : keyTaken db.items id (sourceKey twin) = true :=
        Bool.not_eq_false _ ▸ fun h => hfree ((keyTaken_new hid hnone).mp h)
      have hcreate : advance ctx clock twinId state id db (.creating twin d) = (db, .failed) := by
        simp only [advance, createStage, hany, htaken]
        rfl
      rw [hcreate, advance_ended 2 (.inr rfl)]
      refine .taken (fun i hi hitem => ?_) hfree
      rw [hnone i hi] at hitem
      cases hitem
  | some existing =>
    have hmem := List.mem_of_find?_eq_some hfound
    have hitem := List.find?_some hfound
    cases hlater : appliedLater existing state with
    | true =>
      have hplanned : advance ctx clock twinId state id db (.planned twin d) =
          (db, .returned) := by
        simp only [advance, hfound, hlater]
        rfl
      rw [hplanned, advance_ended 3 (.inl rfl)]
      exact .late hmem hitem hlater
    | false =>
      have hplanned : advance ctx clock twinId state id db (.planned twin d) =
          (db, .updating twin d existing) := by
        simp only [advance, hfound, hlater]
        rfl
      rw [hplanned]
      by_cases hfree : FreeFor twin db.items
      · obtain ⟨write, hkeeps, hwrites, hstages⟩ := updateStages hitems hmem hitem hfree
        rw [hstages]
        exact .updated hmem hitem hfree hkeeps hwrites
      · have htaken : keyTaken db.items existing.id (sourceKey twin) = true :=
          Bool.not_eq_false _ ▸ fun h => hfree ((keyTaken_existing hitems hmem hitem).mp h)
        have hupdate : advance ctx clock twinId state id db (.updating twin d existing) =
            (db, .failed) := by
          simp only [advance, updateStage, htaken]
          rfl
        rw [Function.iterate_succ_apply, hupdate, advance_ended 2 (.inr rfl)]
        refine .taken (fun i hi hown => ?_) hfree
        rw [hitems.unique i hi existing hmem _ hown hitem, hlater]

end

section
variable {ctx : ProjectionContext} {clock : Clock} {s t : KeyState}

/-! ## The invariant -/

/-- The row has the content of that time, or newer. -/
def Reaches (twin : CanonicalTwin) (time : Millis) : Prop :=
  ∃ last, twin.sourceUpdatedAt = some last ∧ time ≤ last

def HasKey (twin : CanonicalTwin) (items : List WorkItem) : Prop :=
  ∃ item ∈ items, isItemOf twin.id item = true ∧ item.itemKey = sourceKey twin

/-- The event of the last change is still to be handled. -/
def Awaits (twin : CanonicalTwin) (s : KeyState) : Prop :=
  ∃ n change, s.changes[n]? = some change ∧ n ∉ s.handled ∧ change.twinId = twin.id ∧
    twin.sourceUpdatedAt = some change.snapshot.sourceUpdatedAt

def ProjectsTwin (ctx : ProjectionContext) (twin : CanonicalTwin) (fields : Fields) : Prop :=
  Projects ctx twin.connectorId twin.provider twin.artifactType fields

structure KeyInv (ctx : ProjectionContext) (s : KeyState) : Prop where
  twins : (s.tables.twins.map (·.id)).Nodup
  items : ItemsOk s.items
  owned : ∀ item ∈ s.items, ∀ x, isItemOf x item = true →
    ∃ twin ∈ s.tables.twins, twin.id = x ∧ ∀ time, appliedAt item = some time → Reaches twin time
  changes : ∀ change ∈ s.changes, ∃ twin ∈ s.tables.twins, twin.id = change.twinId ∧
    ProjectsTwin ctx twin change.snapshot.fields ∧ Reaches twin change.snapshot.sourceUpdatedAt
  handled : ∀ n ∈ s.handled, n < s.changes.length
  keyed : ∀ twin ∈ s.tables.twins, HasKey twin s.items ∨ Awaits twin s

theorem planOf_of_projects {twin : CanonicalTwin} {state : Snapshot}
    (h : ProjectsTwin ctx twin state.fields) : ∃ d, planOf ctx twin state = some d := by
  obtain ⟨henabled, htype, hteam⟩ := h
  obtain ⟨type, htype⟩ := Option.isSome_iff_exists.mp htype
  obtain ⟨team, hteam⟩ := Option.isSome_iff_exists.mp hteam
  refine ⟨desiredOf ctx twin state type team, ?_⟩
  simp only [planOf, henabled, htype, hteam]
  rfl

theorem KeyInv.start (policies : List SlaPolicy) : KeyInv ctx (.start policies) where
  twins := List.nodup_nil
  items := ⟨List.nodup_nil, fun _ hi => absurd hi List.not_mem_nil⟩
  owned _ hi := absurd hi List.not_mem_nil
  changes _ hc := absurd hc List.not_mem_nil
  handled _ hn := absurd hn List.not_mem_nil
  keyed _ ht := absurd ht List.not_mem_nil

/-- A row `twin'` that goes on from the row `twin`. -/
structure Continues (twin twin' : CanonicalTwin) : Prop where
  id : twin'.id = twin.id
  projects : ∀ ctx fields, ProjectsTwin ctx twin fields → ProjectsTwin ctx twin' fields
  reaches : ∀ time, Reaches twin time → Reaches twin' time

theorem Continues.refl (twin : CanonicalTwin) : Continues twin twin :=
  ⟨rfl, fun _ _ h => h, fun _ h => h⟩

theorem Continues.applyRecord {P : Platform} {record : ExternalRecordPayload} {nodeId : Uuid}
    {prior : CanonicalTwin} (hstale : isStale prior record = false) :
    Continues prior (Connectors.applyRecord P record nodeId prior) := by
  refine ⟨rfl, fun _ _ h => h, ?_⟩
  rintro time ⟨last, hlast, hle⟩
  rw [isStale, hlast, decide_eq_false_iff_not, not_lt] at hstale
  exact ⟨record.updatedAt, rfl, hle.trans hstale⟩

theorem KeyInv.recorded (h : KeyInv ctx s) (row : CanonicalTwin) {twins : List CanonicalTwin}
    {nodes : List SyncNode} {record : ExternalRecordPayload} (hids : (twins.map (·.id)).Nodup)
    (hrow : row ∈ twins) (htime : row.sourceUpdatedAt = some record.updatedAt)
    (hprojects : ProjectsTwin ctx row record.fields)
    (hothers : ∀ twin ∈ twins, twin = row ∨ twin ∈ s.tables.twins)
    (hcontinues : ∀ twin ∈ s.tables.twins, ∃ twin' ∈ twins, Continues twin twin') :
    KeyInv ctx { s with
      tables := { s.tables with twins := twins, nodes := nodes }
      changes := s.changes ++ [⟨row.id, snapshotOf record⟩] } := by
  refine ⟨hids, h.items, fun item hitem x hx => ?_, fun change hchange => ?_, fun n hn => ?_,
    fun twin htwin => ?_⟩
  · obtain ⟨twin, htwin, hid, hreaches⟩ := h.owned item hitem x hx
    obtain ⟨twin', htwin', hcont⟩ := hcontinues twin htwin
    exact ⟨twin', htwin', hcont.id.trans hid, fun time ht => hcont.reaches time (hreaches time ht)⟩
  · rcases List.mem_append.mp hchange with hchange | hchange
    · obtain ⟨twin, htwin, hid, hproj, hreaches⟩ := h.changes change hchange
      obtain ⟨twin', htwin', hcont⟩ := hcontinues twin htwin
      exact ⟨twin', htwin', hcont.id.trans hid, hcont.projects _ _ hproj, hcont.reaches _ hreaches⟩
    · obtain rfl := List.mem_singleton.mp hchange
      exact ⟨row, hrow, rfl, hprojects, record.updatedAt, htime, le_refl _⟩
  · rw [List.length_append]
    exact Nat.lt_add_right _ (h.handled n hn)
  · rcases hothers twin htwin with rfl | hold
    · -- its event is the one that has been appended
      refine .inr ⟨s.changes.length, _, List.getElem?_concat_length, fun hn => ?_, rfl, htime⟩
      exact Nat.lt_irrefl _ (h.handled _ hn)
    · refine (h.keyed twin hold).imp_right ?_
      rintro ⟨n, change, hchange, hn, hid, hlast⟩
      refine ⟨n, change, ?_, hn, hid, hlast⟩
      rw [List.getElem?_append_left (List.getElem?_eq_some_iff.mp hchange).1]
      exact hchange

theorem KeyInv.record (h : KeyInv ctx s) {connector : ConnectorRecord} {ids : FreshIds}
    {record : ExternalRecordPayload}
    (hprojects : Projects ctx connector.id connector.provider record.artifactType record.fields)
    (hstep : recordStep ctx s connector ids record = some t) : KeyInv ctx t := by
  unfold recordStep at hstep
  split at hstep
  · cases hstep
  rename_i hfresh
  have hnew : ∀ twin ∈ s.tables.twins, twin.id ≠ ids.twin := fun twin htwin heq =>
    hfresh (List.any_eq_true.mpr ⟨twin, htwin, by simpa using heq⟩)
  split at hstep
  · rename_i outcome tables event hok
    obtain rfl := Option.some.inj hstep
    cases RecordChange.of_processRecord hok with
    | same =>
      show KeyInv ctx { s with changes := s.changes ++ [] }
      rw [List.append_nil]
      exact h
    | @updated prior nodeId nodes hprior hconnector hstale hhash =>
      have hmem := List.mem_of_find?_eq_some hprior
      have hkey := List.find?_some hprior
      obtain ⟨horg, hprovider, htype, -⟩ := twinKeyMatches_columns.mp hkey
      have hwritten : ∀ twin ∈ s.tables.twins,
          (twin.id = prior.id && twin.orgId = ctx.orgId : Bool) = true → twin = prior := by
        intro twin htwin hp
        simp only [Bool.and_eq_true, decide_eq_true_eq] at hp
        exact Table.eq_of_key h.twins htwin hmem hp.1
      have hself : (prior.id = prior.id && prior.orgId = ctx.orgId : Bool) = true := by
        simp [horg]
      refine h.recorded (applyRecord ctx.platform record nodeId prior) ?_ ?_ rfl ?_ ?_ ?_
      · have hcol := Table.update_column (fun twin : CanonicalTwin => twin.id)
          (p := fun twin => twin.id = prior.id && twin.orgId = ctx.orgId)
          (f := applyRecord ctx.platform record nodeId) (fun _ => rfl) s.tables.twins
        exact hcol ▸ h.twins
      · exact Table.mem_update.mpr (.inl ⟨prior, hmem, hself, rfl⟩)
      · show Projects ctx prior.connectorId prior.provider prior.artifactType record.fields
        rw [hconnector, hprovider, htype]
        exact hprojects
      · intro twin htwin
        rcases Table.mem_update.mp htwin with ⟨q, hq, hp, rfl⟩ | ⟨hold, -⟩
        · exact .inl (congrArg _ (hwritten q hq hp))
        · exact .inr hold
      · intro twin htwin
        by_cases hp : (twin.id = prior.id && twin.orgId = ctx.orgId : Bool) = true
        · obtain rfl := hwritten twin htwin hp
          exact ⟨_, Table.mem_update.mpr (.inl ⟨twin, hmem, hself, rfl⟩), .applyRecord hstale⟩
        · exact ⟨twin, Table.mem_update_of_not htwin (Bool.eq_false_iff.mpr hp), .refl twin⟩
    | @created nodeId nodes hnone =>
      refine h.recorded (newTwin ctx.platform ctx.orgId connector record ids.twin nodeId)
        (Table.nodup_insert h.twins hnew) (List.mem_append_right _ (List.mem_singleton_self _)) rfl
        hprojects (fun twin htwin => ?_)
        fun twin htwin => ⟨twin, List.mem_append_left _ htwin, .refl twin⟩
      rcases List.mem_append.mp htwin with htwin | htwin
      · exact .inr htwin
      · exact .inl (List.mem_singleton.mp htwin)
  · cases hstep

end

section
variable {ctx : ProjectionContext} {clock : Clock} {s t : KeyState}

/-! ## Handling an event -/

/-- What a call that handles the `n`-th event finds. -/
structure Handles (ctx : ProjectionContext) (s : KeyState) (n : Nat) (change : TwinChange)
    (twin : CanonicalTwin) (d : Desired) : Prop where
  delivered : s.changes[n]? = some change
  row : twin ∈ s.tables.twins
  own : twin.id = change.twinId
  found : s.tables.twins.find? (·.id == change.twinId) = some twin
  plan : planOf ctx twin change.snapshot = some d
  reaches : Reaches twin change.snapshot.sourceUpdatedAt

theorem KeyInv.handles (h : KeyInv ctx s) {n : Nat} {change : TwinChange}
    (hchange : s.changes[n]? = some change) : ∃ twin d, Handles ctx s n change twin d := by
  obtain ⟨twin, htwin, hid, hproj, hreaches⟩ := h.changes change (List.mem_of_getElem? hchange)
  obtain ⟨d, hplan⟩ := planOf_of_projects hproj
  refine ⟨twin, d, hchange, htwin, hid, ?_, hplan, hreaches⟩
  obtain ⟨found, hfound⟩ : ∃ found, s.tables.twins.find? (·.id == change.twinId) = some found := by
    rw [← Option.isSome_iff_exists, List.find?_isSome]
    exact ⟨twin, htwin, by simpa using hid⟩
  have hsame : found.id = change.twinId := by simpa using List.find?_some hfound
  rw [hfound, Table.eq_of_key h.twins (List.mem_of_find?_eq_some hfound) htwin (hsame.trans hid.symm)]

theorem notHandled {m n : Nat} {handled : List Nat} (hmn : m ≠ n) (hm : m ∉ handled) :
    m ∉ n :: handled := by
  rw [List.mem_cons, not_or]
  exact ⟨hmn, hm⟩

/-- A call that returns normally: the other twins keep their items, and the
twin has one with its key unless the event was late. -/
theorem KeyInv.returned (h : KeyInv ctx s) {n : Nat} {change : TwinChange} {twin : CanonicalTwin}
    {d : Desired} (hc : Handles ctx s n change twin d) {items : List WorkItem} (hitems : ItemsOk items)
    (howned : ∀ item ∈ items, ∀ x, isItemOf x item = true →
      ∃ twin ∈ s.tables.twins, twin.id = x ∧ ∀ time, appliedAt item = some time → Reaches twin time)
    (hothers : ∀ other : CanonicalTwin, other.id ≠ twin.id → HasKey other s.items → HasKey other items)
    (hself : HasKey twin s.items ∨ twin.sourceUpdatedAt = some change.snapshot.sourceUpdatedAt →
      HasKey twin items) :
    KeyInv ctx { s with items := items, handled := n :: s.handled } := by
  refine ⟨h.twins, hitems, howned, h.changes, fun m hm => ?_, fun other hother => ?_⟩
  · rcases List.mem_cons.mp hm with rfl | hm
    · exact (List.getElem?_eq_some_iff.mp hc.delivered).1
    · exact h.handled m hm
  · by_cases hid : other.id = twin.id
    · obtain rfl := Table.eq_of_key h.twins hother hc.row hid
      rcases h.keyed other hother with hkey | ⟨m, change', hchange', hm, hid', hlast⟩
      · exact .inl (hself (.inl hkey))
      · by_cases hmn : m = n
        · subst hmn
          obtain rfl := Option.some.inj (hchange'.symm.trans hc.delivered)
          exact .inl (hself (.inr hlast))
        · exact .inr ⟨m, change', hchange', notHandled hmn hm, hid', hlast⟩
    · refine (h.keyed other hother).imp (hothers other hid) ?_
      rintro ⟨m, change', hchange', hm, hid', hlast⟩
      refine ⟨m, change', hchange', notHandled ?_ hm, hid', hlast⟩
      rintro rfl
      obtain rfl := Option.some.inj (hchange'.symm.trans hc.delivered)
      exact hid (hid'.symm.trans hc.own.symm)

theorem KeyInv.projected (h : KeyInv ctx s) {n : Nat} {change : TwinChange} {twin : CanonicalTwin}
    {d : Desired} {id : Uuid} {db : ProjectionDb} (hc : Handles ctx s n change twin d)
    (hid : ∀ i ∈ s.items, i.id ≠ id)
    (hp : Projected ctx clock twin change.snapshot d id s.db (db, .returned)) :
    KeyInv ctx { s with items := db.items, handled := n :: s.handled } := by
  cases hp with
  | @late existing hmem hitem hlater =>
    refine h.returned hc h.items h.owned (fun _ _ hkey => hkey) fun hkey => hkey.resolve_right ?_
    -- a newer event has been applied, so this is not the last one
    intro hlast
    obtain ⟨row, hrow, hrowid, hreaches⟩ := h.owned existing hmem _ hitem
    obtain rfl := Table.eq_of_key h.twins hrow hc.row hrowid
    rw [appliedLater] at hlater
    split at hlater
    · rename_i time htime
      obtain ⟨last, hlast', hle⟩ := hreaches time htime
      obtain rfl := Option.some.inj (hlast.symm.trans hlast')
      exact absurd hle (not_le.mpr (by simpa using hlater))
    · cases hlater
  | created hnone hfree =>
    refine h.returned hc (h.items.insert hid fun y hy => ?_) ?_ ?_ ?_
    · rw [isItemOf_projected] at hy
      exact hy ▸ hnone
    · intro item hitem x hx
      rcases List.mem_append.mp hitem with hitem | hitem
      · exact h.owned item hitem x hx
      · obtain rfl := List.mem_singleton.mp hitem
        refine ⟨twin, hc.row, isItemOf_projected.mp hx, fun time htime => ?_⟩
        obtain rfl := Option.some.inj htime
        exact hc.reaches
    · rintro other - ⟨item, hitem, hown, hkey⟩
      exact ⟨item, List.mem_append_left _ hitem, hown, hkey⟩
    · intro _
      exact ⟨_, List.mem_append_right _ (List.mem_singleton_self _), isItemOf_projected.mpr rfl, rfl⟩
  | @updated existing write hmem hitem hfree hkeeps hwrites =>
    have hwritten : ∀ i ∈ s.items, (i.id == existing.id) = true → i = existing := fun i hi hp =>
      Table.eq_of_key h.items.ids hi hmem (beq_iff_eq.mp hp)
    refine h.returned hc (h.items.update hkeeps) ?_ ?_ ?_
    · intro item hmem' x hx
      rcases Table.mem_update.mp hmem' with ⟨i, hi, hp, rfl⟩ | ⟨hold, -⟩
      · obtain rfl := hwritten i hi hp
        obtain ⟨row, hrow, hrowid, hreaches⟩ := h.owned i hi x ((hkeeps.twin x i).symm.trans hx)
        have hsame : x = twin.id := isItemOf_inj ((hkeeps.twin x i).symm.trans hx) hitem
        obtain rfl := Table.eq_of_key h.twins hrow hc.row (hrowid.trans hsame)
        refine ⟨row, hrow, hrowid, fun time htime => ?_⟩
        obtain rfl := Option.some.inj ((hwrites i hitem).2.symm.trans htime)
        obtain ⟨last, hlast, hle⟩ := hc.reaches
        refine ⟨last, hlast, max_le ?_ hle⟩
        cases happlied : appliedAt i with
        | none => exact hle
        | some applied =>
          obtain ⟨last', hlast', hle'⟩ := hreaches applied happlied
          obtain rfl := Option.some.inj (hlast.symm.trans hlast')
          exact hle'
      · exact h.owned item hold x hx
    · rintro other hne ⟨item, hitem', hown, hkey⟩
      refine ⟨item, Table.mem_update_of_not hitem' (Bool.eq_false_iff.mpr fun hp => hne ?_), hown, hkey⟩
      rw [hwritten item hitem' hp] at hown
      exact isItemOf_inj hown hitem
    · intro _
      exact ⟨write existing, Table.mem_update.mpr (.inl ⟨existing, hmem, by simp, rfl⟩),
        (hkeeps.twin _ _).trans hitem, (hwrites existing hitem).1⟩

theorem handleStep_cases (h : KeyInv ctx s) {n : Nat} {id : Uuid}
    (hstep : handleStep ctx clock s n id = some t) :
    ∃ change twin d, Handles ctx s n change twin d ∧ (∀ i ∈ s.items, i.id ≠ id) ∧
      ((∃ db, Projected ctx clock twin change.snapshot d id s.db (db, .returned) ∧
          t = { s with items := db.items, handled := n :: s.handled }) ∨
        (InTime twin change.snapshot s.items ∧ ¬ FreeFor twin s.items ∧
          t = { s with failures := n :: s.failures })) := by
  unfold handleStep at hstep
  split at hstep
  · cases hstep
  rename_i change hchange
  split at hstep
  · cases hstep
  rename_i hfresh
  have hid : ∀ i ∈ s.items, i.id ≠ id := fun i hi heq =>
    hfresh (List.any_eq_true.mpr ⟨i, hi, by simpa using heq⟩)
  obtain ⟨twin, d, hc⟩ := h.handles hchange
  refine ⟨change, twin, d, hc, hid, ?_⟩
  have hp : Projected ctx clock twin change.snapshot d id s.db
      (projectTwin ctx clock change.twinId change.snapshot id s.db) :=
    .of_projectTwin h.items hid hc.found hc.plan
  generalize projectTwin ctx clock change.twinId change.snapshot id s.db = result at hp hstep
  cases hp with
  | late hmem hitem hlater => exact .inl ⟨_, .late hmem hitem hlater, (Option.some.inj hstep).symm⟩
  | taken hlate hfree => exact .inr ⟨hlate, hfree, (Option.some.inj hstep).symm⟩
  | created hnone hfree => exact .inl ⟨_, .created hnone hfree, (Option.some.inj hstep).symm⟩
  | updated hmem hitem hfree hkeeps hwrites =>
    exact .inl ⟨_, .updated hmem hitem hfree hkeeps hwrites, (Option.some.inj hstep).symm⟩

theorem KeyInv.step {a : KeyAction} (h : KeyInv ctx s) (hresolvable : Resolvable ctx a)
    (hstep : keyStep ctx clock s a = some t) : KeyInv ctx t := by
  cases a with
  | record connector ids record => exact h.record hresolvable hstep
  | handle n id =>
    obtain ⟨change, twin, d, hc, hid, ⟨db, hp, rfl⟩ | ⟨-, -, rfl⟩⟩ := handleStep_cases h hstep
    · exact h.projected hc hid hp
    · exact ⟨h.twins, h.items, h.owned, h.changes, h.handled, h.keyed⟩
  | create item =>
    obtain ⟨items, hinsert, rfl⟩ := Option.map_eq_some_iff.mp hstep
    obtain ⟨rfl, hlocal, -⟩ := insertLocal_eq hinsert
    refine ⟨h.twins, h.items.insertLocal hinsert, fun i hi x hx => ?_, h.changes, h.handled,
      fun twin htwin => (h.keyed twin htwin).imp_left ?_⟩
    · rcases List.mem_append.mp hi with hi | hi
      · exact h.owned i hi x hx
      · rw [List.mem_singleton.mp hi, isItemOf_local hlocal] at hx
        cases hx
    · rintro ⟨i, hi, hown, hkey⟩
      exact ⟨i, List.mem_append_left _ hi, hown, hkey⟩

theorem failures_step {a : KeyAction} (h : KeyInv ctx s) (hstep : keyStep ctx clock s a = some t) :
    t.failures = [] ↔ s.failures = [] ∧ KeyFree s a := by
  cases a with
  | record connector ids record =>
    simp only [keyStep, recordStep] at hstep
    split at hstep
    · cases hstep
    · split at hstep
      · obtain rfl := Option.some.inj hstep
        exact (and_iff_left trivial).symm
      · cases hstep
  | create item =>
    obtain ⟨items, -, rfl⟩ := Option.map_eq_some_iff.mp hstep
    exact (and_iff_left trivial).symm
  | handle n id =>
    obtain ⟨change, twin, d, hc, hid, hcases⟩ := handleStep_cases h hstep
    have hfree : KeyFree s (.handle n id) ↔
        (InTime twin change.snapshot s.items → FreeFor twin s.items) := by
      refine ⟨fun hall => hall change hc.delivered twin hc.found, fun hall change' hchange' twin' htwin' => ?_⟩
      obtain rfl := Option.some.inj (hc.delivered.symm.trans hchange')
      obtain rfl := Option.some.inj (hc.found.symm.trans htwin')
      exact hall
    rw [hfree]
    rcases hcases with ⟨db, hp, rfl⟩ | ⟨hlate, htaken, rfl⟩
    · refine (and_iff_left ?_).symm
      cases hp with
      | late hmem hitem hlater =>
        intro hintime
        rw [hintime _ hmem hitem] at hlater
        cases hlater
      | created _ hfree => exact fun _ => hfree
      | updated _ _ hfree => exact fun _ => hfree
    · exact ⟨fun hnil => absurd hnil (List.cons_ne_nil _ _), fun hall => absurd (hall.2 hlate) htaken⟩

/-- Every twin ends with one item under its key, and no call fails, exactly
if the key is free whenever an event is handled in time. -/
theorem keys_projected_iff (policies : List SlaPolicy) (acts : List KeyAction)
    (hresolvable : ∀ a ∈ acts, Resolvable ctx a)
    (hrun : (keySystem ctx clock).run (.start policies) acts = some t) :
    KeysProjected t ↔ (keySystem ctx clock).Along KeyFree (.start policies) acts := by
  have hall := (keySystem ctx clock).along_of_mem hresolvable (.start policies)
  have hinv : KeyInv ctx t := (keySystem ctx clock).along_invariant
    (fun h ha hstep => h.step ha hstep) (.start policies) hall hrun
  have hfailures := (keySystem ctx clock).along_iff (P := KeyInv ctx) (F := fun s => s.failures = [])
    (C := KeyFree) (fun h ha hstep => h.step ha hstep) (fun h _ hstep => failures_step h hstep)
    (.start policies) hall hrun
  have hstart : (KeyState.start policies).failures = [] := rfl
  rw [and_iff_right hstart] at hfailures
  rw [← hfailures]
  refine ⟨And.left, fun hnone => ⟨hnone, fun hhandled twin htwin => ?_⟩⟩
  obtain ⟨item, hitem, hown, hkey⟩ := (hinv.keyed twin htwin).resolve_right fun ⟨n, _, hchange, hn, _⟩ =>
    hn (hhandled n (List.getElem?_eq_some_iff.mp hchange).1)
  exact ⟨item, hitem, hown,
    fun other hother hown' => hinv.items.unique other hother item hitem _ hown' hown, hkey⟩

end

def everyIssue : ProjectionContext where
  platform := .ascii
  orgId := 0
  teams := [5]
  people := []
  config _ := ⟨true, none, [], []⟩

def issueRecord (externalId key : String) : ExternalRecordPayload where
  externalId := externalId
  artifactType := "issue"
  title := "Slow checkout"
  nativeKey := some key
  nativeUrl := none
  status := "To Do"
  fields := []
  fieldAuthority := none
  updatedAt := 0
  updatedBy := none

/-- An issue of each of two connectors; each event is handled. -/
def twoIssues (keyA keyB : String) : List KeyAction :=
  [.record ⟨1, "jira", "A"⟩ ⟨11, 12, 13⟩ (issueRecord "10042" keyA),
   .record ⟨2, "jira", "B"⟩ ⟨21, 22, 23⟩ (issueRecord "20042" keyB), .handle 0 31, .handle 1 32]

theorem everyIssue_projects (connectorId : Uuid) :
    Projects everyIssue connectorId "jira" "issue" [] :=
  ⟨rfl, rfl, rfl⟩

theorem twoIssues_resolvable (keyA keyB : String) :
    ∀ a ∈ twoIssues keyA keyB, Resolvable everyIssue a := by
  simp [twoIssues, Resolvable, issueRecord, everyIssue_projects]

/-- The issue of the second connector never gets a work item. -/
theorem keys_collide :
    ¬ ∀ (ctx : ProjectionContext) (clock : Clock) policies acts t,
      (∀ a ∈ acts, Resolvable ctx a) →
      (keySystem ctx clock).run (.start policies) acts = some t → KeysProjected t := by
  intro hall
  have hfailed : ((keySystem everyIssue ⟨fun _ => none⟩).run (.start [])
      (twoIssues "CAD-42" "CAD-42")).map (·.failures) = some [1] := by
    decide
  obtain ⟨t, hrun, ht⟩ := Option.map_eq_some_iff.mp hfailed
  have hnone := (hall _ _ _ _ t (twoIssues_resolvable _ _) hrun).1
  rw [ht] at hnone
  cases hnone

theorem keys_projected_apart :
    ∃ t, (keySystem everyIssue ⟨fun _ => none⟩).run (.start []) (twoIssues "CAD-42" "OPS-42") =
        some t ∧ t.handled = [1, 0] ∧ KeysProjected t := by
  have hhandled : ((keySystem everyIssue ⟨fun _ => none⟩).run (.start [])
      (twoIssues "CAD-42" "OPS-42")).map (·.handled) = some [1, 0] := by
    decide
  obtain ⟨t, hrun, ht⟩ := Option.map_eq_some_iff.mp hhandled
  exact ⟨t, hrun, ht, (keys_projected_iff [] _ (twoIssues_resolvable _ _) hrun).mpr (by decide)⟩

end Cadena.Connectors.Projections
