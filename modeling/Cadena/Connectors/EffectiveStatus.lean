import Cadena.Connectors.PausedTwin
import Cadena.Integrations.StateMapping
import Mathlib.Data.List.MinMax

/-!
# The state a target is taken to be in

Before a propagated order is translated, `executeWorkOrder` reads the state of
the target: that of the newest executed or noop order in front of it, or else
the state that was ingested last. Records of the target are ingested all the
while. `known` is what Cadena was told last, by an order or by a record.
-/

namespace Cadena.Connectors.Target

open Cadena.Base Cadena.Integrations

structure TargetRead where
  identity : SyncIdentity
  effective : Option String

/-- The two queues; for each twin of an organisation the state that the last
order or record has shown; what each call has read; the claim ids drawn. -/
structure TargetState where
  connectors : ConnectorState
  known : Uuid × Uuid → Option String
  reads : Nat → Option TargetRead
  claimIds : List String

/-- The field mapping's decision. -/
inductive FieldTranslation where
  | held (message : Option String)
  | ready (fields : Fields)

/-- What the translation of one order meets: the published state mapping, the
field mapping as a function of what it is given, and the id of the transaction
that is recorded. -/
structure TranslationServices where
  sameText : String → String → Bool
  published : Option StateMappingDefinition
  translateFields : Fields → Option String → Option String → Option FieldTranslation
  transactionId : Uuid
  provider : String

inductive TargetAction where
  | connector (a : ConnectorAction)
  | readTarget (call : Nat)
  | translate (call : Nat) (services : TranslationServices) (times : AttemptTimes)

/-- An executed or noop order of the twin that names a state. -/
def namesState (orgId twinId : Uuid) (q : WorkOrder) : Bool :=
  q.orgId = orgId && q.targetTwinId = twinId && q.status.settled && q.targetState.isSome

/-- `SELECT prior.target_state … ORDER BY prior.queue_position DESC LIMIT 1`. -/
def newestState (orders : List WorkOrder) (orgId twinId : Uuid) (position : Nat → Bool) : Option String :=
  ((orders.filter fun q => namesState orgId twinId q && position q.queuePosition).argmax
    (·.queuePosition)).bind (·.targetState)

def effectiveStatus (orders : List WorkOrder) (twin : CanonicalTwin) (queuePosition : Nat) : Option String :=
  (newestState orders twin.orgId twin.id (· < queuePosition)).or twin.nativeStatus

/-- The state that an order which comes next would be compared with. -/
def stateInForce (orders : List WorkOrder) (twin : CanonicalTwin) : Option String :=
  (newestState orders twin.orgId twin.id fun _ => true).or twin.nativeStatus

def readTarget (db : Db) (work : WorkOrder) : Option TargetRead :=
  (db.twins.find? fun t => t.id = work.targetTwinId && t.orgId = work.orgId).map fun twin =>
    ⟨⟨twin.provider, twin.artifactType, twin.externalId⟩, effectiveStatus db.orders twin work.queuePosition⟩

/-! ## Translation -/

def fieldsAt (payload : Fields) (key : String) : Fields := ((lookup payload key).bind Json.entries?).getD []

def textAt (payload : Fields) (key : String) : Option String :=
  match lookup payload key with
  | some (.str s) => some s
  | _ => none

/-- `payload[key]` as a condition. -/
def flagAt (payload : Fields) (key : String) : Bool :=
  match lookup payload key with
  | none | some .null => false
  | some (.bool b) => b
  | some (.str s) => s ≠ ""
  | some (.num n) => render (.num n) ≠ ['0']
  | some (.arr _) | some (.obj _) => true

def identityAt (payload : Fields) (key : String) : SyncIdentity :=
  let identity := fieldsAt payload key
  ⟨(textAt identity "system").getD "", (textAt identity "entity_type").getD "",
    (textAt identity "immutable_id").getD ""⟩

/-- A required field is missing: the record is left as it was. -/
def missingFieldsAdvice (provider : String) : String :=
  ". The " ++ provider ++ " record was not changed. Supply the field(s), either by adding a published " ++
    "field mapping that provides them or by re-injecting this held entry from the twin dead-letter queue " ++
    "with a corrected sourcePayload."

/-- The state part: why the order is held, or the transaction, the state and the
fields to write. -/
def translateStatePart (services : TranslationServices) (work : WorkOrder) (target : TargetRead)
    (fieldTranslation : Option FieldTranslation) :
    Except String ((Option Uuid × String × Option String) ⊕ (Option Uuid × Option String × Fields)) := do
  let sourceFields := fieldsAt work.sourcePayload "fields"
  let sourceState := textAt work.sourcePayload "state"
  if flagAt work.sourcePayload "stateChanged" && truthy sourceState then
    let mapped := match fieldTranslation with
      | some (.ready fields) => fields
      | _ => []
    let decision ← translateState services.sameText services.published
      (identityAt work.sourcePayload "identity") target.identity (sourceState.getD "")
      (orNull target.effective) (spread sourceFields mapped)
    if decision.ready && truthy decision.mappedTargetState then
      let required := (decision.rule.map (·.requiredTargetFields)).getD []
      return .inr (some services.transactionId, decision.mappedTargetState,
        spread work.fields (pickPaths sourceFields required))
    else
      return .inl (some services.transactionId, decision.reason.text,
        some (decision.message ++
          if decision.reason = .missingRequiredFields then missingFieldsAdvice services.provider else ""))
  else
    return .inr (work.transactionId, work.targetState, work.fields)

/-- The translation of `executeWorkOrder`; an error is thrown to its catch
block. -/
def translateWork (services : TranslationServices) (work : WorkOrder) (target : TargetRead) :
    Except String Translation := do
  let sourceFields := fieldsAt work.sourcePayload "fields"
  let fieldTranslation := services.translateFields sourceFields
    (orNull (textAt work.sourcePayload "state")) (orNull target.effective)
  match ← translateStatePart services work target fieldTranslation with
  | .inl (transactionId, reason, message) => return .hold transactionId reason message
  | .inr (transactionId, targetState, fields) =>
    match fieldTranslation with
    | some (.held message) =>
      return .hold transactionId "field_mapping_held"
        (some (orText message "Field mapping requires operator review"))
    | some (.ready mapped) =>
      return .ready transactionId targetState (spread fields mapped) target.effective
    | none => return .ready transactionId targetState fields target.effective

/-! ## The system -/

def WorkOrder.twinKey (w : WorkOrder) : Uuid × Uuid := (w.orgId, w.targetTwinId)

/-- A fact about a twin's state; an order without a state says nothing. -/
def learn (known : Uuid × Uuid → Option String) (key : Uuid × Uuid) : Option String → Uuid × Uuid → Option String
  | some state => setAt known key (some state)
  | none => known

/-- The order that a call settles, if its claim still holds. -/
def learnSettled (s : TargetState) (work : WorkOrder) (claimId : String) (state : WorkOrder → Option String) :
    Uuid × Uuid → Option String :=
  match s.connectors.queue.db.orders.find? (heldBy work claimId) with
  | some row => learn s.known (WorkOrder.twinKey row) (state row)
  | none => s.known

/-- The twin of a record that is about to be processed, and the state it shows;
`none` for a record that is dropped as stale. -/
def shownState (s : TargetState) (call : Nat) (ids : FreshIds) : Option ((Uuid × Uuid) × String) :=
  match s.connectors.ingesting call with
  | some (.claimed orgId connector job _) =>
    match s.connectors.queue.db.twins.find? (twinKeyMatches orgId connector job.payload) with
    | some prior =>
      if isStale prior job.payload then none else some ((orgId, prior.id), job.payload.status)
    | none => some ((orgId, ids.twin), job.payload.status)
  | _ => none

def knownAfter (s : TargetState) : ConnectorAction → Uuid × Uuid → Option String
  | .order (.push call _ _ _) =>
    match s.connectors.queue.calls call with
    | some (.writing work claimId _ _ _) => learnSettled s work claimId (·.targetState)
    | _ => s.known
  | .process call ids =>
    match shownState s call ids with
    | some (key, state) => learn s.known key (some state)
    | none => s.known
  | _ => s.known

/-- The random ids are new, and an order is for a twin that exists; a
translation is a step of its own. -/
def admits (s : TargetState) : ConnectorAction → Bool
  | .order (.insert n) => s.connectors.queue.db.twins.any (·.id == n.targetTwinId)
  | .order (.claim _ claimId _ _) => !s.claimIds.contains claimId
  | .order (.translate ..) => false
  | .process _ ids => !s.connectors.queue.db.twins.any (·.id == ids.twin)
  | _ => true

/-- A call that gets its claim has read nothing yet. -/
def readsAfter (s : TargetState) : ConnectorAction → Nat → Option TargetRead
  | .order (.claim call _ _ _) => setAt s.reads call none
  | _ => s.reads

def claimIdsAfter (s : TargetState) : ConnectorAction → List String
  | .order (.claim _ claimId _ _) => claimId :: s.claimIds
  | _ => s.claimIds

section
variable (P : Platform)

/-- The translation is decided with what the call has read, and carried out. -/
def translateTargetStep (s : TargetState) (call : Nat) (services : TranslationServices)
    (times : AttemptTimes) : Option TargetState :=
  match s.connectors.queue.calls call, s.reads call with
  | some (.translating work claimId), some target =>
    match translateWork services work target with
    | .ok translation =>
      (queueStep P s.connectors.queue (.translate call translation times)).map fun q =>
        { s with
          connectors := { s.connectors with queue := q }
          known := match translation with
            | .ready _ targetState fields effective =>
              if isNoop P targetState fields effective then
                learnSettled s work claimId fun _ => targetState
              else s.known
            | .hold .. => s.known }
    | .error _ => none
  | _, _ => none

def targetStep (s : TargetState) : TargetAction → Option TargetState
  | .connector a =>
    if admits s a then
      (connectorStep P s.connectors a).map fun c =>
        ⟨c, knownAfter s a, readsAfter s a, claimIdsAfter s a⟩
    else none
  | .readTarget call =>
    match s.connectors.queue.calls call, s.reads call with
    | some (.translating work _), none =>
      (readTarget s.connectors.queue.db work).map fun target =>
        { s with reads := setAt s.reads call (some target) }
    | _, _ => none
  | .translate call services times => translateTargetStep P s call services times

def targetSystem : System TargetState TargetAction := ⟨targetStep P⟩

/-- No twin has been ingested yet. -/
def TargetState.start (nodes : List SyncNode) (connectors : List ConnectorRecord) : TargetState where
  connectors := idleConnectors ⟨[], nodes, connectors⟩
  known _ := none
  reads _ := none
  claimIds := []

def HasRead (s : TargetState) (key : Uuid × Uuid) (target : TargetRead) : Prop :=
  ∃ call work claimId, s.connectors.queue.calls call = some (.translating work claimId) ∧
    s.reads call = some target ∧ WorkOrder.twinKey work = key ∧
    ∃ row ∈ s.connectors.queue.db.orders, heldBy work claimId row = true

/-- What an order is compared with is what Cadena was told last: what a query
would find now, and what calls have read. -/
structure Current (s : TargetState) : Prop where
  query : ∀ t ∈ s.connectors.queue.db.twins,
    stateInForce s.connectors.queue.db.orders t = s.known (t.orgId, t.id)
  read : ∀ key target, HasRead s key target → target.effective = s.known key

/-- A record shows the state that is known, or no order of the twin has named a
state yet, none has read it, and the record is not taken for the old one. -/
def ShowsKnown (s : TargetState) : TargetAction → Prop
  | .connector (.process call _) =>
    match s.connectors.ingesting call with
    | some (.claimed orgId connector job _) =>
      match s.connectors.queue.db.twins.find? (twinKeyMatches orgId connector job.payload) with
      | some prior =>
        isStale prior job.payload = true ∨ s.known (orgId, prior.id) = some job.payload.status ∨
          (newestState s.connectors.queue.db.orders orgId prior.id (fun _ => true) = none ∧
            (∀ target, ¬ HasRead s (orgId, prior.id) target) ∧
            prior.contentHash ≠ some (contentHash P job.payload))
      | none => True
    | _ => True
  | _ => True

/-- The translation of an order that is held is given the state that is known,
and a noop with a state is settled only if the target is known to be in it. -/
def ComparesKnown (s : TargetState) : TargetAction → Prop
  | .translate call services _ =>
    ∀ work claimId target, s.connectors.queue.calls call = some (.translating work claimId) →
      s.reads call = some target →
      (∃ row ∈ s.connectors.queue.db.orders, heldBy work claimId row = true) →
      target.effective = s.known (WorkOrder.twinKey work) ∧
      ∀ transactionId targetState fields effective,
        translateWork services work target = .ok (.ready transactionId targetState fields effective) →
        isNoop P targetState fields effective = true → truthy targetState = true →
        sameState P (s.known (WorkOrder.twinKey work)) targetState = true
  | _ => True

end

/-! ## The newest state -/

section
variable {orders orders' : List WorkOrder} {orgId twinId : Uuid} {w : WorkOrder}

theorem namesState_iff : namesState orgId twinId w = true ↔
    WorkOrder.twinKey w = (orgId, twinId) ∧ w.status.settled = true ∧ w.targetState.isSome = true := by
  simp only [namesState, WorkOrder.twinKey, Bool.and_eq_true, decide_eq_true_eq, Prod.mk.injEq, and_assoc]

theorem newestState_eq_some (hpos : (orders.map (·.queuePosition)).Nodup) {x : String} :
    newestState orders orgId twinId (fun _ => true) = some x ↔
      ∃ w ∈ orders, namesState orgId twinId w = true ∧ w.targetState = some x ∧
        ∀ q ∈ orders, namesState orgId twinId q = true → q.queuePosition ≤ w.queuePosition := by
  simp only [newestState, Bool.and_true, Option.bind_eq_some_iff]
  constructor
  · rintro ⟨w, hmax, hx⟩
    obtain ⟨hw, hnames⟩ := List.mem_filter.mp (List.argmax_mem hmax)
    exact ⟨w, hw, hnames, hx, fun q hq hqn => List.le_of_mem_argmax (List.mem_filter.mpr ⟨hq, hqn⟩) hmax⟩
  · rintro ⟨w, hw, hnames, hx, hmax⟩
    have hmem := List.mem_filter.mpr ⟨hw, hnames⟩
    cases hfind : (orders.filter (namesState orgId twinId)).argmax (·.queuePosition) with
    | none =>
      rw [List.argmax_eq_none.mp hfind] at hmem
      cases hmem
    | some v =>
      obtain ⟨hv, hvn⟩ := List.mem_filter.mp (List.argmax_mem hfind)
      have hle := List.le_of_mem_argmax hmem hfind
      obtain rfl : v = w := Table.eq_of_key hpos hv hw (Nat.le_antisymm (hmax v hv hvn) hle)
      exact ⟨v, rfl, hx⟩

theorem newestState_congr (hpos : (orders.map (·.queuePosition)).Nodup)
    (hpos' : (orders'.map (·.queuePosition)).Nodup)
    (h : ∀ w, namesState orgId twinId w = true → (w ∈ orders' ↔ w ∈ orders)) :
    newestState orders' orgId twinId (fun _ => true) = newestState orders orgId twinId fun _ => true := by
  refine Option.ext fun x => ?_
  rw [newestState_eq_some hpos', newestState_eq_some hpos]
  constructor
  · rintro ⟨w, hw, hnames, hx, hmax⟩
    exact ⟨w, (h w hnames).mp hw, hnames, hx, fun q hq hqn => hmax q ((h q hqn).mpr hq) hqn⟩
  · rintro ⟨w, hw, hnames, hx, hmax⟩
    exact ⟨w, (h w hnames).mpr hw, hnames, hx, fun q hq hqn => hmax q ((h q hqn).mp hq) hqn⟩

theorem newestState_eq_none :
    newestState orders orgId twinId (fun _ => true) = none ↔ ∀ w ∈ orders, namesState orgId twinId w = false := by
  constructor
  · intro hnone w hw
    by_contra hnames
    rw [Bool.not_eq_false] at hnames
    simp only [newestState, Bool.and_true, Option.bind_eq_none_iff] at hnone
    cases hmax : (orders.filter (namesState orgId twinId)).argmax (·.queuePosition) with
    | none =>
      have hempty := List.argmax_eq_none.mp hmax
      rw [List.filter_eq_nil_iff] at hempty
      exact hempty w hw hnames
    | some v =>
      have hv := (List.mem_filter.mp (List.argmax_mem hmax)).2
      have hstate := hnone v hmax
      have hsome := (namesState_iff.mp hv).2.2
      rw [hstate] at hsome
      cases hsome
  · intro h
    have hempty : orders.filter (fun q => namesState orgId twinId q && true) = [] := by
      rw [List.filter_eq_nil_iff]
      intro w hw
      rw [h w hw]
      exact Bool.false_ne_true
    rw [newestState, hempty]
    rfl

/-- Every executed or noop order has only such orders in front of it. -/
def SettledFirst (orders : List WorkOrder) : Prop :=
  ∀ w ∈ orders, w.status.settled = true → AtHead orders w

theorem in_front (hpos : (orders.map (·.queuePosition)).Nodup) (hsettled : SettledFirst orders) {row q : WorkOrder}
    (hrow : row ∈ orders) (hat : row.status = .processing) (hq : q ∈ orders)
    (hnames : namesState row.orgId row.targetTwinId q = true) : q.queuePosition < row.queuePosition := by
  obtain ⟨hkey, hdone, -⟩ := namesState_iff.mp hnames
  obtain ⟨horg, htwin⟩ := Prod.mk.inj hkey
  by_contra hbehind
  rcases Nat.lt_or_eq_of_le (Nat.not_lt.mp hbehind) with hlt | heq
  · have hset := hsettled q hq hdone row hrow ⟨horg.symm, htwin.symm, hlt⟩
    rw [hat] at hset
    cases hset
  · rw [Table.eq_of_key hpos hq hrow heq.symm, hat] at hdone
    cases hdone

theorem newestState_below (hpos : (orders.map (·.queuePosition)).Nodup) (hsettled : SettledFirst orders)
    {row : WorkOrder} (hrow : row ∈ orders) (hat : row.status = .processing) :
    newestState orders row.orgId row.targetTwinId (· < row.queuePosition) =
      newestState orders row.orgId row.targetTwinId fun _ => true := by
  rw [newestState, newestState]
  congr 2
  refine List.filter_congr fun q hq => ?_
  cases hnames : namesState row.orgId row.targetTwinId q with
  | false => rfl
  | true =>
    rw [Bool.true_and, Bool.true_and]
    exact decide_eq_true (in_front hpos hsettled hrow hat hq hnames)

theorem learn_apply (known : Uuid × Uuid → Option String) (key k : Uuid × Uuid) (state : Option String) :
    learn known key state k = if k = key then state.or (known k) else known k := by
  cases state with
  | none =>
    rw [Option.none_or, ite_self]
    rfl
  | some x =>
    by_cases hk : k = key
    · rw [if_pos hk, hk]
      exact setAt_same known key (some x)
    · rw [if_neg hk]
      exact setAt_other known (some x) hk

theorem newestState_settle (hids : (orders.map (·.id)).Nodup) (hpos : (orders.map (·.queuePosition)).Nodup)
    (hsettled : SettledFirst orders) {p : WorkOrder → Bool} {f : WorkOrder → WorkOrder}
    (hpos' : ((Table.update p f orders).map (·.queuePosition)).Nodup)
    {state : WorkOrder → Option String} (hkey : ∀ w, (f w).key = w.key)
    (hset : ∀ w, (f w).status.settled = true) (hstate : ∀ w, (f w).targetState = state w)
    (hat : ∀ w ∈ orders, p w = true → w.status = .processing)
    (hone : ∀ w ∈ orders, ∀ v ∈ orders, p w = true → p v = true → w.id = v.id) (known : Uuid × Uuid → Option String)
    {twin : CanonicalTwin} (hforce : stateInForce orders twin = known (twin.orgId, twin.id)) :
    stateInForce (Table.update p f orders) twin =
      (match orders.find? p with
        | some row => learn known (WorkOrder.twinKey row) (state row)
        | none => known) (twin.orgId, twin.id) := by
  cases hfind : orders.find? p with
  | none =>
    have hsame : Table.update p f orders = orders :=
      Table.update_none fun w hw => Bool.eq_false_iff.mpr (List.find?_eq_none.mp hfind w hw)
    rw [hsame]
    exact hforce
  | some row =>
    have hrow := List.mem_of_find?_eq_some hfind
    have hp : p row = true := List.find?_some hfind
    have hk := hkey row
    simp only [WorkOrder.key, Prod.mk.injEq] at hk
    obtain ⟨-, horg, htwin, hposition, -⟩ := hk
    have hkept : ∀ w ∈ orders, w.status.settled = true → w ∈ Table.update p f orders := by
      intro w hw hdone
      refine Table.mem_update_of_not hw (Bool.eq_false_iff.mpr fun hpw => ?_)
      rw [hat w hw hpw] at hdone
      cases hdone
    have hfrom : ∀ w ∈ Table.update p f orders, w = f row ∨ w ∈ orders := by
      intro w hw
      rcases Table.mem_update.mp hw with ⟨q, hq, hpq, rfl⟩ | ⟨hw, -⟩
      · exact .inl (congrArg f (Table.eq_of_key hids hq hrow (hone q hq row hrow hpq hp)))
      · exact .inr hw
    dsimp only
    rw [learn_apply]
    by_cases hnew : (twin.orgId, twin.id) = WorkOrder.twinKey row ∧ (state row).isSome = true
    · obtain ⟨htarget, hsome⟩ := hnew
      obtain ⟨x, hx⟩ := Option.isSome_iff_exists.mp hsome
      obtain ⟨htorg, htid⟩ := Prod.mk.inj htarget
      have hnewest : newestState (Table.update p f orders) twin.orgId twin.id (fun _ => true) = some x := by
        refine (newestState_eq_some hpos').mpr ⟨f row, Table.mem_update.mpr (.inl ⟨row, hrow, hp, rfl⟩), ?_,
          (hstate row).trans hx, fun q hq hnames => ?_⟩
        · refine namesState_iff.mpr ⟨?_, hset row, by rw [hstate row]; exact hsome⟩
          exact (Prod.mk.injEq ..).mpr ⟨horg.trans htorg.symm, htwin.trans htid.symm⟩
        · rcases hfrom q hq with rfl | hold
          · exact Nat.le_refl _
          · rw [htorg, htid] at hnames
            rw [hposition]
            exact Nat.le_of_lt (in_front hpos hsettled hrow (hat row hrow hp) hold hnames)
      rw [stateInForce, hnewest, if_pos htarget, hx]
      rfl
    · have hnewest : newestState (Table.update p f orders) twin.orgId twin.id (fun _ => true) =
          newestState orders twin.orgId twin.id fun _ => true := by
        refine newestState_congr hpos hpos' fun w hnames => ?_
        obtain ⟨hwkey, hdone, hsome⟩ := namesState_iff.mp hnames
        constructor
        · intro hw
          rcases hfrom w hw with rfl | hold
          · refine absurd ⟨?_, ?_⟩ hnew
            · rw [← hwkey]
              exact (Prod.mk.injEq ..).mpr ⟨horg, htwin⟩
            · rw [← hstate row]
              exact hsome
          · exact hold
        · exact fun hw => hkept w hw hdone
      rw [stateInForce, hnewest, ← stateInForce, hforce]
      split
      · rename_i htarget
        have hnone : state row = none := by
          rw [← Option.not_isSome_iff_eq_none]
          exact fun hsome => hnew ⟨htarget, hsome⟩
        rw [hnone, Option.none_or]
      · rfl

end

/-! ## What a step of the work orders does -/

section
variable {P : Platform} {s t : QueueState} {a : QueueAction}

/-- The columns of a twin that are read here. -/
def twinView (t : CanonicalTwin) : Uuid × Uuid × Option String := (t.id, t.orgId, t.nativeStatus)

theorem queueStep_twins (hstep : queueStep P s a = some t) : t.db.twins.map twinView = s.db.twins.map twinView := by
  have hsync : ∀ {p : CanonicalTwin → Bool} {state : SyncState},
      (Table.update p (fun t => { t with syncState := state }) s.db.twins).map twinView =
        s.db.twins.map twinView := fun {p state} => Table.update_column twinView (by intro _; rfl) _
  cases a with
  | insert n =>
    simp only [queueStep, insertStep] at hstep
    split at hstep <;> cases hstep
    rfl
  | load | checkBlocked | claim =>
    simp only [queueStep, loadStep, checkBlockedStep, claimStep] at hstep
    split at hstep <;> cases hstep
    rfl
  | translate call translation times =>
    simp only [queueStep, translateStep] at hstep
    split at hstep
    · cases translation with
      | hold =>
        cases hstep
        exact hsync
      | ready =>
        simp only at hstep
        split at hstep <;> cases hstep <;> rfl
    · cases hstep
  | push =>
    simp only [queueStep, pushStep] at hstep
    split at hstep <;> cases hstep
    exact hsync
  | fail call error transactionId targetState times =>
    have hfailed : ∀ (work : WorkOrder) (claimId : String) (inProgress : Bool) (report : WorkOrderReport),
        (failWith s call work claimId inProgress report error times).db.twins.map twinView =
          s.db.twins.map twinView := by
      intro work claimId inProgress report
      cases error with
      | loadShed => rfl
      | _ =>
        simp only [failWith, QueueState.advance, settleFailed]
        split
        · exact hsync
        · rfl
    simp only [queueStep, failStep] at hstep
    split at hstep <;> cases hstep <;> exact hfailed _ _ _ _
  | renew =>
    simp only [queueStep, renewStep] at hstep
    split at hstep <;> cases hstep
    rfl
  | reinject =>
    cases hstep
    exact hsync
  | recover =>
    cases hstep
    rfl

/-- The step ends an order as executed or noop. -/
def settles (P : Platform) : QueueAction → Bool
  | .translate _ (.ready _ targetState fields effective) _ => isNoop P targetState fields effective
  | .push .. => true
  | _ => false

theorem settled_source (hfifo : FifoInv s) (hstep : queueStep P s a = some t) {w : WorkOrder}
    (hw : w ∈ t.db.orders) (hset : w.status.settled = true) :
    w ∈ s.db.orders ∨ settles P a = true ∧ ∃ q ∈ s.db.orders, q.status = .processing ∧ w.key = q.key := by
  have hopen : ∀ {p : WorkOrder → Bool} {f : WorkOrder → WorkOrder},
      w ∈ Table.update p f s.db.orders → (∀ q ∈ s.db.orders, p q = true → (f q).status.settled = false) →
      w ∈ s.db.orders := by
    intro p f hmem hf
    rcases Table.mem_update.mp hmem with ⟨q, hq, hp, rfl⟩ | ⟨hold, -⟩
    · rw [hf q hq hp] at hset
      cases hset
    · exact hold
  have hheld : ∀ {work : WorkOrder} {claimId : String} {f : WorkOrder → WorkOrder},
      w ∈ Table.update (heldBy work claimId) f s.db.orders → (∀ q, (f q).key = q.key) →
      w ∈ s.db.orders ∨ ∃ q ∈ s.db.orders, q.status = .processing ∧ w.key = q.key := by
    intro work claimId f hmem hkey
    rcases Table.mem_update.mp hmem with ⟨q, hq, hp, rfl⟩ | ⟨hold, -⟩
    · exact .inr ⟨q, hq, hfifo.held_processing hq hp, hkey q⟩
    · exact .inl hold
  cases a with
  | insert n =>
    simp only [queueStep, insertStep] at hstep
    split at hstep <;> cases hstep
    simp only [insertWorkOrder] at hw
    split at hw
    · exact .inl hw
    · rcases List.mem_append.mp hw with hold | hnew
      · exact .inl hold
      · rw [List.mem_singleton.mp hnew] at hset
        cases hset
  | load | checkBlocked =>
    simp only [queueStep, loadStep, checkBlockedStep] at hstep
    split at hstep <;> cases hstep
    exact .inl hw
  | claim =>
    simp only [queueStep, claimStep] at hstep
    split at hstep <;> cases hstep
    exact .inl (hopen hw fun _ _ _ => rfl)
  | translate call translation times =>
    simp only [queueStep, translateStep] at hstep
    split at hstep
    · cases translation with
      | hold =>
        cases hstep
        exact .inl (hopen hw fun _ _ _ => rfl)
      | ready transactionId targetState fields effective =>
        simp only at hstep
        split at hstep <;> cases hstep
        · rename_i hnoop
          exact (hheld hw fun _ => rfl).imp id fun hrow => ⟨hnoop, hrow⟩
        · refine .inl (hopen hw fun q hq hp => ?_)
          show q.status.settled = false
          rw [hfifo.held_processing hq hp]
          rfl
    · cases hstep
  | push =>
    simp only [queueStep, pushStep] at hstep
    split at hstep <;> cases hstep
    exact (hheld hw fun _ => rfl).imp id fun hrow => ⟨rfl, hrow⟩
  | fail call error transactionId targetState times =>
    have hfailed : ∀ (work : WorkOrder) (claimId : String) (inProgress : Bool) (report : WorkOrderReport),
        w ∈ (failWith s call work claimId inProgress report error times).db.orders → w ∈ s.db.orders := by
      intro work claimId inProgress report hmem
      cases error with
      | loadShed => exact hopen hmem fun _ _ _ => rfl
      | _ =>
        refine hopen hmem fun q _ _ => ?_
        show WorkOrderStatus.settled (if _ then _ else _) = false
        split <;> rfl
    simp only [queueStep, failStep] at hstep
    split at hstep <;> cases hstep <;> exact .inl (hfailed _ _ _ _ hw)
  | renew =>
    simp only [queueStep, renewStep] at hstep
    split at hstep <;> cases hstep
    refine .inl (hopen hw fun q _ hp => ?_)
    simp only [Bool.and_eq_true, decide_eq_true_eq] at hp
    show q.status.settled = false
    rw [hp.2]
    rfl
  | reinject =>
    cases hstep
    exact .inl (hopen hw fun _ _ _ => rfl)
  | recover =>
    cases hstep
    exact .inl (hopen hw fun _ _ _ => rfl)

theorem SettledFirst.step (h : SettledFirst s.db.orders) (hfifo : FifoInv s) (hstep : queueStep P s a = some t) :
    SettledFirst t.db.orders := by
  intro w hw hset
  have hhead : AtHead s.db.orders w := by
    rcases settled_source hfifo hstep hw hset with hold | ⟨-, q, hq, hat, hkey⟩
    · exact h w hold hset
    · exact (hfifo.served q hq hat).of_key hkey
  rcases hfifo.step_cases hstep with ⟨n, hinsert⟩ | hrewrites
  · have hpos := (hfifo.insert hinsert).issued w hw
    unfold insertStep at hinsert
    split at hinsert <;> cases hinsert
    simp only [insertWorkOrder] at hpos ⊢
    split
    · exact hhead
    · exact hhead.append (Nat.le_of_lt_succ hpos)
  · obtain ⟨p, f, hsound, horders⟩ := hrewrites.orders
    rw [horders]
    exact hsound.atHead hhead

theorem newestState_step (hfifo : FifoInv s) (hstep : queueStep P s a = some t) (hnot : settles P a = false)
    (orgId twinId : Uuid) :
    newestState t.db.orders orgId twinId (fun _ => true) =
      newestState s.db.orders orgId twinId fun _ => true := by
  refine newestState_congr hfifo.positions (hfifo.step hstep).positions fun w hnames => ?_
  have hset := (namesState_iff.mp hnames).2.1
  constructor
  · intro hw
    rcases settled_source hfifo hstep hw hset with hold | ⟨hsettles, -⟩
    · exact hold
    · rw [hnot] at hsettles
      cases hsettles
  · exact fun hw => hfifo.settled_step hstep hw hset

theorem held_step (hfifo : FifoInv s) (hstep : queueStep P s a = some t) {work : WorkOrder} {claimId : String}
    (hnew : ¬ a.Draws claimId) (hheld : ∃ row ∈ t.db.orders, heldBy work claimId row = true) :
    ∃ row ∈ s.db.orders, heldBy work claimId row = true := by
  obtain ⟨row, hrow, hp⟩ := hheld
  have hclaimed : row.claimedBy = some claimId := by
    simp only [heldBy, Bool.and_eq_true, decide_eq_true_eq] at hp
    exact hp.2
  rcases hfifo.step_cases hstep with ⟨n, hinsert⟩ | hrewrites
  · unfold insertStep at hinsert
    split at hinsert <;> cases hinsert
    simp only [insertWorkOrder] at hrow
    split at hrow
    · exact ⟨row, hrow, hp⟩
    · rcases List.mem_append.mp hrow with hold | hadded
      · exact ⟨row, hold, hp⟩
      · rw [List.mem_singleton.mp hadded] at hclaimed
        cases hclaimed
  · obtain ⟨p, f, hsound, horders⟩ := hrewrites.orders
    rw [horders] at hrow
    rcases Table.mem_update.mp hrow with ⟨q, hq, -, rfl⟩ | ⟨hold, -⟩
    · refine ⟨q, hq, ?_⟩
      have hbefore := (hsound.drawn q claimId hclaimed).resolve_right hnew
      have hk := hsound.key q
      simp only [WorkOrder.key, Prod.mk.injEq] at hk
      simp only [heldBy, Bool.and_eq_true, decide_eq_true_eq] at hp ⊢
      exact ⟨⟨hk.1.symm.trans hp.1.1, hk.2.1.symm.trans hp.1.2⟩, hbefore⟩
    · exact ⟨row, hold, hp⟩

theorem translating_step (hstep : queueStep P s a = some t) {c : Nat} {work : WorkOrder} {claimId : String}
    (hcall : t.calls c = some (.translating work claimId)) :
    s.calls c = some (.translating work claimId) ∨ ∃ dbNow workerNow, a = .claim c claimId dbNow workerNow := by
  rcases calls_step hstep with hsame | ⟨call, stage, hset, hmove⟩
  · rw [hsame] at hcall
    exact .inl hcall
  · rw [hset] at hcall
    by_cases hc : c = call
    · subst hc
      rw [setAt_same] at hcall
      generalize hstage : stage = st at hcall
      cases hmove with
      | loaded | unblocked | returned | translated =>
        subst hstage
        cases hcall
      | @claimed work' claimId' dbNow workerNow ha _ =>
        have hclaim := claimedStage_claim work' claimId'
        rw [hstage, Option.some.inj hcall] at hclaim
        obtain ⟨rfl, rfl⟩ := Prod.mk.inj (Option.some.inj hclaim)
        exact .inr ⟨dbNow, workerNow, ha⟩
    · rw [setAt_other _ _ hc] at hcall
      exact .inl hcall

theorem claim_step (hstep : queueStep P s a = some t) {c : Nat} {work : WorkOrder} {claimId : String}
    (hcall : (t.calls c).bind Stage.claim? = some (work, claimId)) :
    (s.calls c).bind Stage.claim? = some (work, claimId) ∨ a.Draws claimId := by
  rcases calls_step hstep with hsame | ⟨call, stage, hset, hmove⟩
  · rw [hsame] at hcall
    exact .inl hcall
  · rw [hset] at hcall
    by_cases hc : c = call
    · subst hc
      rw [setAt_same, Option.bind_some] at hcall
      cases hmove with
      | loaded | unblocked | returned => cases hcall
      | claimed ha _ =>
        rw [claimedStage_claim] at hcall
        obtain ⟨rfl, rfl⟩ := Prod.mk.inj (Option.some.inj hcall)
        rw [ha]
        exact .inr rfl
      | translated hold =>
        rw [hold]
        exact .inl hcall
    · rw [setAt_other _ _ hc] at hcall
      exact .inl hcall

theorem order_source (hfifo : FifoInv s) (hstep : queueStep P s a = some t) {w : WorkOrder}
    (hw : w ∈ t.db.orders) :
    (∃ q ∈ s.db.orders, q.key = w.key) ∨ ∃ n, a = .insert n ∧ w.targetTwinId = n.targetTwinId := by
  by_cases hnot : ∀ n, a ≠ .insert n
  · obtain ⟨p, f, hsound, horders⟩ := (hfifo.step_rewrites hnot hstep).orders
    rw [horders] at hw
    rcases Table.mem_update.mp hw with ⟨q, hq, -, rfl⟩ | ⟨hold, -⟩
    · exact .inl ⟨q, hq, (hsound.key q).symm⟩
    · exact .inl ⟨w, hold, rfl⟩
  · obtain ⟨n, hn⟩ := not_forall_not.mp hnot
    rw [hn] at hstep
    simp only [queueStep, insertStep] at hstep
    split at hstep <;> cases hstep
    simp only [insertWorkOrder] at hw
    split at hw
    · exact .inl ⟨w, hw, rfl⟩
    · rcases List.mem_append.mp hw with hold | hadded
      · exact .inl ⟨w, hold, rfl⟩
      · rw [List.mem_singleton.mp hadded]
        exact .inr ⟨n, hn, rfl⟩

end

section
variable {P : Platform} {s t : TargetState}

structure TargetInv (s : TargetState) : Prop where
  fifo : FifoInv s.connectors.queue
  claims : ClaimsKnown s.connectors.queue
  first : SettledFirst s.connectors.queue.db.orders
  ids : (s.connectors.queue.db.twins.map (·.id)).Nodup
  targets : ∀ w ∈ s.connectors.queue.db.orders, w.targetTwinId ∈ s.connectors.queue.db.twins.map (·.id)
  drawn : ∀ c work claimId, (s.connectors.queue.calls c).bind Stage.claim? = some (work, claimId) →
    claimId ∈ s.claimIds

theorem TargetInv.start (nodes : List SyncNode) (connectors : List ConnectorRecord) :
    TargetInv (.start nodes connectors) where
  fifo := fifoInv_empty []
  claims c work claimId h := by cases h
  first w hw := by cases hw
  ids := List.nodup_nil
  targets w hw := by cases hw
  drawn c work claimId h := by cases h

theorem ids_of_view {twins twins' : List CanonicalTwin} (h : twins'.map twinView = twins.map twinView) :
    twins'.map (·.id) = twins.map (·.id) := by
  have hids := congrArg (List.map Prod.fst) h
  rw [List.map_map, List.map_map] at hids
  exact hids

theorem TargetInv.queue (h : TargetInv s) {b : QueueAction}
    (hb : queueStep P s.connectors.queue b = some t.connectors.queue)
    (hinsert : ∀ n, b = .insert n → n.targetTwinId ∈ s.connectors.queue.db.twins.map (·.id))
    (hold : ∀ id ∈ s.claimIds, id ∈ t.claimIds) (hnew : ∀ id, b.Draws id → id ∈ t.claimIds) : TargetInv t where
  fifo := h.fifo.step hb
  claims := h.claims.step h.fifo hb
  first := h.first.step h.fifo hb
  ids := by
    rw [ids_of_view (queueStep_twins hb)]
    exact h.ids
  targets w hw := by
    rw [ids_of_view (queueStep_twins hb)]
    rcases order_source h.fifo hb hw with ⟨q, hq, hkey⟩ | ⟨n, hn, htarget⟩
    · rw [← show q.targetTwinId = w.targetTwinId from congrArg (·.2.2.1) hkey]
      exact h.targets q hq
    · rw [htarget]
      exact hinsert n hn
  drawn c work claimId hcall := by
    rcases claim_step hb hcall with hbefore | hdraws
    · exact hold claimId (h.drawn c work claimId hbefore)
    · exact hnew claimId hdraws

end

/-! ## Frames -/

section
variable {P : Platform} {s t : TargetState}

theorem view_of_mem {twins twins' : List CanonicalTwin} (h : twins'.map twinView = twins.map twinView)
    {u : CanonicalTwin} (hu : u ∈ twins') : ∃ v ∈ twins, v.id = u.id ∧ v.orgId = u.orgId ∧ v.nativeStatus = u.nativeStatus := by
  have hview : twinView u ∈ twins.map twinView := by
    rw [← h]
    exact List.mem_map_of_mem hu
  obtain ⟨v, hv, hvu⟩ := List.mem_map.mp hview
  simp only [twinView, Prod.mk.injEq] at hvu
  exact ⟨v, hv, hvu.1, hvu.2.1, hvu.2.2⟩

theorem Current.frame (h : Current s)
    (hview : t.connectors.queue.db.twins.map twinView = s.connectors.queue.db.twins.map twinView)
    (hnewest : ∀ orgId twinId, newestState t.connectors.queue.db.orders orgId twinId (fun _ => true) =
      newestState s.connectors.queue.db.orders orgId twinId fun _ => true)
    (hknown : t.known = s.known) (hreads : ∀ key target, HasRead t key target → HasRead s key target) :
    Current t where
  query u hu := by
    obtain ⟨v, hv, hid, horg, hstatus⟩ := view_of_mem hview hu
    rw [hknown, stateInForce, hnewest, ← hid, ← horg, ← hstatus]
    exact h.query v hv
  read key target hread := by
    rw [hknown]
    exact h.read key target (hreads key target hread)

theorem hasRead_step (hinv : TargetInv s) {b : QueueAction}
    (hb : queueStep P s.connectors.queue b = some t.connectors.queue)
    (hfresh : ∀ id, b.Draws id → id ∉ s.claimIds)
    (hreads : t.reads = readsAfter s (.order b)) {key : Uuid × Uuid} {target : TargetRead} (h : HasRead t key target) :
    HasRead s key target := by
  obtain ⟨call, work, claimId, hcall, hread, hkey, hheld⟩ := h
  rw [hreads] at hread
  rcases translating_step hb hcall with hbefore | ⟨dbNow, workerNow, rfl⟩
  · have hid : claimId ∈ s.claimIds := hinv.drawn call work claimId (by rw [hbefore]; rfl)
    refine ⟨call, work, claimId, hbefore, ?_, hkey,
      held_step hinv.fifo hb (fun hdraws => hfresh claimId hdraws hid) hheld⟩
    cases b with
    | claim c id dbNow workerNow =>
      simp only [readsAfter] at hread
      by_cases hc : call = c
      · rw [hc, setAt_same] at hread
        cases hread
      · rwa [setAt_other _ _ hc] at hread
    | _ => exact hread
  · simp only [readsAfter, setAt_same] at hread
    cases hread

theorem HasRead.row (hinv : TargetInv s) {key : Uuid × Uuid} {target : TargetRead} (h : HasRead s key target) :
    ∃ row ∈ s.connectors.queue.db.orders, row.status = .processing ∧ WorkOrder.twinKey row = key := by
  obtain ⟨call, work, claimId, hcall, -, rfl, row, hrow, hheld⟩ := h
  obtain ⟨htwin, horg⟩ := hinv.claims.held_target hinv.fifo (c := call) (by rw [hcall]; rfl) hrow hheld
  exact ⟨row, hrow, hinv.fifo.held_processing hrow hheld, (Prod.mk.injEq ..).mpr ⟨horg, htwin⟩⟩

theorem Current.settle (hinv : TargetInv s) (hinv' : TargetInv t) (h : Current s) (work : WorkOrder) (claimId : String)
    {f : WorkOrder → WorkOrder} (state : WorkOrder → Option String)
    (horders : t.connectors.queue.db.orders =
      Table.update (heldBy work claimId) f s.connectors.queue.db.orders)
    (hkey : ∀ w, (f w).key = w.key) (hset : ∀ w, (f w).status.settled = true) (hstate : ∀ w, (f w).targetState = state w)
    (hview : t.connectors.queue.db.twins.map twinView = s.connectors.queue.db.twins.map twinView)
    (hknown : t.known = learnSettled s work claimId state)
    (hreads : ∀ key target, HasRead t key target → HasRead s key target) : Current t where
  query u hu := by
    obtain ⟨v, hv, hid, horg, hstatus⟩ := view_of_mem hview hu
    have hforce : stateInForce s.connectors.queue.db.orders u = s.known (u.orgId, u.id) := by
      rw [stateInForce, ← hid, ← horg, ← hstatus]
      exact h.query v hv
    have hpos := hinv'.fifo.positions
    rw [horders] at hpos ⊢
    rw [hknown, learnSettled]
    refine newestState_settle hinv.fifo.ids hinv.fifo.positions hinv.first hpos hkey hset hstate
      (fun w hw hp => hinv.fifo.held_processing hw hp) (fun w _ v _ hp hq => ?_) s.known hforce
    simp only [heldBy, Bool.and_eq_true, decide_eq_true_eq] at hp hq
    exact hp.1.1.trans hq.1.1.symm
  read key target hread := by
    have hbefore := hreads key target hread
    rw [hknown, learnSettled]
    cases hfind : s.connectors.queue.db.orders.find? (heldBy work claimId) with
    | none => exact h.read key target hbefore
    | some row =>
      have hrow := List.mem_of_find?_eq_some hfind
      have hp : heldBy work claimId row = true := List.find?_some hfind
      dsimp only
      rw [learn_apply]
      by_cases hk : key = WorkOrder.twinKey row
      · -- the order was the only one of its twin at work, and now none is
        obtain ⟨row', hrow', hat, htwin⟩ := hread.row hinv'
        rw [horders] at hrow'
        rcases Table.mem_update.mp hrow' with ⟨q, -, -, rfl⟩ | ⟨hold, hnot⟩
        · have hdone := hset q
          rw [hat] at hdone
          cases hdone
        · obtain ⟨horg, htarget⟩ := Prod.mk.inj (htwin.trans hk)
          have hsame := hinv.fifo.one_processing hold hrow hat (hinv.fifo.held_processing hrow hp) horg htarget
          rw [hsame, hp] at hnot
          cases hnot
      · rw [if_neg hk]
        exact h.read key target hbefore

end

/-! ## Records -/

section
variable {P : Platform}

theorem connectorStep_twins {s t : ConnectorState} {a : ConnectorAction} (hnot : ∀ call ids, a ≠ .process call ids)
    (hstep : connectorStep P s a = some t) : t.queue.db.twins.map twinView = s.queue.db.twins.map twinView := by
  cases a with
  | order b =>
    simp only [connectorStep, Option.map_eq_some_iff] at hstep
    obtain ⟨q, hq, rfl⟩ := hstep
    exact queueStep_twins hq
  | process call ids => exact absurd rfl (hnot call ids)
  | accept | claimEntry | complete =>
    simp only [connectorStep, acceptStep, claimEntryStep, completeStep] at hstep
    split at hstep <;> cases hstep
    rfl
  | failEntry =>
    simp only [connectorStep, failEntryStep] at hstep
    split at hstep
    · split at hstep <;> cases hstep
      · rfl
      · split
        · exact Table.update_column twinView (by intro _; rfl) _
        · rfl
    · cases hstep
  | reinjectEntry orgId connector entryId twinId payload history =>
    cases hstep
    cases twinId with
    | none => rfl
    | some id => exact Table.update_column twinView (by intro _; rfl) _
  | recoverEntries =>
    cases hstep
    rfl

variable {ids : FreshIds} {s t : TargetState}

theorem processRecord_prior {orgId : Uuid} {connector : ConnectorRecord}
    {record : ExternalRecordPayload} {tables after : IngestState} {outcome : RecordOutcome}
    {event : Option TwinEvent} {prior : CanonicalTwin}
    (h : processRecord P orgId connector ids record tables = .ok (outcome, after, event))
    (hprior : tables.twins.find? (twinKeyMatches orgId connector record) = some prior) :
    if isStale prior record then after.twins = tables.twins
    else if prior.contentHash = some (contentHash P record) then after.twins = tables.twins
    else ∃ nodeId, after.twins = Table.update (fun t => t.id = prior.id && t.orgId = orgId)
      (applyRecord P record nodeId) tables.twins := by
  simp only [processRecord, hprior] at h
  split at h
  · cases h
  split at h
  · cases h
  split at h
  · rename_i hstale
    cases h
    rw [if_pos hstale]
  rename_i hstale
  rw [if_neg hstale]
  split at h
  · rename_i hhash
    cases h
    rw [if_pos hhash]
  rename_i hhash
  rw [if_neg hhash]
  split at h
  · cases h
  · cases h
    exact ⟨_, rfl⟩

theorem processRecord_new {orgId : Uuid} {connector : ConnectorRecord}
    {record : ExternalRecordPayload} {tables after : IngestState} {outcome : RecordOutcome}
    {event : Option TwinEvent} (h : processRecord P orgId connector ids record tables = .ok (outcome, after, event))
    (hnone : tables.twins.find? (twinKeyMatches orgId connector record) = none) :
    ∃ nodeId, after.twins = tables.twins ++ [newTwin P orgId connector record ids.twin nodeId] := by
  rcases processRecord_twins h with hsame | ⟨prior, -, hprior, -⟩ | ⟨nodeId, -, hnew⟩
  · simp only [processRecord, hnone] at h
    split at h
    · cases h
    split at h <;> cases h
    exact ⟨_, rfl⟩
  · rw [hnone] at hprior
    cases hprior
  · exact ⟨nodeId, hnew⟩

theorem process_step {call : Nat} (hstep : targetStep P s (.connector (.process call ids)) = some t) :
    ids.twin ∉ s.connectors.queue.db.twins.map (·.id) ∧
      t.connectors.queue.db.orders = s.connectors.queue.db.orders ∧
      t.connectors.queue.calls = s.connectors.queue.calls ∧
      t.connectors.queue.db.nextPosition = s.connectors.queue.db.nextPosition ∧
      t.reads = s.reads ∧ t.claimIds = s.claimIds ∧ t.known = knownAfter s (.process call ids) ∧
      ∃ orgId connector job claimId outcome after event,
        s.connectors.ingesting call = some (.claimed orgId connector job claimId) ∧
        processRecord P orgId connector ids job.payload s.connectors.tables = .ok (outcome, after, event) ∧
        t.connectors.queue.db.twins = after.twins := by
  simp only [targetStep] at hstep
  split at hstep
  · rename_i hadmits
    obtain ⟨c, hc, rfl⟩ := Option.map_eq_some_iff.mp hstep
    simp only [connectorStep, processStep] at hc
    split at hc
    · rename_i orgId connector job claimId hcall
      split at hc
      · rename_i outcome after event hok
        cases hc
        refine ⟨?_, rfl, rfl, rfl, rfl, rfl, rfl, orgId, connector, job, claimId, outcome, after, event, hcall,
          hok, rfl⟩
        intro hmem
        obtain ⟨u, hu, hid⟩ := List.mem_map.mp hmem
        simp only [admits, Bool.not_eq_true', List.any_eq_false, beq_iff_eq] at hadmits
        exact hadmits u hu hid
      · cases hc
    · cases hc
  · cases hstep

theorem TargetInv.of_twins (h : TargetInv s) (horders : t.connectors.queue.db.orders = s.connectors.queue.db.orders)
    (hcalls : t.connectors.queue.calls = s.connectors.queue.calls)
    (hnext : t.connectors.queue.db.nextPosition = s.connectors.queue.db.nextPosition)
    (hclaims : t.claimIds = s.claimIds) (hids : (t.connectors.queue.db.twins.map (·.id)).Nodup)
    (hkept : ∀ id ∈ s.connectors.queue.db.twins.map (·.id), id ∈ t.connectors.queue.db.twins.map (·.id)) :
    TargetInv t where
  fifo := SameOrders.fifo ⟨horders, hnext, hcalls⟩ h.fifo
  claims := by
    rw [ClaimsKnown, horders, hcalls]
    exact h.claims
  first := by
    rw [horders]
    exact h.first
  ids := hids
  targets w hw := by
    rw [horders] at hw
    exact hkept _ (h.targets w hw)
  drawn := by
    rw [hcalls, hclaims]
    exact h.drawn

theorem applyRecord_ids (record : ExternalRecordPayload) (nodeId : Uuid) (p : CanonicalTwin → Bool)
    (twins : List CanonicalTwin) :
    (Table.update p (applyRecord P record nodeId) twins).map (·.id) = twins.map (·.id) :=
  Table.update_column _ (by intro _; rfl) _

theorem TargetInv.process (h : TargetInv s) {call : Nat}
    (hstep : targetStep P s (.connector (.process call ids)) = some t) : TargetInv t := by
  obtain ⟨hfresh, horders, hcalls, hnext, -, hclaims, -, orgId, connector, job, claimId, outcome, after, event,
    -, hok, htwins⟩ := process_step hstep
  rcases processRecord_twins hok with hsame | ⟨prior, nodeId, -, -, hset⟩ | ⟨nodeId, -, hset⟩
  · refine h.of_twins horders hcalls hnext hclaims ?_ ?_ <;> rw [htwins, hsame]
    · exact h.ids
    · exact fun _ hid => hid
  · refine h.of_twins horders hcalls hnext hclaims ?_ ?_ <;> rw [htwins, hset, applyRecord_ids]
    · exact h.ids
    · exact fun _ hid => hid
  · refine h.of_twins horders hcalls hnext hclaims ?_ ?_ <;> rw [htwins, hset]
    · exact Table.nodup_insert h.ids fun u hu heq => hfresh (List.mem_map.mpr ⟨u, hu, heq⟩)
    · intro id hid
      rw [List.map_append]
      exact List.mem_append_left _ hid

theorem TargetInv.step (h : TargetInv s) {a : TargetAction} (hstep : targetStep P s a = some t) : TargetInv t := by
  cases a with
  | connector a =>
    by_cases hprocess : ∃ call ids, a = .process call ids
    · obtain ⟨call, ids, rfl⟩ := hprocess
      exact h.process hstep
    · simp only [targetStep] at hstep
      split at hstep
      · rename_i hadmits
        obtain ⟨c, hc, rfl⟩ := Option.map_eq_some_iff.mp hstep
        have hids := ids_of_view (connectorStep_twins (fun call ids ha => hprocess ⟨call, ids, ha⟩) hc)
        cases a with
        | order b =>
          simp only [connectorStep, Option.map_eq_some_iff] at hc
          obtain ⟨q, hb, rfl⟩ := hc
          refine h.queue hb (fun n hn => ?_) (fun id hid => ?_) (fun id hdraws => ?_)
          · rw [hn] at hadmits
            simp only [admits, List.any_eq_true, beq_iff_eq] at hadmits
            exact List.mem_map.mpr hadmits
          · cases b with
            | claim => exact List.mem_cons_of_mem _ hid
            | _ => exact hid
          · cases b with
            | claim =>
              obtain rfl : id = _ := hdraws
              exact List.mem_cons_self
            | _ => exact hdraws.elim
        | _ =>
          rcases connectorStep_orders hc with ⟨b, hb, -⟩ | hsame
          · cases hb
          · refine h.of_twins hsame.orders hsame.calls hsame.nextPosition rfl ?_ ?_
            · rw [hids]
              exact h.ids
            · rw [hids]
              exact fun _ hid => hid
      · cases hstep
  | readTarget call =>
    simp only [targetStep] at hstep
    split at hstep
    · obtain ⟨target, -, rfl⟩ := Option.map_eq_some_iff.mp hstep
      exact ⟨h.fifo, h.claims, h.first, h.ids, h.targets, h.drawn⟩
    · cases hstep
  | translate call services times =>
    simp only [targetStep, translateTargetStep] at hstep
    split at hstep
    · split at hstep
      · obtain ⟨q, hq, rfl⟩ := Option.map_eq_some_iff.mp hstep
        exact h.queue hq (by rintro _ ⟨⟩) (fun _ hid => hid) (fun _ hdraws => hdraws.elim)
      · cases hstep
    · cases hstep

end

/-! ## Which steps keep the state current -/

section
variable {P : Platform} {s t : TargetState}

theorem current_record (hinv : TargetInv s) (h : Current s) {orgId nodeId : Uuid} {prior : CanonicalTwin}
    {record : ExternalRecordPayload} (hprior : prior ∈ s.connectors.queue.db.twins) (horg : prior.orgId = orgId)
    (horders : t.connectors.queue.db.orders = s.connectors.queue.db.orders)
    (hreads : ∀ key target, HasRead t key target ↔ HasRead s key target)
    (hknown : t.known = learn s.known (orgId, prior.id) (some record.status))
    (htwins : t.connectors.queue.db.twins =
      if prior.contentHash = some (contentHash P record) then s.connectors.queue.db.twins
      else Table.update (fun u => u.id = prior.id && u.orgId = orgId) (applyRecord P record nodeId)
        s.connectors.queue.db.twins) :
    Current t ↔ s.known (orgId, prior.id) = some record.status ∨
      (newestState s.connectors.queue.db.orders orgId prior.id (fun _ => true) = none ∧
        (∀ target, ¬ HasRead s (orgId, prior.id) target) ∧
        prior.contentHash ≠ some (contentHash P record)) := by
  have hnew : ∀ key, t.known key = if key = (orgId, prior.id) then some record.status else s.known key := by
    intro key
    rw [hknown, learn_apply, Option.some_or]
  have hforce := h.query prior hprior
  rw [horg] at hforce
  constructor
  · intro ht
    by_contra hneither
    obtain ⟨hother, hnot⟩ := not_or.mp hneither
    refine hnot ⟨?_, fun target hread => ?_, fun hhash => ?_⟩
    · cases hnewest : newestState s.connectors.queue.db.orders orgId prior.id (fun _ => true) with
      | none => rfl
      | some x =>
        -- the twin's row is there, with or without the record
        have hrow : ∃ u ∈ t.connectors.queue.db.twins, u.id = prior.id ∧ u.orgId = orgId := by
          rw [htwins]
          split
          · exact ⟨prior, hprior, rfl, horg⟩
          · exact ⟨applyRecord P record nodeId prior,
              Table.mem_update.mpr (.inl ⟨prior, hprior, by simp [horg], rfl⟩), rfl, horg⟩
        obtain ⟨u, hu, huid, huorg⟩ := hrow
        have hafter := ht.query u hu
        rw [stateInForce, horders, huid, huorg, hnewest, hnew, if_pos rfl] at hafter
        rw [stateInForce, horg, hnewest] at hforce
        exact absurd (hforce.symm.trans hafter) hother
    · have hafter := ht.read _ target ((hreads _ target).mpr hread)
      rw [hnew, if_pos rfl] at hafter
      exact hother ((h.read _ target hread).symm.trans hafter)
    · rw [if_pos hhash] at htwins
      have hafter := ht.query prior (by rw [htwins]; exact hprior)
      rw [horders, horg, hnew, if_pos rfl] at hafter
      exact hother (hforce.symm.trans hafter)
  · intro hok
    constructor
    · intro u hu
      rw [stateInForce, horders, hnew]
      by_cases hkey : (u.orgId, u.id) = (orgId, prior.id)
      · obtain ⟨huorg, huid⟩ := Prod.mk.inj hkey
        rw [if_pos hkey, huorg, huid]
        rw [stateInForce, horg] at hforce
        rw [htwins] at hu
        split at hu
        · rename_i hhash
          have hsame : u = prior := Table.eq_of_key hinv.ids hu hprior huid
          rw [hsame]
          rcases hok with hshown | ⟨-, -, hdiffers⟩
          · exact hforce.trans hshown
          · exact absurd hhash hdiffers
        · rcases Table.mem_update.mp hu with ⟨q, -, -, rfl⟩ | ⟨-, hnot⟩
          · rcases hok with hshown | ⟨hnone, -, -⟩
            · rw [hshown] at hforce
              cases hnewest : newestState s.connectors.queue.db.orders orgId prior.id (fun _ => true) with
              | none => rfl
              | some x =>
                rw [hnewest] at hforce
                exact hforce
            · rw [hnone]
              rfl
          · simp [huid, huorg] at hnot
      · rw [if_neg hkey, ← stateInForce]
        refine h.query u ?_
        rw [htwins] at hu
        split at hu
        · exact hu
        · rcases Table.mem_update.mp hu with ⟨q, -, hp, rfl⟩ | ⟨hold, -⟩
          · simp only [Bool.and_eq_true, decide_eq_true_eq] at hp
            exact absurd ((Prod.mk.injEq ..).mpr ⟨hp.2, hp.1⟩) hkey
          · exact hold
    · intro key target hread
      have hbefore := (hreads key target).mp hread
      rw [hnew]
      by_cases hkey : key = (orgId, prior.id)
      · rw [if_pos hkey]
        rw [hkey] at hbefore
        rcases hok with hshown | ⟨-, hnobody, -⟩
        · exact (h.read _ target hbefore).trans hshown
        · exact absurd hbefore (hnobody target)
      · rw [if_neg hkey]
        exact h.read key target hbefore

variable {call : Nat}

theorem current_process (hinv : TargetInv s) (h : Current s) {ids : FreshIds}
    (hstep : targetStep P s (.connector (.process call ids)) = some t) :
    Current t ↔ ShowsKnown P s (.connector (.process call ids)) := by
  obtain ⟨hfresh, horders, hcalls, -, hreads, -, hknown, orgId, connector, job, claimId, outcome, after, event,
    hcall, hok, htwins⟩ := process_step hstep
  have hread : ∀ key target, HasRead t key target ↔ HasRead s key target := by
    intro key target
    simp only [HasRead, horders, hcalls, hreads]
  simp only [knownAfter, shownState, hcall] at hknown
  simp only [ShowsKnown, hcall]
  cases hfind : s.connectors.queue.db.twins.find? (twinKeyMatches orgId connector job.payload) with
  | some prior =>
    simp only [hfind] at hknown
    obtain ⟨horg, -, -, -⟩ := twinKeyMatches_columns.mp (List.find?_some hfind)
    have hmem := List.mem_of_find?_eq_some hfind
    have hoff := processRecord_prior hok hfind
    cases hstale : isStale prior job.payload with
    | true =>
      rw [hstale] at hknown hoff
      refine ⟨fun _ => .inl hstale, fun _ => h.frame ?_ ?_ hknown fun key target => (hread key target).mp⟩
      · rw [htwins, hoff]
        rfl
      · rw [horders]
        exact fun _ _ => rfl
    | false =>
      rw [hstale] at hknown hoff
      have hset : ∃ nodeId, t.connectors.queue.db.twins =
          if prior.contentHash = some (contentHash P job.payload) then s.connectors.queue.db.twins
          else Table.update (fun u => u.id = prior.id && u.orgId = orgId)
            (applyRecord P job.payload nodeId) s.connectors.queue.db.twins := by
        rw [htwins]
        rw [if_neg Bool.false_ne_true] at hoff
        split at hoff
        · rename_i hhash
          exact ⟨0, by rw [if_pos hhash, hoff]; rfl⟩
        · rename_i hhash
          obtain ⟨nodeId, hnode⟩ := hoff
          exact ⟨nodeId, by rw [if_neg hhash, hnode]; rfl⟩
      obtain ⟨nodeId, hset⟩ := hset
      rw [current_record hinv h hmem horg horders hread hknown hset]
      exact ⟨.inr, fun hok => hok.resolve_left (by rw [hstale]; exact Bool.false_ne_true)⟩
  | none =>
    simp only [hfind] at hknown
    refine ⟨fun _ => trivial, fun _ => ?_⟩
    obtain ⟨nodeId, hnew⟩ := processRecord_new hok hfind
    have hother : ∀ key, key.2 ∈ s.connectors.queue.db.twins.map (·.id) → t.known key = s.known key := by
      intro key hkey
      rw [hknown, learn_apply, if_neg]
      intro heq
      rw [heq] at hkey
      exact hfresh hkey
    constructor
    · intro u hu
      rw [htwins, hnew] at hu
      rw [stateInForce, horders]
      rcases List.mem_append.mp hu with hold | hadded
      · rw [hother _ (List.mem_map_of_mem hold)]
        exact h.query u hold
      · -- no order is for a twin that was not there
        obtain rfl := List.mem_singleton.mp hadded
        have hnone : newestState s.connectors.queue.db.orders orgId ids.twin (fun _ => true) = none := by
          refine newestState_eq_none.mpr fun w hw => Bool.eq_false_iff.mpr fun hnames => ?_
          obtain ⟨hkey, -, -⟩ := namesState_iff.mp hnames
          have htarget := hinv.targets w hw
          rw [(Prod.mk.inj hkey).2] at htarget
          exact hfresh htarget
        show (newestState _ orgId ids.twin _).or (some job.payload.status) = t.known (orgId, ids.twin)
        rw [hnone, hknown, learn_apply, if_pos rfl]
        rfl
    · intro key target hkeyread
      have hbefore := (hread key target).mp hkeyread
      obtain ⟨row, hrow, -, hkey⟩ := hbefore.row hinv
      rw [hother key (by rw [← hkey]; exact hinv.targets row hrow)]
      exact h.read key target hbefore

theorem Current.start (nodes : List SyncNode) (connectors : List ConnectorRecord) :
    Current (.start nodes connectors) where
  query t ht := by cases ht
  read key target h := by
    obtain ⟨call, work, claimId, hcall, -⟩ := h
    cases hcall

theorem readTarget_current (hinv : TargetInv s) (h : Current s) {work row : WorkOrder} {target : TargetRead}
    {claimId : String} (hcall : s.connectors.queue.calls call = some (.translating work claimId))
    (hrow : row ∈ s.connectors.queue.db.orders) (hheld : heldBy work claimId row = true)
    (hread : readTarget s.connectors.queue.db work = some target) :
    target.effective = s.known (WorkOrder.twinKey work) := by
  obtain ⟨twin, hfind, rfl⟩ := Option.map_eq_some_iff.mp hread
  have hmem := List.mem_of_find?_eq_some hfind
  have hmatch := List.find?_some hfind
  simp only [Bool.and_eq_true, decide_eq_true_eq] at hmatch
  obtain ⟨hid, horg⟩ := hmatch
  have hquery := h.query twin hmem
  obtain ⟨w, hw, hkey⟩ := hinv.claims call work claimId (by rw [hcall]; rfl)
  have hsame : row = w := by
    simp only [heldBy, Bool.and_eq_true, decide_eq_true_eq] at hheld
    exact Table.eq_of_key hinv.fifo.ids hrow hw (hheld.1.1.trans (congrArg (·.1) hkey).symm)
  subst hsame
  simp only [WorkOrder.key, Prod.mk.injEq] at hkey
  obtain ⟨-, hworg, hwtwin, hposition, -⟩ := hkey
  have hbelow := newestState_below hinv.fifo.positions hinv.first hrow (hinv.fifo.held_processing hrow hheld)
  rw [hworg, hwtwin, hposition] at hbelow
  show (newestState _ twin.orgId twin.id _).or _ = s.known (work.orgId, work.targetTwinId)
  rw [hid, horg, hbelow, ← hid, ← horg]
  exact hquery

theorem current_readTarget (hinv : TargetInv s) (h : Current s)
    (hstep : targetStep P s (.readTarget call) = some t) : Current t := by
  simp only [targetStep] at hstep
  split at hstep
  · rename_i work claimId hcall hnone
    obtain ⟨target, hread, rfl⟩ := Option.map_eq_some_iff.mp hstep
    refine ⟨h.query, fun key target' hkey => ?_⟩
    obtain ⟨c, work', claimId', hc, hr, rfl, row, hrow, hheld⟩ := hkey
    by_cases hsame : c = call
    · subst hsame
      have hstage : work' = work ∧ claimId' = claimId := by
        have heq := hc.symm.trans hcall
        cases heq
        exact ⟨rfl, rfl⟩
      obtain ⟨rfl, rfl⟩ := hstage
      simp only [setAt_same, Option.some.injEq] at hr
      rw [← hr]
      exact readTarget_current hinv h hcall hrow hheld hread
    · simp only [setAt_other _ _ hsame] at hr
      exact h.read _ target' ⟨c, work', claimId', hc, hr, rfl, row, hrow, hheld⟩
  · cases hstep

theorem current_translate (hinv : TargetInv s) (h : Current s) {services : TranslationServices}
    {times : AttemptTimes} (hstep : targetStep P s (.translate call services times) = some t) : Current t := by
  have hinv' := hinv.step hstep
  simp only [targetStep, translateTargetStep] at hstep
  split at hstep
  · rename_i work claimId target hcall hread
    split at hstep
    · rename_i translation htranslation
      obtain ⟨q, hq, rfl⟩ := Option.map_eq_some_iff.mp hstep
      have hview := queueStep_twins hq
      cases hsettles : settles P (.translate call translation times) with
      | false =>
        refine h.frame hview (newestState_step hinv.fifo hq hsettles) ?_
          fun key target' hread => hasRead_step (b := .translate call translation times) hinv hq
              (fun _ hdraws => False.elim hdraws) (by rfl) hread
        cases translation with
        | hold => rfl
        | ready transactionId targetState fields effective =>
          show (if isNoop P targetState fields effective then _ else s.known) = s.known
          rw [show isNoop P targetState fields effective = false from hsettles]
          rfl
      | true =>
        cases translation with
        | hold => cases hsettles
        | ready transactionId targetState fields effective =>
          have hnoop : isNoop P targetState fields effective = true := hsettles
          have horders : q.db.orders = (settleNoop s.connectors.queue.db work claimId transactionId
              targetState fields (attemptOf work times .completed none)).orders := by
            simp only [queueStep, translateStep, hcall, hnoop, if_true] at hq
            rw [← Option.some.inj hq]
            rfl
          refine h.settle hinv hinv' work claimId (fun _ => targetState) horders (fun _ => rfl) (fun _ => rfl)
            (fun _ => rfl) hview ?_ fun key target' hread => hasRead_step (b := .translate call (.ready transactionId targetState fields effective) times) hinv hq
            (fun _ hdraws => False.elim hdraws) (by rfl) hread
          show (if isNoop P targetState fields effective then _ else s.known) = _
          rw [if_pos hnoop]
    · cases hstep
  · cases hstep

theorem current_push (hinv : TargetInv s) (h : Current s) {provider message : String} {times : AttemptTimes}
    (hstep : targetStep P s (.connector (.order (.push call provider message times))) = some t) : Current t := by
  have hinv' := hinv.step hstep
  simp only [targetStep, admits, if_true, connectorStep] at hstep
  obtain ⟨c, hc, rfl⟩ := Option.map_eq_some_iff.mp hstep
  obtain ⟨q, hq, rfl⟩ := Option.map_eq_some_iff.mp hc
  have hpushed := hq
  simp only [queueStep, pushStep] at hq
  split at hq
  · rename_i work claimId transactionId targetState fields hcall
    refine h.settle hinv hinv' work claimId (·.targetState) ?_
      (f := fun w => { w.release .executed with
        executedAt := some times.completedAt, lastError := none, nextAttemptAt := none
        attemptHistory := work.attemptHistory ++ [attemptOf work times .executed none] })
      (fun _ => rfl) (fun _ => rfl) (fun _ => rfl) (queueStep_twins hpushed) ?_
      fun key target hread => hasRead_step (b := .push call provider message times) hinv hpushed
        (fun _ hdraws => False.elim hdraws) (by rfl) hread
    · rw [← Option.some.inj hq]
      rfl
    · simp only [knownAfter, hcall]
  · cases hq

theorem current_step (hinv : TargetInv s) (h : Current s) {a : TargetAction}
    (hstep : targetStep P s a = some t) : Current t ↔ ShowsKnown P s a := by
  cases a with
  | readTarget call => exact ⟨fun _ => trivial, fun _ => current_readTarget hinv h hstep⟩
  | translate call services times => exact ⟨fun _ => trivial, fun _ => current_translate hinv h hstep⟩
  | connector a =>
    cases a with
    | process call ids => exact current_process hinv h hstep
    | order b =>
      refine ⟨fun _ => trivial, fun _ => ?_⟩
      by_cases hpush : ∃ call provider message times, b = .push call provider message times
      · obtain ⟨call, provider, message, times, rfl⟩ := hpush
        exact current_push hinv h hstep
      · simp only [targetStep] at hstep
        split at hstep
        · rename_i hadmits
          simp only [connectorStep] at hstep
          obtain ⟨c, hc, rfl⟩ := Option.map_eq_some_iff.mp hstep
          obtain ⟨q, hq, rfl⟩ := Option.map_eq_some_iff.mp hc
          have hnot : settles P b = false := by
            cases b with
            | translate => cases hadmits
            | push call provider message times => exact absurd ⟨call, provider, message, times, rfl⟩ hpush
            | _ => rfl
          refine h.frame (queueStep_twins hq) (newestState_step hinv.fifo hq hnot) ?_
            fun key target => hasRead_step hinv hq (fun id hdraws => ?_) rfl
          · cases b with
            | push call provider message times => exact absurd ⟨call, provider, message, times, rfl⟩ hpush
            | _ => rfl
          · cases b with
            | claim =>
              obtain rfl : id = _ := hdraws
              simpa [admits] using hadmits
            | _ => exact hdraws.elim
        · cases hstep
    | _ =>
      refine ⟨fun _ => trivial, fun _ => ?_⟩
      simp only [targetStep] at hstep
      split at hstep
      · obtain ⟨c, hc, rfl⟩ := Option.map_eq_some_iff.mp hstep
        have hview := connectorStep_twins (by intro call ids ha; cases ha) hc
        rcases connectorStep_orders hc with ⟨b, hb, -⟩ | hsame
        · cases hb
        · refine h.frame hview (fun orgId twinId => ?_) rfl fun key target hread => ?_
          · rw [show c.queue.db.orders = _ from hsame.orders]
          · obtain ⟨call, work, claimId, hcall, hr, hkey, hheld⟩ := hread
            rw [hsame.calls] at hcall
            rw [hsame.orders] at hheld
            exact ⟨call, work, claimId, hcall, hr, hkey, hheld⟩
      · cases hstep

theorem translateWork_effective {services : TranslationServices} {work : WorkOrder} {target : TargetRead}
    {transactionId : Option Uuid} {targetState effective : Option String} {fields : Fields}
    (h : translateWork services work target = .ok (.ready transactionId targetState fields effective)) :
    effective = target.effective := by
  simp only [translateWork] at h
  cases hpart : translateStatePart services work target (services.translateFields
      (fieldsAt work.sourcePayload "fields") (orNull (textAt work.sourcePayload "state")) (orNull target.effective)) with
  | error message =>
    rw [hpart] at h
    cases h
  | ok part =>
    rw [hpart] at h
    rcases part with ⟨transactionId', reason, message⟩ | ⟨transactionId', targetState', fields'⟩
    · cases h
    · change (match services.translateFields _ _ _ with | some (.held _) => _ | some (.ready _) => _ | none => _) =
        _ at h
      split at h <;> cases h <;> rfl

theorem comparesKnown (h : Current s) (a : TargetAction) : ComparesKnown P s a := by
  cases a with
  | translate call services times =>
    intro work claimId target hcall hread hheld
    have hknown := h.read _ target ⟨call, work, claimId, hcall, hread, rfl, hheld⟩
    refine ⟨hknown, fun transactionId targetState fields effective htranslation hnoop htruthy => ?_⟩
    rw [← hknown, ← translateWork_effective htranslation]
    simp only [isNoop, htruthy, Bool.not_true, Bool.false_or, Bool.and_eq_true] at hnoop
    exact hnoop.1
  | connector | readTarget => trivial

/-- **The state that orders are compared with is the last one that is known**,
in every state of a run exactly if no record shows another state once an order
has named one, or a call has read it; then every comparison of such a run, and
every noop, is with the state that is known. -/
theorem effective_state_iff (P : Platform) (nodes : List SyncNode) (connectors : List ConnectorRecord)
    (acts : List TargetAction) (hrun : (targetSystem P).run (.start nodes connectors) acts = some t) :
    ((targetSystem P).Throughout Current (.start nodes connectors) acts ↔
        (targetSystem P).Along (ShowsKnown P) (.start nodes connectors) acts) ∧
      ((targetSystem P).Along (ShowsKnown P) (.start nodes connectors) acts →
        (targetSystem P).Along (ComparesKnown P) (.start nodes connectors) acts) := by
  have hiff : (targetSystem P).Throughout Current (.start nodes connectors) acts ↔
      (targetSystem P).Along (ShowsKnown P) (.start nodes connectors) acts :=
    (targetSystem P).throughout_iff (P := TargetInv) (fun h hstep => h.step hstep)
      (fun hinv h hstep => current_step hinv h hstep) (.start nodes connectors) (.start nodes connectors) hrun
  refine ⟨hiff, fun hall => ?_⟩
  exact (targetSystem P).along_of_throughout (fun h => comparesKnown h _) (hiff.mpr hall)

end

/-! ## A target that is reopened -/

def shownRecord (status : String) (updatedAt : Millis) : ExternalRecordPayload where
  externalId := "INC1"
  artifactType := "incident"
  title := "Printer"
  nativeKey := none
  nativeUrl := none
  status := status
  fields := []
  fieldAuthority := none
  updatedAt := updatedAt
  updatedBy := none

def ingests (call : Nat) (entryId : Uuid) (record : ExternalRecordPayload) (ids : FreshIds) : List TargetAction :=
  [.connector (.accept 1 editedConnector "incident" ⟨entryId, toString call, none, record⟩),
    .connector (.claimEntry call 1 editedConnector entryId "w:1" record.updatedAt record.updatedAt),
    .connector (.process call ids)]

/-- Jira's issue is done: the incident is to be closed. -/
def closeOrder (id : Uuid) : NewWorkOrder :=
  { statePropagation id with
    sourcePayload := [("identity", .obj [("system", .str "jira"), ("entity_type", .str "issue"),
      ("immutable_id", .str "10001")]), ("state", .str "Done"), ("stateChanged", .bool true)] }

def doneIsClosed : StateMappingDefinition where
  name := "Incidents"
  source := ⟨"jira", "issue"⟩
  target := ⟨"servicenow", "incident"⟩
  version := 1
  rules := [⟨.sourceToTarget, "Done", "Closed", [], []⟩]

def closing : TranslationServices where
  sameText a b := a == b
  published := some doneIsClosed
  translateFields _ _ _ := none
  transactionId := 30
  provider := "servicenow"

/-- An order is claimed, its target read, and the translation carried out. -/
def propagates (call : Nat) (id : Uuid) (claimId : String) : List TargetAction :=
  [.connector (.order (.insert (closeOrder id))), .connector (.order (.load call 1 id 0 true)),
    .connector (.order (.checkBlocked call)), .connector (.order (.claim call claimId 0 0)), .readTarget call,
    .translate call closing ⟨0, 1⟩]

/-- The incident is closed by an order, reopened by a person and read again. -/
def reopened : List TargetAction :=
  ingests 0 20 (shownRecord "New" 0) ⟨5, 7, 8⟩ ++ propagates 0 10 "w:10" ++
    [.connector (.order (.push 0 "servicenow" "ok" ⟨0, 1⟩))] ++
    ingests 1 21 (shownRecord "In Progress" 60000) ⟨6, 7, 8⟩

/-- The next order to close it is a noop, and the incident stays open. -/
theorem reopened_stays_open :
    (¬ ∀ (nodes : List SyncNode) (connectors : List ConnectorRecord) (acts : List TargetAction) (t : TargetState),
      (targetSystem .ascii).run (.start nodes connectors) acts = some t →
        (targetSystem .ascii).Throughout Current (.start nodes connectors) acts) ∧
      ((targetSystem .ascii).run (.start [] [editedConnector]) (reopened ++ propagates 1 11 "w:11")).map
        (fun t => (t.connectors.queue.db.orders.map (·.status), t.connectors.queue.db.twins.map (·.nativeStatus))) =
        some ([.executed, .noop], [some "In Progress"]) := by
  refine ⟨fun h => ?_, by decide +kernel⟩
  have hrun : ((targetSystem .ascii).run (.start [] [editedConnector]) reopened).map (fun t =>
      (t.connectors.queue.db.twins.map fun u => (u.orgId, u.id, stateInForce t.connectors.queue.db.orders u),
        t.known (1, 5))) = some ([(1, 5, some "Closed")], some "In Progress") := by decide +kernel
  obtain ⟨t, ht, hend⟩ := Option.map_eq_some_iff.mp hrun
  obtain ⟨htwins, hknown⟩ := Prod.mk.inj hend
  have hcurrent := (targetSystem .ascii).throughout_end (h [] [editedConnector] reopened t ht) ht
  have hmem : ((1 : Uuid), (5 : Uuid), some "Closed") ∈
      t.connectors.queue.db.twins.map fun u => (u.orgId, u.id, stateInForce t.connectors.queue.db.orders u) := by
    rw [htwins]
    exact List.mem_singleton_self _
  obtain ⟨u, hu, huv⟩ := List.mem_map.mp hmem
  simp only [Prod.mk.injEq] at huv
  have hquery := hcurrent.query u hu
  rw [huv.1, huv.2.1, huv.2.2, hknown] at hquery
  exact absurd hquery (by decide)

def readAgain : List TargetAction :=
  ingests 0 20 (shownRecord "New" 0) ⟨5, 7, 8⟩ ++ propagates 0 10 "w:10" ++
    [.connector (.order (.push 0 "servicenow" "ok" ⟨0, 1⟩))] ++
    ingests 1 21 (shownRecord "Closed" 60000) ⟨6, 7, 8⟩ ++ propagates 1 11 "w:11"

def showsKnownState (s : TargetState) : TargetAction → Bool
  | .connector (.process call _) =>
    match s.connectors.ingesting call with
    | some (.claimed orgId connector job _) =>
      match s.connectors.queue.db.twins.find? (twinKeyMatches orgId connector job.payload) with
      | some prior => s.known (orgId, prior.id) = some job.payload.status
      | none => true
    | _ => true
  | _ => true

theorem showsKnown_of_state (P : Platform) (s : TargetState) (a : TargetAction)
    (h : showsKnownState s a = true) : ShowsKnown P s a := by
  cases a with
  | readTarget | translate => trivial
  | connector a =>
    cases a with
    | process call ids =>
      simp only [showsKnownState] at h
      simp only [ShowsKnown]
      split
      · rename_i orgId connector job claimId hcall
        rw [hcall] at h
        dsimp only at h
        split
        · rename_i prior hprior
          rw [hprior] at h
          exact .inr (.inl (of_decide_eq_true h))
        · trivial
      · trivial
    | _ => trivial

theorem effective_state_read_again :
    (targetSystem .ascii).Throughout Current (.start [] [editedConnector]) readAgain := by
  have hrun : ((targetSystem .ascii).run (.start [] [editedConnector]) readAgain).isSome = true := by
    decide +kernel
  have hshows : (targetSystem .ascii).checks showsKnownState (.start [] [editedConnector]) readAgain = true := by
    decide +kernel
  obtain ⟨t, ht⟩ := Option.isSome_iff_exists.mp hrun
  refine (effective_state_iff .ascii [] [editedConnector] readAgain ht).1.mpr ?_
  exact (targetSystem .ascii).along_of_checks (showsKnown_of_state .ascii) hshows

end Cadena.Connectors.Target
