import Cadena.Base.Grouping
import Cadena.Flow.CostRules
import Cadena.Flow.ReportWindows
import Mathlib.Algebra.Order.BigOperators.Group.List
import Mathlib.Tactic.Linarith
import Mathlib.Tactic.Ring

/-!
# The cost of delay

`itemCost` and `report` of `cost-of-delay.service.ts`. Both price the waits of a
range; the report puts the same prices into groups of states, reasons, teams and
items. The groups of each kind add up to its total, and an item has in it what
`itemCost` says of the item.
-/

namespace Cadena.Flow

open Cadena.Base Cadena.WorkItems Page Grouping

/-- A row of `work_item_service_links`. -/
structure ServiceLinkRow where
  orgId : Uuid
  workItemId : Uuid
  serviceId : Uuid

/-- A version of the assumptions of an organisation, with its rules. -/
structure AssumptionSet where
  version : Nat
  currency : String
  note : Option String
  createdBy : String
  createdAt : Millis
  rules : List CostRule

structure CostDb where
  flow : FlowDb
  serviceLinks : List ServiceLinkRow
  sets : Uuid → List AssumptionSet

inductive CostError where
  | versionNotFound (version : Nat)
  | itemNotFound (id : Uuid)
  | invalidRange (error : InvalidFlowRange)
  deriving DecidableEq

/-- The current set, or a version; `none` when none has ever been saved. -/
def getSet (db : CostDb) (orgId : Uuid) (version : Option Nat) : Except CostError (Option AssumptionSet) :=
  let row := match version with
    | none => (sortByKey (fun s : AssumptionSet => OrderDual.toDual s.version) (db.sets orgId)).head?
    | some v => (db.sets orgId).find? (·.version == v)
  match row, version with
  | some set, _ => .ok (some { set with rules := sortByKey (·.id.toNat) set.rules })
  | none, some v => .error (.versionNotFound v)
  | none, none => .ok none

def serviceLinks (db : CostDb) (orgId id : Uuid) : List Uuid :=
  (db.serviceLinks.filter fun link => link.orgId == orgId && link.workItemId == id).map (·.serviceId)

def scopeOf (db : CostDb) (orgId : Uuid) (row : WaitRow) : ItemScope :=
  ⟨row.teamId, row.itemType, row.priority, serviceLinks db orgId row.workItemId⟩

def toMinutes (ms : Int) : Rat := roundCents (ms / 60000)

/-! ## One item -/

/-- The accumulators of `itemCost`. -/
structure ItemTotals where
  total : Rat
  costedMs : Int
  uncostedMs : Int
  valueAtRisk : Option Rat

/-- `if (fixed !== null) value = Math.max(value ?? 0, fixed)`. -/
def raiseValue (value fixed : Option Rat) : Option Rat :=
  match fixed with
  | none => value
  | some fixed => some (max (value.getD 0) fixed)

def ItemTotals.add (rule : WaitRow → Option CostRule) (s : ItemTotals) (row : WaitRow) : ItemTotals :=
  match rule row with
  | some r =>
    { s with
      total := s.total + intervalCost r row.ms row.calendar
      costedMs := s.costedMs + row.ms
      valueAtRisk := raiseValue s.valueAtRisk r.fixedValueAtRisk }
  | none => { s with uncostedMs := s.uncostedMs + row.ms }

structure CostInterval where
  state : String
  classification : FlowBucket
  startedAt : Millis
  endedAt : Millis
  isOpen : Bool
  minutes : Rat
  calendar : SlaCalendar
  reason : String
  estimatedCost : Option Rat
  assumption : Option CostRule

structure ItemFigures where
  windowFrom : Millis
  windowTo : Millis
  totalEstimatedCost : Option Rat
  costedMinutes : Rat
  uncostedMinutes : Rat
  valueAtRisk : Option Rat
  deriving DecidableEq

/-- The answer of `itemCost`; `assumptions` is what its frame is made of. -/
structure ItemCost where
  assumptions : Option AssumptionSet
  workItemId : Uuid
  figures : ItemFigures
  intervals : List CostInterval

def costInterval (rule : WaitRow → Option CostRule) (row : WaitRow) : CostInterval where
  state := row.state
  classification := row.classification
  startedAt := row.startedAt
  endedAt := row.endedAt
  isOpen := row.isOpen
  minutes := toMinutes row.ms
  calendar := row.calendar
  reason := row.reason
  estimatedCost := (rule row).map fun r => intervalCost r row.ms row.calendar
  assumption := rule row

def ruleFor (db : CostDb) (orgId : Uuid) (set : Option AssumptionSet) (row : WaitRow) : Option CostRule :=
  matchRule ((set.map (·.rules)).getD []) (scopeOf db orgId row)

/-- `itemCost` after its set is read. -/
def itemCostWith (parseDate : String → Option Millis) (db : CostDb) (orgId id : Uuid) (range : WaitRange) (now : Millis)
    (set : Option AssumptionSet) : Except CostError ItemCost :=
  if (db.flow.items.filter fun w => w.id == id && w.orgId == orgId).isEmpty then .error (.itemNotFound id)
  else
    match collectWaits parseDate db.flow orgId range ⟨some id, none, none⟩ now with
    | .error e => .error (.invalidRange e)
    | .ok collected =>
      let rule := ruleFor db orgId set
      let totals := collected.rows.foldl (ItemTotals.add rule) ⟨0, 0, 0, none⟩
      let intervals := collected.rows.map (costInterval rule)
      .ok
        { assumptions := set
          workItemId := id
          figures :=
            { windowFrom := collected.windowFrom
              windowTo := collected.windowTo
              totalEstimatedCost :=
                if 0 < totals.costedMs ∨ intervals.any (·.estimatedCost.isSome) = true then some (round2 totals.total)
                else none
              costedMinutes := toMinutes totals.costedMs
              uncostedMinutes := toMinutes totals.uncostedMs
              valueAtRisk := totals.valueAtRisk }
          intervals := intervals }

def itemCost (parseDate : String → Option Millis) (db : CostDb) (orgId id : Uuid) (range : WaitRange)
    (version : Option Nat) (now : Millis) : Except CostError ItemCost := do
  itemCostWith parseDate db orgId id range now (← getSet db orgId version)

/-! ## The report -/

structure Bucket where
  cost : Rat
  ms : Int
  intervals : Nat

/-- What a wait adds to the bucket of its state, its reason or its team. -/
def bump (cost : Rat) (ms : Int) (old : Option Bucket) : Bucket :=
  let entry := old.getD ⟨0, 0, 0⟩
  ⟨entry.cost + cost, entry.ms + ms, entry.intervals + 1⟩

structure TeamBucket where
  bucket : Bucket
  name : Option String

structure ItemBucket where
  bucket : Bucket
  itemKey : String
  teamId : Uuid
  teamName : Option String
  value : Option Rat

abbrev PricedWait := WaitRow × CostRule

def PricedWait.cost (p : PricedWait) : Rat := intervalCost p.2 p.1.ms p.1.calendar

def bumpTeam (p : PricedWait) (old : Option TeamBucket) : TeamBucket :=
  ⟨bump p.cost p.1.ms (old.map (·.bucket)), p.1.teamName⟩

def bumpItem (p : PricedWait) (old : Option ItemBucket) : ItemBucket :=
  ⟨bump p.cost p.1.ms (old.map (·.bucket)), p.1.itemKey, p.1.teamId, p.1.teamName,
    raiseValue (old.bind (·.value)) p.2.fixedValueAtRisk⟩

/-- The maps and accumulators of the loop of `report`. -/
structure ReportLoop where
  byState : List (String × Bucket)
  byReason : List (String × Bucket)
  byTeam : List (Uuid × TeamBucket)
  byItem : List (Uuid × ItemBucket)
  total : Rat
  costedMs : Int
  uncostedMs : Int
  uncostedIntervals : Nat

def ReportLoop.add (rule : WaitRow → Option CostRule) (s : ReportLoop) (row : WaitRow) : ReportLoop :=
  match rule row with
  | none => { s with uncostedMs := s.uncostedMs + row.ms, uncostedIntervals := s.uncostedIntervals + 1 }
  | some r =>
    let p : PricedWait := (row, r)
    { s with
      total := s.total + p.cost
      costedMs := s.costedMs + row.ms
      byState := upsert (bump p.cost row.ms) row.state s.byState
      byReason := upsert (bump p.cost row.ms) row.reason s.byReason
      byTeam := upsert (bumpTeam p) row.teamId s.byTeam
      byItem := upsert (bumpItem p) row.workItemId s.byItem }

def reportLoop (rule : WaitRow → Option CostRule) (rows : List WaitRow) : ReportLoop :=
  rows.foldl (ReportLoop.add rule) ⟨[], [], [], [], 0, 0, 0, 0⟩

def share (part whole : Rat) : Option Rat := if 0 < whole then some (round4 (part / whole)) else none

/-- A row of `by_state`, `by_reason` or `by_team`. -/
structure CostGroup (κ : Type) where
  key : κ
  teamName : Option String
  cost : Rat
  share : Option Rat
  minutes : Rat
  intervals : Nat

structure CostItem where
  workItemId : Uuid
  itemKey : String
  teamId : Uuid
  teamName : Option String
  cost : Rat
  share : Option Rat
  minutes : Rat
  intervals : Nat
  valueAtRisk : Option Rat

/-- The most expensive first; equal ones stay in their order. -/
def rank {α : Type} (cost : α → Rat) (rows : List α) : List α := rows.insertionSort fun a b => cost b ≤ cost a

def costGroup {κ : Type} (total : Rat) (key : κ) (name : Option String) (v : Bucket) : CostGroup κ :=
  ⟨key, name, round2 v.cost, share v.cost total, toMinutes v.ms, v.intervals⟩

def grouped {κ : Type} (total : Rat) (groups : List (κ × Bucket)) : List (CostGroup κ) :=
  rank (·.cost) (groups.map fun e => costGroup total e.1 none e.2)

def groupedTeams (total : Rat) (groups : List (Uuid × TeamBucket)) : List (CostGroup Uuid) :=
  rank (·.cost) (groups.map fun e => costGroup total e.1 e.2.name e.2.bucket)

def costItem (total : Rat) (id : Uuid) (v : ItemBucket) : CostItem where
  workItemId := id
  itemKey := v.itemKey
  teamId := v.teamId
  teamName := v.teamName
  cost := round2 v.bucket.cost
  share := share v.bucket.cost total
  minutes := toMinutes v.bucket.ms
  intervals := v.bucket.intervals
  valueAtRisk := v.value

def allItems (s : ReportLoop) : List CostItem := rank (·.cost) (s.byItem.map fun e => costItem s.total e.1 e.2)

def topItems : Nat := 50

structure ReportFigures where
  windowFrom : Millis
  windowTo : Millis
  truncated : Bool
  totalEstimatedCost : Option Rat
  costedMinutes : Rat
  uncostedMinutes : Rat
  uncostedIntervals : Nat
  byState : List (CostGroup String)
  byReason : List (CostGroup String)
  byTeam : List (CostGroup Uuid)
  byItem : List CostItem
  itemsCosted : Nat

structure CostReport where
  assumptions : Option AssumptionSet
  figures : ReportFigures

def reportFigures (hasSet : Bool) (collected : CollectedWaits) (s : ReportLoop) : ReportFigures where
  windowFrom := collected.windowFrom
  windowTo := collected.windowTo
  truncated := collected.truncated
  totalEstimatedCost := if hasSet = true ∧ 0 < s.costedMs then some (round2 s.total) else none
  costedMinutes := toMinutes s.costedMs
  uncostedMinutes := toMinutes s.uncostedMs
  uncostedIntervals := s.uncostedIntervals
  byState := grouped s.total s.byState
  byReason := grouped s.total s.byReason
  byTeam := groupedTeams s.total s.byTeam
  byItem := (allItems s).take topItems
  itemsCosted := (allItems s).length

/-- `report` after its set is read. -/
def reportWith (parseDate : String → Option Millis) (db : CostDb) (orgId : Uuid) (range : WaitRange)
    (filter : WaitFilter) (now : Millis) (set : Option AssumptionSet) : Except CostError CostReport :=
  match collectWaits parseDate db.flow orgId range { filter with itemId := none } now with
  | .error e => .error (.invalidRange e)
  | .ok collected =>
    .ok ⟨set, reportFigures set.isSome collected (reportLoop (ruleFor db orgId set) collected.rows)⟩

def report (parseDate : String → Option Millis) (db : CostDb) (orgId : Uuid) (range : WaitRange) (filter : WaitFilter)
    (version : Option Nat) (now : Millis) : Except CostError CostReport := do
  reportWith parseDate db orgId range filter now (← getSet db orgId version)

/-- A figure with two decimal places. -/
def IsCents (x : Rat) : Prop := ∃ n : Int, x = n / 100

theorem IsCents.round2 {x : Rat} (h : IsCents x) : round2 x = x := by
  obtain ⟨n, rfl⟩ := h
  have hfloor : ((n : Rat) / 100 * 100 + 1 / 2).floor = n := by
    have hexact : (n : Rat) / 100 * 100 + 1 / 2 = n + 1 / 2 := by ring
    have hlow : n ≤ ((n : Rat) / 100 * 100 + 1 / 2).floor := Rat.le_floor_iff.mpr (by rw [hexact]; linarith)
    have hhigh : ((n : Rat) / 100 * 100 + 1 / 2).floor < n + 1 :=
      Rat.floor_lt_iff.mpr (by rw [hexact]; push_cast; linarith)
    omega
  rw [Flow.round2, roundCents, hfloor]

theorem isCents_intervalCost (rule : CostRule) (ms : Int) (calendar : SlaCalendar) :
    IsCents (intervalCost rule ms calendar) := ⟨_, rfl⟩

theorem isCents_sum {l : List Rat} (h : ∀ x ∈ l, IsCents x) : IsCents l.sum := by
  induction l with
  | nil => exact ⟨0, by simp⟩
  | cons x l ih =>
    obtain ⟨n, hn⟩ := h x List.mem_cons_self
    obtain ⟨m, hm⟩ := ih fun y hy => h y (List.mem_cons_of_mem _ hy)
    refine ⟨n + m, ?_⟩
    rw [List.sum_cons, hn, hm]
    push_cast
    ring

/-! ## The loops in closed form -/

def pricedWaits (rule : WaitRow → Option CostRule) (rows : List WaitRow) : List PricedWait :=
  rows.filterMap fun row => (rule row).map fun r => (row, r)

def totalCost (ps : List PricedWait) : Rat := (ps.map PricedWait.cost).sum

def totalMs (ps : List PricedWait) : Int := (ps.map (·.1.ms)).sum

def highestValue (ps : List PricedWait) : Option Rat :=
  ps.foldl (fun value p => raiseValue value p.2.fixedValueAtRisk) none

section
variable (rule : WaitRow → Option CostRule) (rows : List WaitRow)

def unpricedMs : Int := ((rows.filter fun row => (rule row).isNone).map (·.ms)).sum

theorem pricedWaits_concat (row : WaitRow) : pricedWaits rule (rows ++ [row]) =
    pricedWaits rule rows ++ ((rule row).map fun r => (row, r)).toList := by
  rw [pricedWaits, List.filterMap_append]
  cases hrule : rule row <;> simp [pricedWaits, hrule]

theorem itemTotals_eq : rows.foldl (ItemTotals.add rule) ⟨0, 0, 0, none⟩ =
    ⟨totalCost (pricedWaits rule rows), totalMs (pricedWaits rule rows), unpricedMs rule rows,
      highestValue (pricedWaits rule rows)⟩ := by
  induction rows using List.reverseRecOn with
  | nil => rfl
  | append_singleton rows row ih =>
    rw [List.foldl_append, ih, pricedWaits_concat, List.foldl_cons, List.foldl_nil, ItemTotals.add]
    cases hrule : rule row with
    | none => simp [unpricedMs, hrule]
    | some r => simp [totalCost, totalMs, unpricedMs, highestValue, PricedWait.cost, hrule]

theorem reportLoop_eq : reportLoop rule rows =
    { byState := groups (·.1.state) (fun p => bump p.cost p.1.ms) (pricedWaits rule rows)
      byReason := groups (·.1.reason) (fun p => bump p.cost p.1.ms) (pricedWaits rule rows)
      byTeam := groups (·.1.teamId) bumpTeam (pricedWaits rule rows)
      byItem := groups (·.1.workItemId) bumpItem (pricedWaits rule rows)
      total := totalCost (pricedWaits rule rows)
      costedMs := totalMs (pricedWaits rule rows)
      uncostedMs := unpricedMs rule rows
      uncostedIntervals := (rows.filter fun row => (rule row).isNone).length } := by
  induction rows using List.reverseRecOn with
  | nil => rfl
  | append_singleton rows row ih =>
    rw [reportLoop, List.foldl_append, ← reportLoop, ih, pricedWaits_concat, List.foldl_cons, List.foldl_nil,
      ReportLoop.add]
    cases hrule : rule row with
    | none => simp [unpricedMs, hrule]
    | some r => simp [groups_concat, totalCost, totalMs, unpricedMs, hrule]

theorem ms_add : totalMs (pricedWaits rule rows) + unpricedMs rule rows = (rows.map (·.ms)).sum := by
  induction rows with
  | nil => rfl
  | cons row rows ih =>
    rw [List.map_cons, List.sum_cons, ← ih]
    cases hrule : rule row with
    | none =>
      simp only [pricedWaits, unpricedMs, List.filterMap_cons, List.filter_cons, hrule, Option.map_none,
        Option.isNone_none, if_true, List.map_cons, List.sum_cons]
      omega
    | some r =>
      simp only [pricedWaits, unpricedMs, totalMs, List.filterMap_cons, List.filter_cons, hrule, Option.map_some,
        Option.isNone_some, List.map_cons, List.sum_cons, Bool.false_eq_true, if_false]
      omega

theorem isCents_total (ps : List PricedWait) : IsCents (totalCost ps) :=
  isCents_sum fun x hx => by
    obtain ⟨p, -, rfl⟩ := List.mem_map.mp hx
    exact isCents_intervalCost _ _ _

end

/-- The sum of costs; where there is no cost there is no sum, and not zero. -/
def sumOfCosts (costs : List Rat) : Option Rat := if costs = [] then none else some costs.sum

theorem rank_perm {α : Type} (cost : α → Rat) (rows : List α) : (rank cost rows).Perm rows := List.perm_insertionSort _ _

theorem sumOfCosts_perm {l l' : List Rat} (h : l.Perm l') : sumOfCosts l = sumOfCosts l' := by
  have hnil : l = [] ↔ l' = [] := by rw [← List.length_eq_zero_iff, h.length_eq, List.length_eq_zero_iff]
  simp only [sumOfCosts, hnil, h.sum_eq]

theorem isCents_groups {κ β : Type} [DecidableEq κ] (key : PricedWait → κ) (f : PricedWait → Option β → β) (g : β → Rat)
    (h : ∀ p (b : Option β), g (f p b) = (b.map g).getD 0 + p.cost) (ps : List PricedWait) :
    ∀ e ∈ groups key f ps, IsCents (g e.2) := by
  intro e he
  have hfind := (find_eq_some (keys_groups_nodup key f ps)).mpr he
  rw [find_groups] at hfind
  have hall (qs : List PricedWait) (b : Option β) (hb : IsCents ((b.map g).getD 0)) :
      IsCents (((qs.foldl (fun b p => some (f p b)) b).map g).getD 0) := by
    induction qs generalizing b with
    | nil => exact hb
    | cons q qs ih =>
      refine ih _ ?_
      rw [Option.map_some, Option.getD_some, h]
      obtain ⟨n, hn⟩ := hb
      obtain ⟨m, hm⟩ := isCents_intervalCost q.2 q.1.ms q.1.calendar
      refine ⟨n + m, ?_⟩
      rw [hn, PricedWait.cost, hm]
      push_cast
      ring
  have := hall (ps.filter fun p => key p = e.1) none ⟨0, by simp⟩
  rw [hfind] at this
  exact this

theorem sum_grouped {κ β γ : Type} [DecidableEq κ] (key : PricedWait → κ) (f : PricedWait → Option β → β) (g : β → Rat)
    (h : ∀ p (b : Option β), g (f p b) = (b.map g).getD 0 + p.cost) (cost : γ → Rat) (row : κ × β → γ)
    (hrow : ∀ e, cost (row e) = round2 (g e.2)) (ps : List PricedWait) :
    sumOfCosts ((rank cost ((groups key f ps).map row)).map cost) =
      if ps = [] then none else some (totalCost ps) := by
  rw [sumOfCosts_perm ((rank_perm cost _).map cost), List.map_map, sumOfCosts]
  have hcosts : (groups key f ps).map (cost ∘ row) = (groups key f ps).map (g ·.2) :=
    List.map_congr_left fun e he => (hrow e).trans (isCents_groups key f g h ps e he).round2
  have hnil : (groups key f ps).map (g ·.2) = [] ↔ ps = [] := List.map_eq_nil_iff.trans (groups_eq_nil key f)
  rw [hcosts]
  simp only [hnil, sum_groups key f g PricedWait.cost h]
  rfl

/-! ## The waits of one item -/

section
variable {parseDate : String → Option Millis} {db : FlowDb} {orgId : Uuid} {range : WaitRange} {filter : WaitFilter}
  {now : Millis} {w : CollectedWaits}

def itemWaits (db : FlowDb) (orgId : Uuid) (a b now : Millis) (item : WorkItem) : List WaitRow :=
  (score (flowContext db orgId [item]) item (some a) (some b) now).1.filterMap (waitRow db orgId item)

variable {item : WorkItem}

theorem itemWaits_spec {a b : Millis} {row : WaitRow} (h : row ∈ itemWaits db orgId a b now item) :
    row.workItemId = item.id ∧ row.itemType = item.type ∧ row.priority = item.priority ∧ row.teamId = item.teamId ∧
      0 < row.ms := by
  obtain ⟨s, -, hrow⟩ := List.mem_filterMap.mp h
  unfold waitRow at hrow
  split at hrow
  · cases hrow
  · split at hrow
    · cases hrow
    · rename_i hms
      obtain rfl := Option.some.inj hrow
      exact ⟨rfl, rfl, rfl, rfl, not_le.mp hms⟩

theorem collectWaits_ok (h : collectWaits parseDate db orgId range filter now = .ok w) :
    ∃ a b, parseRange parseDate range now = .ok (a, b) ∧ w.windowFrom = a ∧ w.windowTo = b ∧
      w.total = (w.rows.map (·.ms)).sum ∧
      w.rows = (loadItems db orgId b filter).1.flatMap (itemWaits db orgId a b now) := by
  unfold collectWaits at h
  cases hrange : parseRange parseDate range now with
  | error e =>
    rw [hrange] at h
    cases h
  | ok window =>
    rw [hrange] at h
    obtain rfl := Except.ok.inj h
    refine ⟨window.1, window.2, rfl, rfl, rfl, rfl, ?_⟩
    refine List.flatMap_congr fun item hitem => ?_
    show (score _ item _ _ now).1.filterMap _ = _
    rw [score_context hitem]
    rfl

theorem waits_pos (h : collectWaits parseDate db orgId range filter now = .ok w) : ∀ row ∈ w.rows, 0 < row.ms := by
  obtain ⟨a, b, -, -, -, -, hrows⟩ := collectWaits_ok h
  intro row hrow
  rw [hrows] at hrow
  obtain ⟨item, -, hwait⟩ := List.mem_flatMap.mp hrow
  exact (itemWaits_spec hwait).2.2.2.2

theorem mem_loadItems {stop : Millis} (h : item ∈ (loadItems db orgId stop filter).1) :
    item ∈ db.items ∧ item.createdAt < stop ∧ isReported orgId filter item = true := by
  have hsorted := List.mem_of_mem_take (List.mem_of_mem_take h)
  have hmem := (sortByKey_perm itemOrder _).mem_iff.mp hsorted
  rw [List.mem_filter, Bool.and_eq_true, decide_eq_true_eq] at hmem
  exact hmem

theorem loadItems_nodup (stop : Millis) : ((loadItems db orgId stop filter).1.map (·.id)).Nodup := by
  have hsorted : ((sortByKey itemOrder (db.items.filter fun item =>
      decide (item.createdAt < stop) && isReported orgId filter item)).map (·.id)).Nodup := by
    rw [((sortByKey_perm itemOrder _).map (·.id)).nodup_iff]
    exact db.itemIds.sublist (List.filter_sublist.map _)
  exact hsorted.sublist (((List.take_sublist _ _).trans (List.take_sublist _ _)).map _)

theorem loadItems_one {stop : Millis} (hitem : item ∈ db.items) (horg : item.orgId = orgId)
    (hcreated : item.createdAt < stop) : (loadItems db orgId stop ⟨some item.id, none, none⟩).1 = [item] := by
  have hone : (db.items.filter fun i => decide (i.createdAt < stop) && isReported orgId ⟨some item.id, none, none⟩ i)
      = [item] := by
    rw [← Table.filter_key db.itemIds hitem]
    refine List.filter_congr fun i hi => ?_
    by_cases hid : i.id = item.id
    · obtain rfl := Table.eq_of_key db.itemIds hi hitem hid
      simp [isReported, horg, hcreated]
    · have hother : (i.id == item.id) = false := beq_eq_false_iff_ne.mpr hid
      simp [isReported, hother]
  unfold loadItems
  rw [hone]
  rfl

theorem filter_flatMap_key {α β κ : Type} [DecidableEq κ] {key : α → κ} {k : β → κ} {f : α → List β} {l : List α}
    (hnodup : (l.map key).Nodup) {a : α} (ha : a ∈ l) (hf : ∀ x ∈ l, ∀ y ∈ f x, k y = key x) :
    (l.flatMap f).filter (fun y => decide (k y = key a)) = f a := by
  induction l with
  | nil => cases ha
  | cons x l ih =>
    rw [List.map_cons, List.nodup_cons] at hnodup
    rw [List.flatMap_cons, List.filter_append]
    have hhead : ∀ y ∈ f x, k y = key x := hf x List.mem_cons_self
    rcases List.mem_cons.mp ha with rfl | hmem
    · have hrest : (l.flatMap f).filter (fun y => decide (k y = key a)) = [] := by
        rw [List.filter_eq_nil_iff]
        intro y hy
        obtain ⟨z, hz, hyz⟩ := List.mem_flatMap.mp hy
        rw [decide_eq_true_eq, hf z (List.mem_cons_of_mem _ hz) y hyz]
        exact fun heq => hnodup.1 (heq ▸ List.mem_map_of_mem hz)
      rw [hrest, List.append_nil, List.filter_eq_self]
      exact fun y hy => by simpa using hhead y hy
    · have hfirst : (f x).filter (fun y => decide (k y = key a)) = [] := by
        rw [List.filter_eq_nil_iff]
        intro y hy
        rw [decide_eq_true_eq, hhead y hy]
        exact fun heq => hnodup.1 (heq ▸ List.mem_map_of_mem hmem)
      rw [hfirst, List.nil_append]
      exact ih hnodup.2 hmem fun z hz => hf z (List.mem_cons_of_mem _ hz)

/-- **The waits of an item in a report are those collected for it alone.** -/
theorem collectWaits_item (h : collectWaits parseDate db orgId range filter now = .ok w)
    (hitem : item ∈ (loadItems db orgId w.windowTo filter).1) :
    ∃ w', collectWaits parseDate db orgId range ⟨some item.id, none, none⟩ now = .ok w' ∧
      w'.rows = w.rows.filter fun row => decide (row.workItemId = item.id) := by
  obtain ⟨a, b, hrange, -, hto, -, hrows⟩ := collectWaits_ok h
  rw [hto] at hitem
  obtain ⟨hmem, hcreated, hreported⟩ := mem_loadItems hitem
  have horg : item.orgId = orgId := by
    simp only [isReported, Bool.and_eq_true, beq_iff_eq] at hreported
    exact hreported.1.1.1
  have hone : ∃ w', collectWaits parseDate db orgId range ⟨some item.id, none, none⟩ now = .ok w' := by
    unfold collectWaits
    rw [hrange]
    exact ⟨_, rfl⟩
  obtain ⟨w', hw'⟩ := hone
  refine ⟨w', hw', ?_⟩
  obtain ⟨a', b', hrange', -, -, -, hrows'⟩ := collectWaits_ok hw'
  rw [hrange] at hrange'
  obtain ⟨rfl, rfl⟩ := Prod.mk.inj (Except.ok.inj hrange')
  rw [hrows', loadItems_one hmem horg hcreated, hrows, List.flatMap_singleton]
  exact (filter_flatMap_key (loadItems_nodup b) hitem fun x _ y hy => (itemWaits_spec hy).1).symm

/-! ## One item in both -/

theorem itemBucket_eq (ps : List PricedWait) :
    ps = [] ∧ ps.foldl (fun b p => some (bumpItem p b)) none = none ∨
      ps ≠ [] ∧ ∃ b, ps.foldl (fun b p => some (bumpItem p b)) none = some b ∧ b.bucket.cost = totalCost ps ∧
        b.bucket.ms = totalMs ps ∧ b.value = highestValue ps := by
  induction ps using List.reverseRecOn with
  | nil => exact .inl ⟨rfl, rfl⟩
  | append_singleton ps p ih =>
    refine .inr ⟨by simp, ?_⟩
    rw [List.foldl_append]
    rcases ih with ⟨rfl, hnone⟩ | ⟨-, b, hb, hcost, hms, hvalue⟩
    · refine ⟨_, by rw [hnone]; rfl, ?_, ?_, ?_⟩
      · simp [bumpItem, bump, totalCost]
      · simp [bumpItem, bump, totalMs]
      · rfl
    · refine ⟨_, by rw [hb]; rfl, ?_, ?_, ?_⟩
      · simp [bumpItem, bump, totalCost, hcost]
      · simp [bumpItem, bump, totalMs, hms]
      · simp [bumpItem, highestValue, hvalue]

theorem pricedWaits_filter (rule : WaitRow → Option CostRule) (rows : List WaitRow) (id : Uuid) :
    (pricedWaits rule rows).filter (fun p => decide (p.1.workItemId = id)) =
      pricedWaits rule (rows.filter fun row => decide (row.workItemId = id)) := by
  rw [pricedWaits, pricedWaits, List.filter_filterMap, List.filterMap_filter]
  refine List.filterMap_congr fun row _ => ?_
  cases hrule : rule row with
  | none => simp
  | some r => by_cases hid : row.workItemId = id <;> simp [hid]

end

section
variable {parseDate : String → Option Millis} {db : CostDb} {orgId : Uuid} {range : WaitRange} {filter : WaitFilter}
  {now : Millis} {w : CollectedWaits} {set : Option AssumptionSet}

theorem set_of_rule {row : WaitRow} {r : CostRule} (h : ruleFor db orgId set row = some r) : set.isSome = true := by
  cases set with
  | none =>
    have hnone : matchRule [] (scopeOf db orgId row) = none := matchRule_none.mpr (by simp)
    rw [ruleFor, Option.map_none, Option.getD_none, hnone] at h
    cases h
  | some set => rfl

theorem costed_iff {rows : List WaitRow} (rule : WaitRow → Option CostRule) (hpos : ∀ row ∈ rows, 0 < row.ms) :
    0 < totalMs (pricedWaits rule rows) ↔ pricedWaits rule rows ≠ [] := by
  have hps : ∀ p ∈ pricedWaits rule rows, 0 < p.1.ms := by
    intro p hp
    obtain ⟨row, hrow, hprice⟩ := List.mem_filterMap.mp hp
    obtain ⟨r, -, rfl⟩ := Option.map_eq_some_iff.mp hprice
    exact hpos row hrow
  generalize pricedWaits rule rows = ps at hps
  cases ps with
  | nil => simp [totalMs]
  | cons p ps =>
    have hrest : 0 ≤ (ps.map (·.1.ms)).sum :=
      List.sum_nonneg fun x hx => by
        obtain ⟨q, hq, rfl⟩ := List.mem_map.mp hx
        exact le_of_lt (hps q (List.mem_cons_of_mem _ hq))
    have hfirst := hps p List.mem_cons_self
    refine iff_of_true ?_ (List.cons_ne_nil _ _)
    rw [totalMs, List.map_cons, List.sum_cons]
    omega

theorem itemCostWith_ok {id : Uuid} {w' : CollectedWaits} (hitem : ∃ item ∈ db.flow.items, item.id = id ∧ item.orgId = orgId)
    (h : collectWaits parseDate db.flow orgId range ⟨some id, none, none⟩ now = .ok w')
    (hpos : ∀ row ∈ w'.rows, 0 < row.ms) :
    ∃ c, itemCostWith parseDate db orgId id range now set = .ok c ∧
      c.figures.totalEstimatedCost = (if pricedWaits (ruleFor db orgId set) w'.rows = [] then none
        else some (totalCost (pricedWaits (ruleFor db orgId set) w'.rows))) ∧
      c.figures.costedMinutes = toMinutes (totalMs (pricedWaits (ruleFor db orgId set) w'.rows)) ∧
      c.figures.valueAtRisk = highestValue (pricedWaits (ruleFor db orgId set) w'.rows) := by
  obtain ⟨item, hmem, hid, horg⟩ := hitem
  have hfound : (db.flow.items.filter fun w => w.id == id && w.orgId == orgId).isEmpty = false := by
    rw [List.isEmpty_eq_false_iff_exists_mem]
    exact ⟨item, List.mem_filter.mpr ⟨hmem, by simp [hid, horg]⟩⟩
  unfold itemCostWith
  rw [hfound, if_neg Bool.false_ne_true, h]
  refine ⟨_, rfl, ?_, ?_, ?_⟩
  · simp only [itemTotals_eq]
    have hany : (w'.rows.map (costInterval (ruleFor db orgId set))).any (·.estimatedCost.isSome) = true ↔
        pricedWaits (ruleFor db orgId set) w'.rows ≠ [] := by
      rw [List.any_map, List.any_eq_true, ne_eq, pricedWaits, List.filterMap_eq_nil_iff]
      simp [costInterval, Option.isSome_iff_ne_none]
    simp only [costed_iff _ hpos, hany, or_self, (isCents_total _).round2]
    by_cases hnil : pricedWaits (ruleFor db orgId set) w'.rows = []
    · simp [hnil]
    · simp [hnil]
  · simp only [itemTotals_eq]
  · simp only [itemTotals_eq]

theorem toMinutes_zero : toMinutes 0 = 0 := by
  have hzero : round2 0 = 0 := IsCents.round2 ⟨0, by simp⟩
  rw [toMinutes, Int.cast_zero, zero_div]
  exact hzero

/-! ## The report reconciles -/

/-- What a report owes the reader: `w` are the waits it is made from, and `s`
its loop. -/
structure Reconciles (parseDate : String → Option Millis) (db : CostDb) (orgId : Uuid) (range : WaitRange)
    (filter : WaitFilter) (version : Option Nat) (now : Millis) (r : ReportFigures) (w : CollectedWaits)
    (s : ReportLoop) : Prop where
  byState : r.totalEstimatedCost = sumOfCosts (r.byState.map (·.cost))
  byReason : r.totalEstimatedCost = sumOfCosts (r.byReason.map (·.cost))
  byTeam : r.totalEstimatedCost = sumOfCosts (r.byTeam.map (·.cost))
  byItem : r.totalEstimatedCost = sumOfCosts ((allItems s).map (·.cost))
  top : r.byItem = (allItems s).take topItems ∧ r.itemsCosted = (allItems s).length
  listed : ∀ entry ∈ allItems s, ∃ c, itemCost parseDate db orgId entry.workItemId range version now = .ok c ∧
    c.figures.totalEstimatedCost = some entry.cost ∧ c.figures.costedMinutes = entry.minutes ∧
      c.figures.valueAtRisk = entry.valueAtRisk
  unlisted : ∀ item ∈ (loadItems db.flow orgId w.windowTo { filter with itemId := none }).1,
    (∀ entry ∈ allItems s, entry.workItemId ≠ item.id) →
      ∃ c, itemCost parseDate db orgId item.id range version now = .ok c ∧ c.figures.totalEstimatedCost = none ∧
        c.figures.costedMinutes = 0 ∧ c.figures.valueAtRisk = none
  milliseconds : s.costedMs + s.uncostedMs = w.total
  minutes : r.costedMinutes = toMinutes s.costedMs ∧ r.uncostedMinutes = toMinutes s.uncostedMs

theorem mem_allItems {rule : WaitRow → Option CostRule} {rows : List WaitRow} {entry : CostItem}
    (h : entry ∈ allItems (reportLoop rule rows)) :
    pricedWaits rule (rows.filter fun row => decide (row.workItemId = entry.workItemId)) ≠ [] ∧
      entry.cost = totalCost (pricedWaits rule (rows.filter fun row => decide (row.workItemId = entry.workItemId))) ∧
      entry.minutes = toMinutes
        (totalMs (pricedWaits rule (rows.filter fun row => decide (row.workItemId = entry.workItemId)))) ∧
      entry.valueAtRisk =
        highestValue (pricedWaits rule (rows.filter fun row => decide (row.workItemId = entry.workItemId))) := by
  rw [allItems, (rank_perm _ _).mem_iff, reportLoop_eq, List.mem_map] at h
  obtain ⟨⟨id, bucket⟩, hmem, rfl⟩ := h
  have hfind := (find_eq_some (keys_groups_nodup _ _ _)).mpr hmem
  rw [find_groups, pricedWaits_filter] at hfind
  show pricedWaits rule (rows.filter fun row => decide (row.workItemId = id)) ≠ [] ∧ _
  rcases itemBucket_eq (pricedWaits rule (rows.filter fun row => decide (row.workItemId = id))) with
    ⟨-, hnone⟩ | ⟨hne, b, hb, hcost, hms, hvalue⟩
  · rw [hnone] at hfind
    cases hfind
  · rw [hb] at hfind
    obtain rfl := Option.some.inj hfind
    refine ⟨hne, ?_, ?_, hvalue⟩
    · show round2 b.bucket.cost = _
      rw [hcost, (isCents_total _).round2]
      rfl
    · show toMinutes b.bucket.ms = _
      rw [hms]
      rfl

theorem priced_of_unlisted {rule : WaitRow → Option CostRule} {rows : List WaitRow} {id : Uuid}
    (h : ∀ entry ∈ allItems (reportLoop rule rows), entry.workItemId ≠ id) :
    pricedWaits rule (rows.filter fun row => decide (row.workItemId = id)) = [] := by
  by_contra hne
  rcases itemBucket_eq (pricedWaits rule (rows.filter fun row => decide (row.workItemId = id))) with
    ⟨hnil, -⟩ | ⟨-, b, hb, -⟩
  · exact hne hnil
  · rw [← pricedWaits_filter, ← find_groups (fun p : PricedWait => p.1.workItemId) bumpItem] at hb
    have hmem := (find_eq_some (keys_groups_nodup _ _ _)).mp hb
    refine h (costItem (reportLoop rule rows).total id b) ?_ rfl
    rw [allItems, (rank_perm _ _).mem_iff]
    refine List.mem_map.mpr ⟨(id, b), ?_, rfl⟩
    rw [reportLoop_eq]
    exact hmem

theorem itemCost_of_report {version : Option Nat} (hset : getSet db orgId version = .ok set)
    (hcollect : collectWaits parseDate db.flow orgId range { filter with itemId := none } now = .ok w)
    {item : WorkItem} (hitem : item ∈ (loadItems db.flow orgId w.windowTo { filter with itemId := none }).1) :
    let ps := pricedWaits (ruleFor db orgId set) (w.rows.filter fun row => decide (row.workItemId = item.id))
    ∃ c, itemCost parseDate db orgId item.id range version now = .ok c ∧
      c.figures.totalEstimatedCost = (if ps = [] then none else some (totalCost ps)) ∧
      c.figures.costedMinutes = toMinutes (totalMs ps) ∧ c.figures.valueAtRisk = highestValue ps := by
  obtain ⟨w', hw', hrows⟩ := collectWaits_item hcollect hitem
  obtain ⟨hmem, -, hreported⟩ := mem_loadItems hitem
  have horg : item.orgId = orgId := by
    simp only [isReported, Bool.and_eq_true, beq_iff_eq] at hreported
    exact hreported.1.1.1
  have hpos : ∀ row ∈ w'.rows, 0 < row.ms := waits_pos hw'
  obtain ⟨c, hc, hfigures⟩ := @itemCostWith_ok _ _ _ _ _ set _ _ ⟨item, hmem, rfl, horg⟩ hw' hpos
  rw [hrows] at hfigures
  refine ⟨c, ?_, hfigures⟩
  rw [itemCost, hset]
  exact hc

theorem item_of_wait (hcollect : collectWaits parseDate db.flow orgId range filter now = .ok w) {row : WaitRow}
    (hrow : row ∈ w.rows) : ∃ item ∈ (loadItems db.flow orgId w.windowTo filter).1, row.workItemId = item.id := by
  obtain ⟨a, b, -, -, hto, -, hrows⟩ := collectWaits_ok hcollect
  rw [hrows] at hrow
  obtain ⟨item, hitem, hwait⟩ := List.mem_flatMap.mp hrow
  exact ⟨item, hto ▸ hitem, (itemWaits_spec hwait).1⟩

theorem reconciles {version : Option Nat} (hset : getSet db orgId version = .ok set)
    (hcollect : collectWaits parseDate db.flow orgId range { filter with itemId := none } now = .ok w) :
    Reconciles parseDate db orgId range filter version now
      (reportFigures set.isSome w (reportLoop (ruleFor db orgId set) w.rows)) w
      (reportLoop (ruleFor db orgId set) w.rows) := by
  have htotal : (reportFigures set.isSome w (reportLoop (ruleFor db orgId set) w.rows)).totalEstimatedCost =
      if pricedWaits (ruleFor db orgId set) w.rows = [] then none
      else some (totalCost (pricedWaits (ruleFor db orgId set) w.rows)) := by
    simp only [reportFigures, reportLoop_eq, costed_iff _ (waits_pos hcollect), (isCents_total _).round2]
    by_cases hnil : pricedWaits (ruleFor db orgId set) w.rows = []
    · simp [hnil]
    · obtain ⟨p, hp⟩ := List.exists_mem_of_ne_nil _ hnil
      obtain ⟨row, -, hprice⟩ := List.mem_filterMap.mp hp
      obtain ⟨r, hrule, -⟩ := Option.map_eq_some_iff.mp hprice
      simp [hnil, set_of_rule hrule]
  have hbump (p : PricedWait) (b : Option Bucket) :
      (bump p.cost p.1.ms b).cost = (b.map (·.cost)).getD 0 + p.cost := by cases b <;> rfl
  have hteam (p : PricedWait) (b : Option TeamBucket) :
      (bumpTeam p b).bucket.cost = (b.map (·.bucket.cost)).getD 0 + p.cost := by cases b <;> rfl
  have hitem (p : PricedWait) (b : Option ItemBucket) :
      (bumpItem p b).bucket.cost = (b.map (·.bucket.cost)).getD 0 + p.cost := by cases b <;> rfl
  refine ⟨?_, ?_, ?_, ?_, ⟨rfl, rfl⟩, ?_, ?_, ?_, ⟨rfl, rfl⟩⟩
  · rw [htotal]
    simp only [reportFigures, grouped, reportLoop_eq]
    exact (sum_grouped (fun p : PricedWait => p.1.state) (fun p => bump p.cost p.1.ms) (·.cost) hbump (·.cost)
      (fun e => costGroup (totalCost _) e.1 none e.2) (fun _ => rfl) _).symm
  · rw [htotal]
    simp only [reportFigures, grouped, reportLoop_eq]
    exact (sum_grouped (fun p : PricedWait => p.1.reason) (fun p => bump p.cost p.1.ms) (·.cost) hbump (·.cost)
      (fun e => costGroup (totalCost _) e.1 none e.2) (fun _ => rfl) _).symm
  · rw [htotal]
    simp only [reportFigures, groupedTeams, reportLoop_eq]
    exact (sum_grouped (fun p : PricedWait => p.1.teamId) bumpTeam (·.bucket.cost) hteam (·.cost)
      (fun e => costGroup (totalCost _) e.1 e.2.name e.2.bucket) (fun _ => rfl) _).symm
  · rw [htotal]
    simp only [allItems, reportLoop_eq]
    exact (sum_grouped (fun p : PricedWait => p.1.workItemId) bumpItem (·.bucket.cost) hitem (·.cost)
      (fun e => costItem (totalCost _) e.1 e.2) (fun _ => rfl) _).symm
  · intro entry hentry
    obtain ⟨hne, hcost, hminutes, hvalue⟩ := mem_allItems hentry
    obtain ⟨p, hp⟩ := List.exists_mem_of_ne_nil _ hne
    obtain ⟨row, hrow, -⟩ := List.mem_filterMap.mp hp
    obtain ⟨hmem, hid⟩ := List.mem_filter.mp hrow
    obtain ⟨item, hitem, hrowId⟩ := item_of_wait hcollect hmem
    have hentryId : entry.workItemId = item.id := (of_decide_eq_true hid).symm.trans hrowId
    obtain ⟨c, hc, htotals, hcosted, hrisk⟩ := itemCost_of_report hset hcollect hitem
    rw [← hentryId] at hc htotals hcosted hrisk
    refine ⟨c, hc, ?_, hcosted.trans hminutes.symm, hrisk.trans hvalue.symm⟩
    rw [htotals, if_neg hne, hcost]
  · intro item hitem hnone
    obtain ⟨c, hc, htotals, hcosted, hrisk⟩ := itemCost_of_report hset hcollect hitem
    have hnil := priced_of_unlisted hnone
    rw [hnil] at htotals hcosted hrisk
    exact ⟨c, hc, htotals, hcosted.trans toMinutes_zero, hrisk⟩
  · obtain ⟨-, -, -, -, -, hsum, -⟩ := collectWaits_ok hcollect
    rw [hsum, reportLoop_eq]
    exact ms_add _ _

/-- **The report reconciles**, truncated or not. -/
theorem report_reconciles (version : Option Nat) {r : CostReport}
    (h : report parseDate db orgId range filter version now = .ok r) :
    ∃ set w, getSet db orgId version = .ok set ∧
      collectWaits parseDate db.flow orgId range { filter with itemId := none } now = .ok w ∧
      Reconciles parseDate db orgId range filter version now r.figures w (reportLoop (ruleFor db orgId set) w.rows) := by
  unfold report at h
  cases hset : getSet db orgId version with
  | error e =>
    rw [hset] at h
    cases h
  | ok set =>
    rw [hset] at h
    simp only [bind, Except.bind, reportWith] at h
    cases hcollect : collectWaits parseDate db.flow orgId range { filter with itemId := none } now with
    | error e =>
      rw [hcollect] at h
      cases h
    | ok w =>
      rw [hcollect] at h
      obtain rfl := Except.ok.inj h
      exact ⟨set, w, rfl, rfl, reconciles hset hcollect⟩

end

/-- The organisation's default rate. -/
def defaultRule : CostRule := ⟨7, none, none, none, none, 1000, some 20000, some "default"⟩

def pricedDb : CostDb where
  flow := reviewDb
  serviceLinks := []
  sets _ := [⟨1, "USD", none, "finance", 0, [defaultRule]⟩]

theorem report_reconciles_review : ∃ r set w,
    report parseDayNumber pricedDb 1 ⟨some "0", some "2"⟩ ⟨none, none, none⟩ none 259200000 = .ok r ∧
      r.figures.itemsCosted = 1 ∧
      Reconciles parseDayNumber pricedDb 1 ⟨some "0", some "2"⟩ ⟨none, none, none⟩ none 259200000 r.figures w
        (reportLoop (ruleFor pricedDb 1 set) w.rows) := by
  obtain ⟨r, hr, hone⟩ : ∃ r,
      report parseDayNumber pricedDb 1 ⟨some "0", some "2"⟩ ⟨none, none, none⟩ none 259200000 = .ok r ∧
        r.figures.itemsCosted = 1 := ⟨_, rfl, by decide⟩
  obtain ⟨set, w, -, -, hreconciles⟩ := report_reconciles none hr
  exact ⟨r, set, w, hr, hone, hreconciles⟩

end Cadena.Flow
