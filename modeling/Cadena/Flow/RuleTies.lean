import Cadena.Flow.CostReport

/-!
# Ties between cost rules

An item may be in several services, and then two rules for its services can be
equally specific and have one rate. The ids, which are drawn anew whenever the
assumptions are saved, decide which of them prices the item. The cost is that of
the rate, but the value at risk is that of the rule.
-/

namespace Cadena.Flow

open Cadena.Base Cadena.WorkItems Page

/-! ## What figures see of a rule -/

/-- What the figures are made from. -/
def CostRule.price (rule : CostRule) : Rat × Option Rat := (rule.ratePerDay, rule.fixedValueAtRisk)

section
variable {rule rule' : WaitRow → Option CostRule} {row : WaitRow} {rows : List WaitRow}

theorem price_cases (h : (rule' row).map (·.price) = (rule row).map (·.price)) :
    rule row = none ∧ rule' row = none ∨ ∃ r r', rule row = some r ∧ rule' row = some r' ∧
      r'.ratePerDay = r.ratePerDay ∧ r'.fixedValueAtRisk = r.fixedValueAtRisk := by
  cases hr : rule row with
  | none =>
    rw [hr, Option.map_none, Option.map_eq_none_iff] at h
    exact .inl ⟨rfl, h⟩
  | some r =>
    rw [hr, Option.map_some, Option.map_eq_some_iff] at h
    obtain ⟨r', hr', hprice⟩ := h
    exact .inr ⟨r, r', rfl, hr', congrArg Prod.fst hprice, congrArg Prod.snd hprice⟩

theorem intervalCost_congr {r r' : CostRule} (h : r'.ratePerDay = r.ratePerDay) (ms : Int) (calendar : SlaCalendar) :
    intervalCost r' ms calendar = intervalCost r ms calendar := by
  rw [intervalCost, intervalCost, h]

theorem itemTotals_congr (h : ∀ row ∈ rows, (rule' row).map (·.price) = (rule row).map (·.price)) (s : ItemTotals) :
    rows.foldl (ItemTotals.add rule') s = rows.foldl (ItemTotals.add rule) s := by
  refine List.foldl_ext _ _ _ fun s row hrow => ?_
  rcases price_cases (h row hrow) with ⟨hr, hr'⟩ | ⟨r, r', hr, hr', hrate, hvalue⟩
  · simp only [ItemTotals.add, hr, hr']
  · simp only [ItemTotals.add, hr, hr', intervalCost_congr hrate, hvalue]

theorem estimatedCosts_congr (h : ∀ row ∈ rows, (rule' row).map (·.price) = (rule row).map (·.price)) :
    (rows.map (costInterval rule')).map (·.estimatedCost) = (rows.map (costInterval rule)).map (·.estimatedCost) := by
  rw [List.map_map, List.map_map]
  refine List.map_congr_left fun row hrow => ?_
  rcases price_cases (h row hrow) with ⟨hr, hr'⟩ | ⟨r, r', hr, hr', hrate, -⟩
  · simp only [Function.comp_apply, costInterval, hr, hr']
  · simp only [Function.comp_apply, costInterval, hr, hr', Option.map_some, intervalCost_congr hrate]

theorem reportLoop_congr (h : ∀ row ∈ rows, (rule' row).map (·.price) = (rule row).map (·.price)) :
    reportLoop rule' rows = reportLoop rule rows := by
  refine List.foldl_ext _ _ _ fun s row hrow => ?_
  rcases price_cases (h row hrow) with ⟨hr, hr'⟩ | ⟨r, r', hr, hr', hrate, hvalue⟩
  · simp only [ReportLoop.add, hr, hr']
  · have hteam : bumpTeam (row, r') = bumpTeam (row, r) := by
      funext old
      simp only [bumpTeam, PricedWait.cost, intervalCost_congr hrate]
    have hitem : bumpItem (row, r') = bumpItem (row, r) := by
      funext old
      simp only [bumpItem, PricedWait.cost, intervalCost_congr hrate, hvalue]
    simp only [ReportLoop.add, hr, hr', hteam, hitem, PricedWait.cost, intervalCost_congr hrate]

end

theorem highestValue_const {v : Option Rat} (hv : ∀ x ∈ v, 0 ≤ x) {ps : List PricedWait} (hne : ps ≠ [])
    (h : ∀ p ∈ ps, p.2.fixedValueAtRisk = v) : highestValue ps = v := by
  induction ps using List.reverseRecOn with
  | nil => exact absurd rfl hne
  | append_singleton ps p ih =>
    have hlast : p.2.fixedValueAtRisk = v := h p (List.mem_append_right _ (List.mem_singleton_self p))
    have hrest : highestValue ps = none ∨ highestValue ps = v := by
      by_cases hps : ps = []
      · exact .inl (by rw [hps]; rfl)
      · exact .inr (ih hps fun q hq => h q (List.mem_append_left _ hq))
    rw [highestValue, List.foldl_append, ← highestValue, List.foldl_cons, List.foldl_nil, hlast]
    cases v with
    | none => exact hrest.elim id id
    | some x =>
      rcases hrest with hrest | hrest
      · rw [hrest, raiseValue, Option.getD_none, max_eq_right (hv x rfl)]
      · rw [hrest, raiseValue, Option.getD_some, max_self]

/-! ## Saving assumptions -/

section
variable {rules rules' : List CostRule} {scope : ItemScope}

theorem Best.of_perm (hperm : rules.Perm rules') {rule : CostRule} (h : Best rules scope rule) :
    Best rules' scope rule :=
  ⟨hperm.mem_iff.mp h.mem, h.applies, fun other hother => h.top other (hperm.mem_iff.mpr hother)⟩

theorem matchRule_perm (hids : (rules.map (·.id)).Nodup) (hperm : rules.Perm rules') :
    matchRule rules' scope = matchRule rules scope := by
  cases h : matchRule rules scope with
  | none =>
    rw [matchRule_none] at h ⊢
    exact fun rule hrule => h rule (hperm.mem_iff.mpr hrule)
  | some rule =>
    obtain ⟨hbest, hleast⟩ := matchRule_best h
    have hids' : (rules'.map (·.id)).Nodup := (hperm.map _).nodup_iff.mp hids
    exact matchRule_eq hids' (hbest.of_perm hperm) fun other hother => hleast other (hother.of_perm hperm.symm)

end

def nextVersion (db : CostDb) (orgId : Uuid) : Nat :=
  match getSet db orgId none with
  | .ok (some current) => current.version + 1
  | _ => 1

/-- The rows that `setAssumptions` inserts for rules it has accepted. -/
def CostDb.save (db : CostDb) (orgId : Uuid) (set : AssumptionSet) : CostDb :=
  { db with
    sets := fun org =>
      if org = orgId then { set with version := nextVersion db orgId } :: db.sets orgId else db.sets org }

section
variable {db : CostDb} {orgId : Uuid} {set : AssumptionSet}

theorem version_lt_next {old : AssumptionSet} (h : old ∈ db.sets orgId) : old.version < nextVersion db orgId := by
  unfold nextVersion getSet
  cases hhead : (sortByKey (fun s : AssumptionSet => OrderDual.toDual s.version) (db.sets orgId)).head? with
  | none =>
    have hsome := (@sortByKey_head_isSome _ _ _ fun s : AssumptionSet => OrderDual.toDual s.version).mpr
      (List.ne_nil_of_mem h)
    rw [hhead] at hsome
    cases hsome
  | some current => exact Nat.lt_succ_of_le (OrderDual.toDual_le_toDual.mp ((sortByKey_head hhead).2 old h))

theorem getSet_save : getSet (db.save orgId set) orgId none =
    .ok (some { set with version := nextVersion db orgId, rules := sortByKey (·.id.toNat) set.rules }) := by
  have hsets : (db.save orgId set).sets orgId = { set with version := nextVersion db orgId } :: db.sets orgId :=
    if_pos rfl
  unfold getSet
  rw [hsets]
  cases hhead : (sortByKey (fun s : AssumptionSet => OrderDual.toDual s.version)
      ({ set with version := nextVersion db orgId } :: db.sets orgId)).head? with
  | none =>
    have hsome := (@sortByKey_head_isSome _ _ _ fun s : AssumptionSet => OrderDual.toDual s.version).mpr
      (List.cons_ne_nil { set with version := nextVersion db orgId } (db.sets orgId))
    rw [hhead] at hsome
    cases hsome
  | some current =>
    obtain ⟨hmem, hfirst⟩ := sortByKey_head hhead
    rcases List.mem_cons.mp hmem with rfl | hold
    · rfl
    · have hnew := OrderDual.toDual_le_toDual.mp (hfirst _ List.mem_cons_self)
      exact absurd (version_lt_next hold) (Nat.not_lt.mpr hnew)

end

/-! ## Two sets with one content -/

/-- The answer for an item without the names of its rules. -/
def ItemCost.prices (c : ItemCost) : ItemFigures × List (Option Rat) := (c.figures, c.intervals.map (·.estimatedCost))

section
variable (parseDate : String → Option Millis) (db : CostDb) (orgId : Uuid) (range : WaitRange) (now : Millis)

def IsWait (row : WaitRow) : Prop :=
  ∃ item ∈ db.flow.items, item.orgId = orgId ∧ ∃ w,
    collectWaits parseDate db.flow orgId range ⟨some item.id, none, none⟩ now = .ok w ∧ row ∈ w.rows

/-- `itemCost` has the same figures whichever way the rules of a set are saved. -/
def SameItemCosts (set : AssumptionSet) : Prop :=
  ∀ rules', SameContent set.rules rules' → ∀ id,
    (itemCost parseDate (db.save orgId { set with rules := rules' }) orgId id range none now).map ItemCost.prices =
      (itemCost parseDate (db.save orgId set) orgId id range none now).map ItemCost.prices

/-- And so has `report`. -/
def SameReports (set : AssumptionSet) : Prop :=
  ∀ rules', SameContent set.rules rules' → ∀ filter,
    (report parseDate (db.save orgId { set with rules := rules' }) orgId range filter none now).map CostReport.figures =
      (report parseDate (db.save orgId set) orgId range filter none now).map CostReport.figures

/-- Prices depend on the content of the rules, and the rule chosen is a best one. -/
structure PricedByContent (set : AssumptionSet) : Prop where
  items : SameItemCosts parseDate db orgId range now set
  reports : SameReports parseDate db orgId range now set
  choice : ∀ scope rule, matchRule set.rules scope = some rule → Best set.rules scope rule

end

section
variable {parseDate : String → Option Millis} {db : CostDb} {orgId : Uuid} {range : WaitRange} {now : Millis}
  {set set' : AssumptionSet}

theorem itemPrices_congr (h : ∀ row, IsWait parseDate db orgId range now row →
      (ruleFor db orgId (some set') row).map (·.price) = (ruleFor db orgId (some set) row).map (·.price)) (id : Uuid) :
    (itemCostWith parseDate db orgId id range now (some set')).map ItemCost.prices =
      (itemCostWith parseDate db orgId id range now (some set)).map ItemCost.prices := by
  unfold itemCostWith
  by_cases hfound : (db.flow.items.filter fun w => w.id == id && w.orgId == orgId).isEmpty = true
  · rw [if_pos hfound, if_pos hfound]
  · rw [if_neg hfound, if_neg hfound]
    obtain ⟨item, hitem⟩ : ∃ item, item ∈ db.flow.items.filter fun w => w.id == id && w.orgId == orgId := by
      rw [Bool.not_eq_true, List.isEmpty_eq_false_iff_exists_mem] at hfound
      exact hfound
    simp only [List.mem_filter, Bool.and_eq_true, beq_iff_eq] at hitem
    obtain ⟨hmem, rfl, horg⟩ := hitem
    cases hw : collectWaits parseDate db.flow orgId range ⟨some item.id, none, none⟩ now with
    | error e => rfl
    | ok w =>
      have hprice : ∀ row ∈ w.rows, (ruleFor db orgId (some set') row).map (·.price) =
          (ruleFor db orgId (some set) row).map (·.price) :=
        fun row hrow => h row ⟨item, hmem, horg, w, hw, hrow⟩
      have hcosts := estimatedCosts_congr hprice
      have hany : (w.rows.map (costInterval (ruleFor db orgId (some set')))).any (·.estimatedCost.isSome) =
          (w.rows.map (costInterval (ruleFor db orgId (some set)))).any (·.estimatedCost.isSome) := by
        have hisSome := congrArg (List.any · Option.isSome) hcosts
        simp only [List.any_map] at hisSome ⊢
        exact hisSome
      simp only [Except.map, ItemCost.prices, hcosts, itemTotals_congr hprice, hany]

theorem reportFigures_congr (h : ∀ row, IsWait parseDate db orgId range now row →
      (ruleFor db orgId (some set') row).map (·.price) = (ruleFor db orgId (some set) row).map (·.price))
    (filter : WaitFilter) :
    (reportWith parseDate db orgId range filter now (some set')).map CostReport.figures =
      (reportWith parseDate db orgId range filter now (some set)).map CostReport.figures := by
  unfold reportWith
  cases hw : collectWaits parseDate db.flow orgId range { filter with itemId := none } now with
  | error e => rfl
  | ok w =>
    have hprice : ∀ row ∈ w.rows, (ruleFor db orgId (some set') row).map (·.price) =
        (ruleFor db orgId (some set) row).map (·.price) := by
      intro row hrow
      obtain ⟨item, hitem, hid⟩ := item_of_wait hw hrow
      obtain ⟨w', hw', hrows⟩ := collectWaits_item hw hitem
      obtain ⟨hmem, -, hreported⟩ := mem_loadItems hitem
      simp only [isReported, Bool.and_eq_true, beq_iff_eq] at hreported
      refine h row ⟨item, hmem, hreported.1.1.1, w', hw', ?_⟩
      rw [hrows]
      exact List.mem_filter.mpr ⟨hrow, by simpa using hid⟩
    simp only [Except.map, reportLoop_congr hprice, Option.isSome_some]

theorem ruleFor_saved (hids : (set.rules.map (·.id)).Nodup) (version : Nat) (row : WaitRow) :
    ruleFor db orgId (some { set with version := version, rules := sortByKey (·.id.toNat) set.rules }) row =
      ruleFor db orgId (some set) row :=
  matchRule_perm hids (sortByKey_perm _ _).symm

theorem itemCost_saved (hids : (set.rules.map (·.id)).Nodup) (id : Uuid) :
    (itemCost parseDate (db.save orgId set) orgId id range none now).map ItemCost.prices =
      (itemCostWith parseDate db orgId id range now (some set)).map ItemCost.prices := by
  rw [itemCost, getSet_save]
  exact itemPrices_congr (fun row _ => congrArg _ (ruleFor_saved hids _ row)) id

theorem report_saved (hids : (set.rules.map (·.id)).Nodup) (filter : WaitFilter) :
    (report parseDate (db.save orgId set) orgId range filter none now).map CostReport.figures =
      (reportWith parseDate db orgId range filter now (some set)).map CostReport.figures := by
  rw [report, getSet_save]
  exact reportFigures_congr (fun row _ => congrArg _ (ruleFor_saved hids _ row)) filter

variable {row : WaitRow}

theorem ruleFor_price {rules' : List CostRule} (hsame : SameContent set.rules rules')
    (hsingle : SingleValue set.rules (scopeOf db orgId row)) :
    (ruleFor db orgId (some { set with rules := rules' }) row).map (·.price) =
      (ruleFor db orgId (some set) row).map (·.price) := by
  obtain ⟨hrate, hvalue⟩ := @matchRule_content _ _ (scopeOf db orgId row) hsame.1
  replace hvalue := hvalue hsingle
  show (matchRule rules' (scopeOf db orgId row)).map _ = (matchRule set.rules (scopeOf db orgId row)).map _
  cases h : matchRule set.rules (scopeOf db orgId row) with
  | none =>
    rw [h, Option.map_none, Option.map_eq_none_iff] at hrate
    rw [hrate]
  | some r =>
    rw [h, Option.map_some, Option.map_eq_some_iff] at hrate
    obtain ⟨r', hr', hrate⟩ := hrate
    rw [hr', h, Option.map_some, Option.map_some, Option.some.injEq] at hvalue
    rw [hr', Option.map_some, Option.map_some, CostRule.price, CostRule.price, hrate, hvalue]

theorem scopeOf_waits {item : WorkItem} (hmem : item ∈ db.flow.items) (horg : item.orgId = orgId) {w : CollectedWaits}
    (hw : collectWaits parseDate db.flow orgId range ⟨some item.id, none, none⟩ now = .ok w)
    (hrow : row ∈ w.rows) :
    scopeOf db orgId row = ⟨item.teamId, item.type, item.priority, serviceLinks db orgId item.id⟩ := by
  obtain ⟨a, b, -, -, -, -, hrows⟩ := collectWaits_ok hw
  rw [hrows] at hrow
  obtain ⟨loaded, hloaded, hwait⟩ := List.mem_flatMap.mp hrow
  obtain ⟨hmem', -, hreported⟩ := mem_loadItems hloaded
  have hid : loaded.id = item.id := by
    simp only [isReported, Bool.and_eq_true, Option.all_some, beq_iff_eq] at hreported
    exact hreported.2
  obtain rfl := Table.eq_of_key db.flow.itemIds hmem' hmem hid
  obtain ⟨hrowId, htype, hpriority, hteam, -⟩ := itemWaits_spec hwait
  rw [scopeOf, hrowId, htype, hpriority, hteam]

theorem itemCost_value {item : WorkItem} (hmem : item ∈ db.flow.items) (horg : item.orgId = orgId) {w : CollectedWaits}
    (hw : collectWaits parseDate db.flow orgId range ⟨some item.id, none, none⟩ now = .ok w)
    (hrow : row ∈ w.rows) {rule : CostRule} (hrule : matchRule set.rules (scopeOf db orgId row) = some rule)
    (hvalue : ∀ value ∈ rule.fixedValueAtRisk, 0 ≤ value) :
    ∃ c, itemCostWith parseDate db orgId item.id range now (some set) = .ok c ∧
      c.figures.valueAtRisk = rule.fixedValueAtRisk := by
  obtain ⟨c, hc, -, -, hrisk⟩ := @itemCostWith_ok _ _ _ _ _ (some set) _ _ ⟨item, hmem, rfl, horg⟩ hw (waits_pos hw)
  have hall : ∀ other ∈ w.rows, ruleFor db orgId (some set) other = some rule := by
    intro other hother
    show matchRule set.rules (scopeOf db orgId other) = some rule
    rw [scopeOf_waits hmem horg hw hother, ← scopeOf_waits hmem horg hw hrow, hrule]
  have hpriced : ∀ p ∈ pricedWaits (ruleFor db orgId (some set)) w.rows, p.2 = rule := by
    intro p hp
    obtain ⟨other, hother, hprice⟩ := List.mem_filterMap.mp hp
    rw [hall other hother, Option.map_some, Option.some.injEq] at hprice
    rw [← hprice]
  have hne : pricedWaits (ruleFor db orgId (some set)) w.rows ≠ [] := by
    refine List.ne_nil_of_mem (List.mem_filterMap.mpr ⟨row, hrow, ?_⟩ : (row, rule) ∈ _)
    rw [hall row hrow, Option.map_some]
  exact ⟨c, hc, hrisk.trans (highestValue_const hvalue hne fun p hp => by rw [hpriced p hp])⟩

theorem value_reaches_figure (hacc : Accepted set.rules) (hwait : IsWait parseDate db orgId range now row)
    (hties : ¬ SingleValue set.rules (scopeOf db orgId row)) : ¬ SameItemCosts parseDate db orgId range now set := by
  obtain ⟨item, hmem, horg, w, hw, hrow⟩ := hwait
  obtain ⟨i, j, rule, rule', hrule, hrule', hdiffer⟩ := exchange_value hacc.ids hties
  have hvalue : ∀ value ∈ rule.fixedValueAtRisk, 0 ≤ value := hacc.value rule (matchRule_best hrule).1.mem
  have hvalue' : ∀ value ∈ rule'.fixedValueAtRisk, 0 ≤ value := by
    obtain ⟨old, hold, rfl⟩ := List.mem_map.mp (matchRule_best hrule').1.mem
    exact hacc.value old hold
  obtain ⟨c, hc, hrisk⟩ := itemCost_value hmem horg hw hrow hrule hvalue
  obtain ⟨c', hc', hrisk'⟩ := @itemCost_value _ _ _ _ _ { set with rules := exchange i j set.rules } _ _ hmem horg _ hw
    hrow _ hrule' hvalue'
  intro hsame
  have hexchange := exchange_same hacc.ids i j
  have hprices := hsame _ hexchange item.id
  rw [itemCost_saved hacc.ids, @itemCost_saved _ _ _ _ _ { set with rules := exchange i j set.rules } hexchange.2, hc, hc',
    Except.map, Except.map, Except.ok.injEq] at hprices
  have hfigures : c'.figures.valueAtRisk = c.figures.valueAtRisk := congrArg (·.1.valueAtRisk) hprices
  rw [hrisk, hrisk'] at hfigures
  exact hdiffer hfigures

/-- **Prices depend on the content alone where no wait has a tie.** -/
theorem priced_by_content_iff {tenant : CostTenant} {assumptions : List (Option RawAssumption)}
    (hacc : acceptedRules tenant assumptions = .ok set.rules) :
    PricedByContent parseDate db orgId range now set ↔
      ∀ row, IsWait parseDate db orgId range now row → SingleValue set.rules (scopeOf db orgId row) := by
  refine ⟨fun h row hwait => ?_, fun h => ?_⟩
  · by_contra hties
    exact value_reaches_figure (accepted_of_rules hacc) hwait hties h.items
  · have hids := (accepted_of_rules hacc).ids
    refine ⟨fun rules' hsame id => ?_, fun rules' hsame filter => ?_, fun scope rule hrule => (matchRule_best hrule).1⟩
    · rw [itemCost_saved hids, @itemCost_saved _ _ _ _ _ { set with rules := rules' } hsame.2]
      exact itemPrices_congr (fun row hwait => ruleFor_price hsame (h row hwait)) id
    · rw [report_saved hids, @report_saved _ _ _ _ _ { set with rules := rules' } hsame.2]
      exact reportFigures_congr (fun row hwait => ruleFor_price hsame (h row hwait)) filter

end

/-! ## An item in two services -/

/-- A service rule with a rate of 1000, as it is sent. -/
def serviceAssumption (id service : Uuid) (value : Rat) : RawAssumption where
  id := id
  teamId := .absent
  itemType := .absent
  priority := .absent
  serviceId := .text (uuidString service)
  ratePerDay := .number 1000
  fixedValueAtRisk := .number value
  label := .absent

def serviceRule (id service : Uuid) (value : Rat) : CostRule :=
  ⟨id, none, none, none, some service, 1000, some value, none⟩

def serviceSet (rules : List CostRule) : AssumptionSet := ⟨1, "USD", none, "finance", 0, rules⟩

/-- The review of an item that is in two services. -/
def servicesDb : CostDb where
  flow := reviewDb
  serviceLinks := [⟨1, 1, 1⟩, ⟨1, 1, 2⟩]
  sets _ := []

theorem accepted_one : acceptedRules ⟨[], [1, 2]⟩ [some (serviceAssumption 7 1 20000)] = .ok [serviceRule 7 1 20000] := by
  decide

theorem accepted_two : acceptedRules ⟨[], [1, 2]⟩
    [some (serviceAssumption 7 1 20000), some (serviceAssumption 8 2 50000)] =
      .ok [serviceRule 7 1 20000, serviceRule 8 2 50000] := by
  decide

/-- A rule alone has no tie. -/
theorem priced_by_content_one :
    PricedByContent parseDayNumber servicesDb 1 ⟨some "0", some "2"⟩ 259200000 (serviceSet [serviceRule 7 1 20000]) := by
  refine (@priced_by_content_iff _ _ _ _ _ (serviceSet [serviceRule 7 1 20000]) _ _ accepted_one).mpr ?_
  intro row _ a b ha hb
  rw [List.mem_singleton.mp ha.mem, List.mem_singleton.mp hb.mem]

theorem services_wait : ∃ row, IsWait parseDayNumber servicesDb 1 ⟨some "0", some "2"⟩ 259200000 row ∧
    scopeOf servicesDb 1 row = ⟨1, .story, .p2, [1, 2]⟩ := by
  obtain ⟨w, hw, hne⟩ : ∃ w, collectWaits parseDayNumber reviewDb 1 ⟨some "0", some "2"⟩ ⟨some 1, none, none⟩ 259200000 =
      .ok w ∧ w.rows.length ≠ 0 := ⟨_, rfl, by decide⟩
  obtain ⟨row, hrow⟩ := List.exists_mem_of_length_pos (Nat.pos_of_ne_zero hne)
  have hmem : ({ ledgerStory with status := "In Review", createdAt := 43200000 } : WorkItem) ∈ servicesDb.flow.items :=
    List.mem_singleton_self _
  exact ⟨row, ⟨_, hmem, rfl, w, hw, hrow⟩, scopeOf_waits hmem rfl hw hrow⟩

/-- Of two service rules with one rate and values of 20000 and 50000 the ids
choose. -/
theorem services_tie : ¬ ∀ (tenant : CostTenant) (assumptions : List (Option RawAssumption)) (set : AssumptionSet),
    acceptedRules tenant assumptions = .ok set.rules →
      PricedByContent parseDayNumber servicesDb 1 ⟨some "0", some "2"⟩ 259200000 set := by
  intro h
  have hpriced := h _ _ (serviceSet [serviceRule 7 1 20000, serviceRule 8 2 50000]) accepted_two
  obtain ⟨row, hwait, hscope⟩ := services_wait
  refine value_reaches_figure (accepted_of_rules accepted_two) hwait (fun hsingle => ?_) hpriced.items
  rw [hscope] at hsingle
  have hbest (rule : CostRule) (hrule : rule ∈ [serviceRule 7 1 20000, serviceRule 8 2 50000])
      (happlies : rule.applies ⟨1, .story, .p2, [1, 2]⟩ = true)
      (hrank : ∀ other ∈ [serviceRule 7 1 20000, serviceRule 8 2 50000], other.rank = rule.rank) :
      Best [serviceRule 7 1 20000, serviceRule 8 2 50000] ⟨1, .story, .p2, [1, 2]⟩ rule :=
    ⟨hrule, happlies, fun other hother _ => le_of_eq (hrank other hother)⟩
  have hvalues := hsingle _ _ (hbest (serviceRule 7 1 20000) (by simp) (by decide) (by decide))
    (hbest (serviceRule 8 2 50000) (by simp) (by decide) (by decide))
  exact absurd hvalues (by decide)

end Cadena.Flow
