import Cadena.Base.CodeUnits
import Cadena.Flow.WaitScore
import Cadena.WorkItems.UpdateWorkItem

/-!
# Cost rules

`cost-of-delay.ts`, and the assumptions that `setAssumptions` accepts: which rule
prices a wait of an item, and what the wait costs under it. Figures are exact
decimals.
-/

namespace Cadena.Flow

open Cadena.Base Cadena.WorkItems Page

structure CostRule where
  id : Uuid
  teamId : Option Uuid
  itemType : Option WorkItemType
  priority : Option WorkItemPriority
  serviceId : Option Uuid
  ratePerDay : Rat
  fixedValueAtRisk : Option Rat
  label : Option String
  deriving DecidableEq

structure ItemScope where
  teamId : Uuid
  itemType : WorkItemType
  priority : WorkItemPriority
  serviceIds : List Uuid

def minutesPerDay : SlaCalendar → Rat
  | .always => 1440
  | .businessHours => 480

/-- `WEIGHTS`, and whether the rule sets the dimension. -/
def CostRule.dimensions (rule : CostRule) : List (Bool × Nat) :=
  [(rule.serviceId.isSome, 8), (rule.teamId.isSome, 4), (rule.itemType.isSome, 2), (rule.priority.isSome, 1)]

/-- The number of the set dimensions and their weight. -/
def specificity (rule : CostRule) : Nat × Nat :=
  rule.dimensions.foldl (fun acc d => if d.1 then (acc.1 + 1, acc.2 + d.2) else acc) (0, 0)

def CostRule.applies (rule : CostRule) (scope : ItemScope) : Bool :=
  rule.teamId.all (· == scope.teamId) && rule.itemType.all (· == scope.itemType)
    && rule.priority.all (· == scope.priority) && rule.serviceId.all (scope.serviceIds.contains ·)

/-- The comparison of `matchRule`: more dimensions, then more weight, then the
higher rate, then the smaller id comes first. -/
def ruleOrder (rule : CostRule) : Lex (Natᵒᵈ × Lex (Natᵒᵈ × Lex (Ratᵒᵈ × Nat))) :=
  toLex (.toDual (specificity rule).1, toLex (.toDual (specificity rule).2,
    toLex (.toDual rule.ratePerDay, rule.id.toNat)))

/-- The most specific rule whose every set dimension matches the item. -/
def matchRule (rules : List CostRule) (scope : ItemScope) : Option CostRule :=
  (sortByKey ruleOrder (rules.filter (·.applies scope))).head?

def round2 (value : Rat) : Rat := roundCents value

/-- Cost of `ms` business milliseconds of waiting under the rule. -/
def intervalCost (rule : CostRule) (ms : Int) (calendar : SlaCalendar) : Rat :=
  round2 (rule.ratePerDay * (ms / 60000) / minutesPerDay calendar)

/-! ## The rank of a rule -/

/-- What a rule is chosen for: the number of set dimensions, a service over a
team over an item type over a priority, and the rate. -/
def CostRule.rank (rule : CostRule) : Lex (Nat × Lex (Bool × Lex (Bool × Lex (Bool × Lex (Bool × Rat))))) :=
  toLex (rule.dimensions.countP (·.1), toLex (rule.serviceId.isSome, toLex (rule.teamId.isSome,
    toLex (rule.itemType.isSome, toLex (rule.priority.isSome, rule.ratePerDay)))))

structure Best (rules : List CostRule) (scope : ItemScope) (rule : CostRule) : Prop where
  mem : rule ∈ rules
  applies : rule.applies scope = true
  top : ∀ other ∈ rules, other.applies scope = true → other.rank ≤ rule.rank

section
variable {α β : Type} [LinearOrder α] [LinearOrder β]

/-- What decides between equal pairs decides between equal second parts. -/
theorem lex_or (x y : α) (u v : β) (q : Prop) :
    toLex (x, u) < toLex (y, v) ∨ toLex (x, u) = toLex (y, v) ∧ q ↔ x < y ∨ x = y ∧ (u < v ∨ u = v ∧ q) := by
  rw [Prod.Lex.toLex_lt_toLex, toLex_inj, Prod.mk.injEq]
  tauto

end

theorem weights_order : ∀ s t i p s' t' i' p' q : Bool,
    (8 * s.toNat + 4 * t.toNat + 2 * i.toNat + p.toNat < 8 * s'.toNat + 4 * t'.toNat + 2 * i'.toNat + p'.toNat ∨
      8 * s.toNat + 4 * t.toNat + 2 * i.toNat + p.toNat = 8 * s'.toNat + 4 * t'.toNat + 2 * i'.toNat + p'.toNat
        ∧ q = true) ↔
    s < s' ∨ s = s' ∧ (t < t' ∨ t = t' ∧ (i < i' ∨ i = i' ∧ (p < p' ∨ p = p' ∧ q = true))) := by decide

theorem specificity_eq (rule : CostRule) :
    specificity rule = (rule.dimensions.countP (·.1), 8 * rule.serviceId.isSome.toNat + 4 * rule.teamId.isSome.toNat
      + 2 * rule.itemType.isSome.toNat + rule.priority.isSome.toNat) := by
  have hall : ∀ s t i p : Bool, [(s, 8), (t, 4), (i, 2), (p, 1)].foldl
      (fun (acc : Nat × Nat) d => if d.1 then (acc.1 + 1, acc.2 + d.2) else acc) (0, 0) =
        ([(s, 8), (t, 4), (i, 2), (p, 1)].countP (·.1), 8 * s.toNat + 4 * t.toNat + 2 * i.toNat + p.toNat) := by
    decide
  exact hall _ _ _ _

theorem ruleOrder_le (a b : CostRule) :
    ruleOrder a ≤ ruleOrder b ↔ b.rank < a.rank ∨ b.rank = a.rank ∧ a.id.toNat ≤ b.id.toNat := by
  have hrank := weights_order b.serviceId.isSome b.teamId.isSome b.itemType.isSome b.priority.isSome
    a.serviceId.isSome a.teamId.isSome a.itemType.isSome a.priority.isSome
    (decide (b.ratePerDay < a.ratePerDay ∨ b.ratePerDay = a.ratePerDay ∧ a.id.toNat ≤ b.id.toNat))
  rw [decide_eq_true_iff] at hrank
  unfold ruleOrder CostRule.rank
  rw [lex_or, lex_or, lex_or, lex_or, lex_or, ← hrank, specificity_eq, specificity_eq]
  simp only [Prod.Lex.toLex_le_toLex, OrderDual.toDual_lt_toDual, EmbeddingLike.apply_eq_iff_eq]
  simp only [eq_comm]

variable {rules : List CostRule}

theorem matchRule_best {scope : ItemScope} {rule : CostRule} (h : matchRule rules scope = some rule) :
    Best rules scope rule ∧ ∀ other, Best rules scope other → rule.id.toNat ≤ other.id.toNat := by
  obtain ⟨hmem, hfirst⟩ := sortByKey_head h
  obtain ⟨hrule, happlies⟩ := List.mem_filter.mp hmem
  have hle (other : CostRule) (hother : other ∈ rules) (hscope : other.applies scope = true) :=
    (ruleOrder_le rule other).mp (hfirst other (List.mem_filter.mpr ⟨hother, hscope⟩))
  refine ⟨⟨hrule, happlies, fun other hother hscope => ?_⟩, fun other hbest => ?_⟩
  · exact (hle other hother hscope).elim le_of_lt fun h => le_of_eq h.1
  · rcases hle other hbest.mem hbest.applies with hlt | ⟨-, hid⟩
    · exact absurd (hbest.top rule hrule happlies) (not_le.mpr hlt)
    · exact hid

theorem matchRule_none {scope : ItemScope} :
    matchRule rules scope = none ↔ ∀ rule ∈ rules, rule.applies scope = false := by
  rw [matchRule, ← Option.not_isSome_iff_eq_none, sortByKey_head_isSome, not_not, List.filter_eq_nil_iff]
  simp only [Bool.not_eq_true]

theorem matchRule_eq {scope : ItemScope} {rule : CostRule}
    (hids : (rules.map (·.id)).Nodup) (hbest : Best rules scope rule)
    (hfirst : ∀ other, Best rules scope other → rule.id.toNat ≤ other.id.toNat) :
    matchRule rules scope = some rule := by
  cases hmatch : matchRule rules scope with
  | none =>
    have hnot := matchRule_none.mp hmatch rule hbest.mem
    rw [hbest.applies] at hnot
    cases hnot
  | some chosen =>
    obtain ⟨hchosen, hleast⟩ := matchRule_best hmatch
    have hid : chosen.id = rule.id :=
      BitVec.eq_of_toNat_eq (Nat.le_antisymm (hleast rule hbest) (hfirst chosen hchosen))
    rw [List.inj_on_of_nodup_map hids hchosen.mem hbest.mem hid]

/-! ## Assumptions -/

/-- A value of a request: `undefined`, `null` and the empty text are absent. -/
inductive RawValue where
  | absent
  | text (value : String)
  | number (value : Rat)
  /-- An infinity, a boolean, an array or an object. -/
  | other
  deriving DecidableEq

/-- An element of `assumptions`, with the id that is drawn for it. -/
structure RawAssumption where
  id : Uuid
  teamId : RawValue
  itemType : RawValue
  priority : RawValue
  serviceId : RawValue
  ratePerDay : RawValue
  fixedValueAtRisk : RawValue
  label : RawValue

structure CostTenant where
  teams : List Uuid
  services : List Uuid

def maxRules : Nat := 200
def maxRate : Rat := 1000000000

def readChoice {α : Type} (table : List (String × α)) (error : String) : RawValue → Except String (Option α)
  | .absent => .ok none
  | .text value => match table.lookup value with
      | some a => .ok (some a)
      | none => .error error
  | _ => .error error

def idTable (ids : List Uuid) : List (String × Uuid) := ids.map fun id => (uuidString id, id)

def itemTypeTable : List (String × WorkItemType) :=
  [("epic", .epic), ("story", .story), ("incident", .incident), ("release", .release)]

def priorityTable : List (String × WorkItemPriority) :=
  [("P0", .p0), ("P1", .p1), ("P2", .p2), ("P3", .p3), ("P4", .p4)]

def readRate (error : String) : RawValue → Except String Rat
  | .number rate => if rate < 0 ∨ maxRate < rate then .error error else .ok rate
  | _ => .error error

def readValue (error : String) : RawValue → Except String (Option Rat)
  | .absent => .ok none
  | .number value => if value < 0 ∨ 1000000000000 < value then .error error else .ok (some value)
  | _ => .error error

def readLabel (error : String) : RawValue → Except String (Option String)
  | .absent => .ok none
  | .text label =>
    if 120 < (units label).length then .error error
    else .ok (if trimString label = "" then none else some (trimString label))
  | _ => .error error

/-- One pass of the loop of `setAssumptions`, before its scope is compared. -/
def readAssumption (tenant : CostTenant) (place : String) (raw : RawAssumption) : Except String CostRule := do
  let team ← readChoice (idTable tenant.teams) (place ++ ": team_id must be a team in this organization") raw.teamId
  let type ← readChoice itemTypeTable (place ++ ": item_type must be one of epic, story, incident, release")
    raw.itemType
  let priority ← readChoice priorityTable (place ++ ": priority must be one of P0, P1, P2, P3, P4") raw.priority
  let service ← readChoice (idTable tenant.services) (place ++ ": service_id must be a service in this organization")
    raw.serviceId
  let rate ← readRate (place ++ ": rate_per_day must be a number from 0 to 1000000000") raw.ratePerDay
  let value ← readValue (place ++ ": fixed_value_at_risk must be a non-negative number") raw.fixedValueAtRisk
  let label ← readLabel (place ++ ": label must be text of at most 120 characters") raw.label
  return ⟨raw.id, team, type, priority, service, rate, value, label⟩

/-- `rulePart`, of which `scopeKey` is the text. -/
def rulePart (rule : CostRule) : Option Uuid × Option WorkItemType × Option WorkItemPriority × Option Uuid :=
  (rule.teamId, rule.itemType, rule.priority, rule.serviceId)

/-- The loop of `setAssumptions`; an element that is no object is `none`. -/
def readAssumptions (tenant : CostTenant) : List CostRule → List (Option RawAssumption) → Except String (List CostRule)
  | rules, [] => .ok rules
  | rules, raw :: rest => do
    let place := "assumption " ++ toString (rules.length + 1)
    match raw with
    | none => throw (place ++ " must be an object")
    | some raw =>
      let rule ← readAssumption tenant place raw
      if (rules.map rulePart).contains (rulePart rule) then
        throw (place ++ ": another assumption already covers exactly this scope")
      readAssumptions tenant (rules ++ [rule]) rest

/-- The rules that `setAssumptions` saves. The id is the primary key of their
table, so that two equal ones are not saved. -/
def acceptedRules (tenant : CostTenant) (assumptions : List (Option RawAssumption)) : Except String (List CostRule) :=
  if maxRules < assumptions.length then .error "at most 200 assumptions can be saved"
  else do
    let rules ← readAssumptions tenant [] assumptions
    if (rules.map (·.id)).Nodup then return rules
    else throw "duplicate key value violates unique constraint"

structure Accepted (rules : List CostRule) : Prop where
  ids : (rules.map (·.id)).Nodup
  scopes : (rules.map rulePart).Nodup
  rate : ∀ rule ∈ rules, 0 ≤ rule.ratePerDay
  value : ∀ rule ∈ rules, ∀ value ∈ rule.fixedValueAtRisk, 0 ≤ value

theorem readAssumption_ok {tenant : CostTenant} {place : String} {raw : RawAssumption} {rule : CostRule}
    (h : readAssumption tenant place raw = .ok rule) :
    0 ≤ rule.ratePerDay ∧ ∀ value ∈ rule.fixedValueAtRisk, 0 ≤ value := by
  have hbind {ε α β : Type} {x : Except ε α} {f : α → Except ε β} {b : β} (h : x >>= f = .ok b) :
      ∃ a, x = .ok a ∧ f a = .ok b := by
    cases x with
    | error e => cases h
    | ok a => exact ⟨a, rfl, h⟩
  obtain ⟨team, -, h⟩ := hbind h
  obtain ⟨type, -, h⟩ := hbind h
  obtain ⟨priority, -, h⟩ := hbind h
  obtain ⟨service, -, h⟩ := hbind h
  obtain ⟨rate, hrate, h⟩ := hbind h
  obtain ⟨value, hvalue, h⟩ := hbind h
  obtain ⟨label, -, h⟩ := hbind h
  obtain rfl := Except.ok.inj h
  refine ⟨?_, ?_⟩
  · unfold readRate at hrate
    split at hrate
    · split at hrate
      · cases hrate
      · rename_i hnot
        obtain rfl := Except.ok.inj hrate
        exact not_lt.mp (not_or.mp hnot).1
    · cases hrate
  · unfold readValue at hvalue
    split at hvalue
    · obtain rfl := Except.ok.inj hvalue
      exact fun v hv => absurd hv (by simp)
    · split at hvalue
      · cases hvalue
      · rename_i hnot
        obtain rfl := Except.ok.inj hvalue
        intro v hv
        obtain rfl : _ = v := Option.some.inj hv
        exact not_lt.mp (not_or.mp hnot).1
    · cases hvalue

theorem readAssumptions_ok {tenant : CostTenant} {raws : List (Option RawAssumption)} {accepted : List CostRule}
    (hscopes : (rules.map rulePart).Nodup)
    (hrules : ∀ rule ∈ rules, 0 ≤ rule.ratePerDay ∧ ∀ value ∈ rule.fixedValueAtRisk, 0 ≤ value)
    (h : readAssumptions tenant rules raws = .ok accepted) :
    (accepted.map rulePart).Nodup ∧
      ∀ rule ∈ accepted, 0 ≤ rule.ratePerDay ∧ ∀ value ∈ rule.fixedValueAtRisk, 0 ≤ value := by
  induction raws generalizing rules with
  | nil =>
    obtain rfl := Except.ok.inj h
    exact ⟨hscopes, hrules⟩
  | cons raw rest ih =>
    cases raw with
    | none => cases h
    | some raw =>
      rw [readAssumptions] at h
      dsimp only at h
      cases hread : readAssumption tenant ("assumption " ++ toString (rules.length + 1)) raw with
      | error e =>
        rw [hread] at h
        cases h
      | ok rule =>
        rw [hread] at h
        simp only [bind, Except.bind] at h
        split at h
        · cases h
        · rename_i hnew
          refine ih ?_ ?_ h
          · rw [List.map_append, List.nodup_append]
            refine ⟨hscopes, List.nodup_singleton _, fun a ha b hb hab => hnew ?_⟩
            rw [List.mem_singleton.mp hb] at hab
            exact List.elem_eq_true_of_mem (hab ▸ ha)
          · intro r hr
            rcases List.mem_append.mp hr with hr | hr
            · exact hrules r hr
            · rw [List.mem_singleton.mp hr]
              exact readAssumption_ok hread

theorem accepted_of_rules {tenant : CostTenant} {assumptions : List (Option RawAssumption)}
    (h : acceptedRules tenant assumptions = .ok rules) : Accepted rules := by
  unfold acceptedRules at h
  split at h
  · cases h
  · cases hread : readAssumptions tenant [] assumptions with
    | error e =>
      rw [hread] at h
      cases h
    | ok read =>
      rw [hread] at h
      simp only [bind, Except.bind, pure, Except.pure] at h
      split at h
      · rename_i hids
        obtain rfl := Except.ok.inj h
        have hstart : (([] : List CostRule).map rulePart).Nodup := List.nodup_nil
        obtain ⟨hscopes, hrules⟩ := readAssumptions_ok hstart (by simp) hread
        exact ⟨hids, hscopes, fun r hr => (hrules r hr).1, fun r hr => (hrules r hr).2⟩
      · cases h

/-! ## Ids -/

/-- What the organisation has supplied: all but the id. -/
def CostRule.content (rule : CostRule) : CostRule := { rule with id := 0 }

/-- The same rules in another order and with other ids. -/
def SameContent (rules rules' : List CostRule) : Prop :=
  (rules.map CostRule.content).Perm (rules'.map CostRule.content) ∧ (rules'.map (·.id)).Nodup

def SingleValue (rules : List CostRule) (scope : ItemScope) : Prop :=
  ∀ a b, Best rules scope a → Best rules scope b → a.fixedValueAtRisk = b.fixedValueAtRisk

section
variable {rules rules' : List CostRule} {scope : ItemScope}

theorem Best.rank_eq {a b : CostRule} (ha : Best rules scope a) (hb : Best rules scope b) : a.rank = b.rank :=
  le_antisymm (hb.top a ha.mem ha.applies) (ha.top b hb.mem hb.applies)

theorem rate_of_rank {a b : CostRule} (h : a.rank = b.rank) : a.ratePerDay = b.ratePerDay := by
  simp only [CostRule.rank, EmbeddingLike.apply_eq_iff_eq, Prod.mk.injEq] at h
  exact h.2.2.2.2.2

theorem Best.transfer (hperm : (rules.map CostRule.content).Perm (rules'.map CostRule.content)) {a : CostRule}
    (h : Best rules scope a) : ∃ a', Best rules' scope a' ∧ a'.content = a.content := by
  have hfound {l l' : List CostRule} (hp : (l.map CostRule.content).Perm (l'.map CostRule.content)) {r : CostRule}
      (hr : r ∈ l) : ∃ r' ∈ l', r'.content = r.content :=
    List.mem_map.mp (hp.mem_iff.mp (List.mem_map_of_mem hr))
  have happlies {r r' : CostRule} (hr : r'.content = r.content) : r'.applies scope = r.applies scope :=
    congrArg (·.applies scope) hr
  have hrank {r r' : CostRule} (hr : r'.content = r.content) : r'.rank = r.rank := congrArg (·.rank) hr
  obtain ⟨a', ha', hcontent⟩ := hfound hperm h.mem
  refine ⟨a', ⟨ha', (happlies hcontent).trans h.applies, fun other hother hscope => ?_⟩, hcontent⟩
  obtain ⟨other', hmem, hsame⟩ := hfound hperm.symm hother
  rw [← hrank hsame, hrank hcontent]
  exact h.top other' hmem ((happlies hsame).trans hscope)

theorem matchRule_content (hperm : (rules.map CostRule.content).Perm (rules'.map CostRule.content)) :
    (matchRule rules' scope).map (·.ratePerDay) = (matchRule rules scope).map (·.ratePerDay) ∧
      (SingleValue rules scope →
        (matchRule rules' scope).map (·.fixedValueAtRisk) = (matchRule rules scope).map (·.fixedValueAtRisk)) := by
  cases h : matchRule rules scope with
  | none =>
    have hnone : matchRule rules' scope = none := by
      rw [matchRule_none] at h ⊢
      intro rule hrule
      obtain ⟨other, hother, hsame⟩ := List.mem_map.mp (hperm.mem_iff.mpr (List.mem_map_of_mem hrule))
      have happlies : other.applies scope = rule.applies scope := congrArg (·.applies scope) hsame
      rw [← happlies]
      exact h other hother
    rw [hnone]
    exact ⟨rfl, fun _ => rfl⟩
  | some rule =>
    obtain ⟨hbest, -⟩ := matchRule_best h
    obtain ⟨rule', hbest', -⟩ := hbest.transfer hperm
    cases h' : matchRule rules' scope with
    | none =>
      have hnot := matchRule_none.mp h' rule' hbest'.mem
      rw [hbest'.applies] at hnot
      cases hnot
    | some chosen =>
      obtain ⟨hchosen, -⟩ := matchRule_best h'
      obtain ⟨twin, htwin, hcontent⟩ := hchosen.transfer hperm.symm
      have hrate : twin.ratePerDay = chosen.ratePerDay := congrArg (·.ratePerDay) hcontent
      have hvalue : twin.fixedValueAtRisk = chosen.fixedValueAtRisk := congrArg (·.fixedValueAtRisk) hcontent
      refine ⟨?_, fun hsingle => ?_⟩
      · rw [Option.map_some, Option.map_some, ← hrate, rate_of_rank (htwin.rank_eq hbest)]
      · rw [Option.map_some, Option.map_some, ← hvalue, hsingle twin rule htwin hbest]

/-- The rules with two ids exchanged. -/
def exchange (i j : Uuid) (rules : List CostRule) : List CostRule :=
  rules.map fun rule => { rule with id := Equiv.swap i j rule.id }

theorem exchange_same (hids : (rules.map (·.id)).Nodup) (i j : Uuid) : SameContent rules (exchange i j rules) := by
  have hcontent : (exchange i j rules).map CostRule.content = rules.map CostRule.content := by
    rw [exchange, List.map_map]
    rfl
  have hid : (exchange i j rules).map (·.id) = (rules.map (·.id)).map (Equiv.swap i j) := by
    rw [exchange, List.map_map, List.map_map]
    rfl
  rw [SameContent, hcontent, hid]
  exact ⟨List.Perm.refl _, hids.map (Equiv.swap i j).injective⟩

theorem exchange_value (hids : (rules.map (·.id)).Nodup) (h : ¬ SingleValue rules scope) :
    ∃ i j rule rule', matchRule rules scope = some rule ∧ matchRule (exchange i j rules) scope = some rule' ∧
      rule'.fixedValueAtRisk ≠ rule.fixedValueAtRisk := by
  simp only [SingleValue, not_forall] at h
  obtain ⟨a, b, ha, hb, hdiffer⟩ := h
  cases hmatch : matchRule rules scope with
  | none =>
    have hnot := matchRule_none.mp hmatch a ha.mem
    rw [ha.applies] at hnot
    cases hnot
  | some rule =>
    obtain ⟨hbest, hleast⟩ := matchRule_best hmatch
    -- one of the two differs from the rule that is chosen
    obtain ⟨d, hd, hvalue⟩ : ∃ d, Best rules scope d ∧ d.fixedValueAtRisk ≠ rule.fixedValueAtRisk := by
      by_cases hsame : a.fixedValueAtRisk = rule.fixedValueAtRisk
      · exact ⟨b, hb, fun heq => hdiffer (hsame.trans heq.symm)⟩
      · exact ⟨a, ha, hsame⟩
    refine ⟨rule.id, d.id, rule, { d with id := rule.id }, rfl, ?_, hvalue⟩
    have hsame := exchange_same hids rule.id d.id
    have hmem : ({ d with id := rule.id } : CostRule) ∈ exchange rule.id d.id rules := by
      refine List.mem_map.mpr ⟨d, hd.mem, ?_⟩
      rw [Equiv.swap_apply_right]
    have hnew : Best (exchange rule.id d.id rules) scope { d with id := rule.id } := by
      refine ⟨hmem, hd.applies, fun other hother hscope => ?_⟩
      obtain ⟨old, hold, rfl⟩ := List.mem_map.mp hother
      exact hd.top old hold hscope
    refine matchRule_eq hsame.2 hnew fun other hother => ?_
    obtain ⟨old, hold, rfl⟩ := List.mem_map.mp hother.mem
    have holdBest : Best rules scope old := by
      refine ⟨hold, hother.applies, fun r hr hscope => ?_⟩
      exact hother.top { r with id := Equiv.swap rule.id d.id r.id } (List.mem_map_of_mem hr) hscope
    show rule.id.toNat ≤ (Equiv.swap rule.id d.id old.id).toNat
    rw [Equiv.swap_apply_def]
    split
    · exact hleast d hd
    · split
      · exact Nat.le_refl _
      · exact hleast old holdBest

end

end Cadena.Flow
