import Cadena.Base.Latch
import Cadena.Base.Table
import Cadena.Base.Transition
import Cadena.Flow.FlowRisk

/-!
# Warnings of waiting risk

`evaluateOrg` passes of several processes over the table `flow_wait_risk`. A
pass assesses the visits at its own clock and then stores each risk and, in a
second statement, clears the mark of a visit that is not at risk or claims the
mark of one that is and records the warning. The mark of a visit is a latch:
a pass with an older clock may open it again after the warning.
-/

namespace Cadena.Flow

open Cadena.Base Cadena.WorkItems

/-- A row of `flow_wait_risk`. -/
structure WaitRiskRow where
  visit : FlowVisit
  teamId : Uuid
  itemType : WorkItemType
  result : RiskResult
  threshold : Rat
  above : Bool
  notifiedCount : Nat
  active : Bool
  evaluatedAt : Millis

structure FlowWaitRiskCrossed where
  workItemId : Uuid
  teamId : Uuid
  ownerId : Option Uuid
  type : WorkItemType
  status : String
  classification : FlowBucket
  threshold : Rat
  score : RiskScore
  crossing : Nat

/-- A recorded event, with the visit and the clock of the pass it is from. -/
structure Crossing where
  visit : FlowVisit
  evaluatedAt : Millis
  event : FlowWaitRiskCrossed

/-- `INSERT … ON CONFLICT (work_item_id, state, entered_at) DO UPDATE`. -/
def storeRisk (risk : WaitRisk) (evaluatedAt : Millis) (rows : List WaitRiskRow) : List WaitRiskRow :=
  Table.upsert (·.visit)
    { visit := risk.visit
      teamId := risk.item.teamId
      itemType := risk.item.type
      result := risk.result
      threshold := risk.threshold
      above := false
      notifiedCount := 0
      active := true
      evaluatedAt := evaluatedAt }
    (fun row =>
      { row with
        result := risk.result
        threshold := risk.threshold
        active := true
        evaluatedAt := evaluatedAt })
    rows

/-- `UPDATE … SET above = FALSE WHERE … AND above = TRUE`. -/
def rearm (v : FlowVisit) (rows : List WaitRiskRow) : List WaitRiskRow :=
  Table.update (fun row => row.visit == v && row.above) (fun row => { row with above := false }) rows

/-- The rows that the claim of a visit takes. -/
def isUnclaimed (v : FlowVisit) (row : WaitRiskRow) : Bool := row.visit == v && !row.above

def claimVisit (v : FlowVisit) (rows : List WaitRiskRow) : List WaitRiskRow :=
  Table.update (isUnclaimed v)
    (fun row => { row with above := true, notifiedCount := row.notifiedCount + 1 }) rows

def deactivate (evaluatedAt : Millis) (rows : List WaitRiskRow) : List WaitRiskRow :=
  Table.update (fun row => row.active && decide (row.evaluatedAt < evaluatedAt))
    (fun row => { row with active := false }) rows

def crossingOf (risk : WaitRisk) (evaluatedAt : Millis) (ownerId : Option Uuid) (score : RiskScore)
    (crossing : Nat) : Crossing where
  visit := risk.visit
  evaluatedAt := evaluatedAt
  event :=
    { workItemId := risk.visit.workItemId
      teamId := risk.item.teamId
      ownerId := ownerId
      type := risk.item.type
      status := risk.visit.state
      classification := risk.classification
      threshold := risk.threshold
      score := score
      crossing := crossing }

/-- What the claim transaction records. -/
def claimed (risk : WaitRisk) (evaluatedAt : Millis) (ownerId : Option Uuid) (rows : List WaitRiskRow) :
    List Crossing :=
  match rows.find? (isUnclaimed risk.visit), risk.result with
  | some row, .scored score => [crossingOf risk evaluatedAt ownerId score (row.notifiedCount + 1)]
  | _, _ => []

/-! ## The system -/

/-- A pass: the risks it has assessed, those it has still to handle, and
whether the first of them has been stored. -/
structure RiskPass where
  evaluatedAt : Millis
  risks : List WaitRisk
  remaining : List WaitRisk
  stored : Bool

/-- `finished` are the passes that have come to their end. -/
structure RiskState where
  rows : List WaitRiskRow
  passes : Nat → Option RiskPass
  finished : List RiskPass
  crossings : List Crossing

inductive RiskAction where
  | begin (pass : Nat) (now : Millis) (underWay : List FlowVisit)
  | store (pass : Nat)
  | settle (pass : Nat) (ownerId : Option Uuid)
  | finish (pass : Nat)
  | crash (pass : Nat)

def riskStep (ctx : RiskContext) (s : RiskState) : RiskAction → Option RiskState
  | .begin p now underWay =>
    match s.passes p with
    | none =>
      let risks := assessOrg ctx now underWay
      some { s with passes := setAt s.passes p (some ⟨now, risks, risks, false⟩) }
    | some _ => none
  | .store p =>
    match s.passes p with
    | some ⟨now, risks, risk :: rest, false⟩ =>
      some { s with
        rows := storeRisk risk now s.rows
        passes := setAt s.passes p (some ⟨now, risks, risk :: rest, true⟩) }
    | _ => none
  | .settle p ownerId =>
    match s.passes p with
    | some ⟨now, risks, risk :: rest, true⟩ =>
      let next := setAt s.passes p (some ⟨now, risks, rest, false⟩)
      if risk.atRisk then
        some { s with
          rows := claimVisit risk.visit s.rows
          passes := next
          crossings := s.crossings ++ claimed risk now ownerId s.rows }
      else some { s with rows := rearm risk.visit s.rows, passes := next }
    | _ => none
  | .finish p =>
    match s.passes p with
    | some ⟨now, risks, [], stored⟩ =>
      some { s with
        rows := deactivate now s.rows
        passes := setAt s.passes p none
        finished := s.finished ++ [⟨now, risks, [], stored⟩] }
    | _ => none
  | .crash p => some { s with passes := setAt s.passes p none }

def riskSystem (ctx : RiskContext) : System RiskState RiskAction := ⟨riskStep ctx⟩

def RiskState.start : RiskState := ⟨[], fun _ => none, [], []⟩

def RiskState.warnings (s : RiskState) (v : FlowVisit) : List Crossing :=
  s.crossings.filter (·.visit == v)

/-- No visit gets a second warning, and one that a finished pass found at risk
has got its warning. -/
def OneWarning (s : RiskState) : Prop :=
  ∀ v, (s.warnings v).length ≤ 1 ∧
    ∀ pass ∈ s.finished, ∀ risk ∈ pass.risks, risk.visit = v → risk.atRisk = true → s.warnings v ≠ []

/-- A pass that clears the mark of a visit has a clock no older than those of
the passes that have warned of it. -/
def NotOvertaken (s : RiskState) : RiskAction → Prop
  | .settle p _ => ∀ pass ∈ s.passes p, ∀ risk ∈ pass.remaining.head?, risk.atRisk = false →
      ∀ c ∈ s.crossings, c.visit = risk.visit → c.evaluatedAt ≤ pass.evaluatedAt
  | _ => True

instance (s : RiskState) : ∀ a, Decidable (NotOvertaken s a)
  | .settle p _ => inferInstanceAs (Decidable (∀ pass ∈ s.passes p, ∀ risk ∈ pass.remaining.head?,
      risk.atRisk = false → ∀ c ∈ s.crossings, c.visit = risk.visit → c.evaluatedAt ≤ pass.evaluatedAt))
  | .begin .. | .store _ | .finish _ | .crash _ => isTrue trivial

/-! ## The mark of a visit -/

def isMarked (v : FlowVisit) (row : WaitRiskRow) : Bool := row.visit == v && row.above

def markOf (s : RiskState) (v : FlowVisit) : Latch Millis where
  shut := s.rows.any (isMarked v)
  fired := (s.warnings v).map (·.evaluatedAt)

section
variable {s t : RiskState} {v w : FlowVisit}

theorem fired_ne_nil : (markOf s v).fired ≠ [] ↔ s.warnings v ≠ [] := by
  rw [Ne, Ne, markOf, List.map_eq_nil_iff]

variable {rows : List WaitRiskRow} {risk : WaitRisk} {rest risks : List WaitRisk} {now : Millis}

theorem visits_storeRisk (risk : WaitRisk) (now : Millis)
    (h : (rows.map (·.visit)).Nodup) : ((storeRisk risk now rows).map (·.visit)).Nodup :=
  Table.nodup_upsert (fun _ => rfl) h

theorem exists_storeRisk (risk : WaitRisk) (now : Millis)
    (h : v = risk.visit ∨ ∃ row ∈ rows, row.visit = v) : ∃ row ∈ storeRisk risk now rows, row.visit = v := by
  unfold storeRisk Table.upsert
  split
  · rename_i hany
    obtain ⟨old, hold, hkey⟩ := List.any_eq_true.mp hany
    have hold_visit : old.visit = risk.visit := beq_iff_eq.mp hkey
    have hkept : ∀ row ∈ rows, row.visit = v → ∃ row' ∈ Table.update (·.visit == risk.visit)
        (fun row => { row with
          result := risk.result, threshold := risk.threshold, active := true, evaluatedAt := now })
        rows, row'.visit = v := by
      intro row hrow hvisit
      refine ⟨_, List.mem_map_of_mem hrow, ?_⟩
      dsimp only
      split <;> exact hvisit
    rcases h with rfl | ⟨row, hrow, hvisit⟩
    · exact hkept old hold hold_visit
    · exact hkept row hrow hvisit
  · rcases h with rfl | ⟨row, hrow, hvisit⟩
    · exact ⟨_, List.mem_append_right _ List.mem_cons_self, rfl⟩
    · exact ⟨row, List.mem_append_left _ hrow, hvisit⟩

theorem marked_storeRisk (risk : WaitRisk) (now : Millis) (rows : List WaitRiskRow) :
    (storeRisk risk now rows).any (isMarked v) = rows.any (isMarked v) := by
  unfold storeRisk Table.upsert
  split
  · exact Table.any_update fun _ _ _ => rfl
  · rw [List.any_append]
    simp [isMarked]

theorem marked_deactivate (now : Millis) (rows : List WaitRiskRow) :
    (deactivate now rows).any (isMarked v) = rows.any (isMarked v) :=
  Table.any_update fun _ _ _ => rfl

theorem marked_rearm (rows : List WaitRiskRow) :
    (rearm w rows).any (isMarked v) = (rows.any (isMarked v) && v != w) := by
  by_cases hv : v = w
  · subst hv
    rw [bne_self_eq_false, Bool.and_false, List.any_eq_false]
    intro row hrow
    rcases Table.mem_update.mp hrow with ⟨old, -, -, rfl⟩ | ⟨-, hmiss⟩
    · simp [isMarked]
    · simpa [isMarked] using hmiss
  · rw [bne_iff_ne.mpr hv, Bool.and_true]
    refine Table.any_update fun row _ hrow => ?_
    have hw : row.visit = w := by simpa using (Bool.and_eq_true_iff.mp hrow).1
    simp [isMarked, hw, Ne.symm hv]

theorem marked_claimVisit_other (hv : v ≠ w) (rows : List WaitRiskRow) :
    (claimVisit w rows).any (isMarked v) = rows.any (isMarked v) := by
  refine Table.any_update fun row _ hrow => ?_
  have hw : row.visit = w := by simpa using (Bool.and_eq_true_iff.mp hrow).1
  simp [isMarked, hw, Ne.symm hv]

theorem marked_claimVisit {row : WaitRiskRow}
    (hfind : rows.find? (isUnclaimed w) = some row) : (claimVisit w rows).any (isMarked w) = true := by
  refine List.any_eq_true.mpr ⟨_, Table.mem_update.mpr
    (.inl ⟨row, List.mem_of_find?_eq_some hfind, List.find?_some hfind, rfl⟩), ?_⟩
  have hvisit : row.visit = w := by
    simpa using (Bool.and_eq_true_iff.mp (List.find?_some hfind : isUnclaimed w row = true)).1
  simp [isMarked, hvisit]

theorem unmarked_of_unclaimed {row : WaitRiskRow}
    (hkeys : (rows.map (·.visit)).Nodup) (hfind : rows.find? (isUnclaimed w) = some row) :
    rows.any (isMarked w) = false := by
  have hunclaimed : isUnclaimed w row = true := List.find?_some hfind
  rw [isUnclaimed, Bool.and_eq_true, beq_iff_eq, Bool.not_eq_true'] at hunclaimed
  refine List.any_eq_false.mpr fun other hother hmarked => ?_
  rw [isMarked, Bool.and_eq_true, beq_iff_eq] at hmarked
  obtain rfl := Table.eq_of_key hkeys hother (List.mem_of_find?_eq_some hfind)
    (hmarked.1.trans hunclaimed.1.symm)
  rw [hunclaimed.2] at hmarked
  cases hmarked.2

theorem marked_of_no_unclaimed (hrow : ∃ row ∈ rows, row.visit = w)
    (hfind : rows.find? (isUnclaimed w) = none) : rows.any (isMarked w) = true := by
  obtain ⟨row, hmem, hvisit⟩ := hrow
  have hclaimed := List.find?_eq_none.mp hfind row hmem
  rw [isUnclaimed, hvisit, beq_self_eq_true, Bool.true_and, Bool.not_eq_true', Bool.not_eq_false] at hclaimed
  exact List.any_eq_true.mpr ⟨row, hmem, by simp [isMarked, hvisit, hclaimed]⟩

/-- A pass has assessed its risks itself, and the one it has stored has a row. -/
structure PassSound (ctx : RiskContext) (s : RiskState) (pass : RiskPass) : Prop where
  assessed : ∀ risk ∈ pass.risks, assessVisit ctx pass.evaluatedAt risk.visit = some risk
  remaining : ∀ risk ∈ pass.remaining, risk ∈ pass.risks
  handled : ∀ risk ∈ pass.risks, risk ∈ pass.remaining ∨ (risk.atRisk = true → s.warnings risk.visit ≠ [])
  stored : pass.stored = true → ∀ risk ∈ pass.remaining.head?, ∃ row ∈ s.rows, row.visit = risk.visit

structure RiskInv (ctx : RiskContext) (s : RiskState) : Prop where
  keys : (s.rows.map (·.visit)).Nodup
  latch : ∀ v, Latch.Sound (AtRisk ctx v) (markOf s v)
  passes : ∀ p pass, s.passes p = some pass → PassSound ctx s pass
  finished : ∀ pass ∈ s.finished, ∀ risk ∈ pass.risks, risk.atRisk = true → s.warnings risk.visit ≠ []

variable {ctx : RiskContext} {pass : RiskPass}

structure Grows (s t : RiskState) : Prop where
  warnings : ∀ v, s.warnings v ≠ [] → t.warnings v ≠ []
  rows : ∀ v, (∃ row ∈ s.rows, row.visit = v) → ∃ row ∈ t.rows, row.visit = v

theorem PassSound.grows (h : PassSound ctx s pass) (hgrows : Grows s t) : PassSound ctx t pass where
  assessed := h.assessed
  remaining := h.remaining
  handled risk hrisk := (h.handled risk hrisk).imp_right fun hwarned hat => hgrows.warnings _ (hwarned hat)
  stored hstored risk hhead := hgrows.rows _ (h.stored hstored risk hhead)

theorem passes_setAt {p : Nat} {new : Option RiskPass} (h : ∀ q pass, s.passes q = some pass → PassSound ctx s pass)
    (hgrows : Grows s t) (hpasses : t.passes = setAt s.passes p new)
    (hnew : ∀ pass ∈ new, PassSound ctx t pass) : ∀ q pass, t.passes q = some pass → PassSound ctx t pass := by
  intro q pass hpass
  rw [hpasses] at hpass
  by_cases hq : q = p
  · subst hq
    rw [setAt_same] at hpass
    exact hnew pass hpass
  · rw [setAt_other _ _ hq] at hpass
    exact (h q pass hpass).grows hgrows

theorem Grows.of_visits (hcrossings : t.crossings = s.crossings)
    (hvisits : t.rows.map (·.visit) = s.rows.map (·.visit)) : Grows s t where
  warnings v := by
    simp only [RiskState.warnings, hcrossings]
    exact id
  rows v hrow := by
    rw [← List.mem_map, hvisits, List.mem_map]
    exact hrow

theorem visits_claimVisit (rows : List WaitRiskRow) :
    (claimVisit w rows).map (·.visit) = rows.map (·.visit) :=
  Table.update_column _ (by intro _; rfl) rows

theorem visits_rearm (rows : List WaitRiskRow) : (rearm w rows).map (·.visit) = rows.map (·.visit) :=
  Table.update_column _ (by intro _; rfl) rows

theorem visits_deactivate (now : Millis) (rows : List WaitRiskRow) :
    (deactivate now rows).map (·.visit) = rows.map (·.visit) :=
  Table.update_column _ (by intro _; rfl) rows

/-! ## Steps -/

theorem RiskInv.begin (h : RiskInv ctx s) (p : Nat) (now : Millis) (underWay : List FlowVisit) :
    RiskInv ctx { s with
      passes := setAt s.passes p
        (some ⟨now, assessOrg ctx now underWay, assessOrg ctx now underWay, false⟩) } := by
  refine ⟨h.keys, h.latch, passes_setAt h.passes (.of_visits rfl rfl) rfl ?_, h.finished⟩
  intro pass hpass
  obtain rfl := Option.some.inj hpass
  refine ⟨fun risk hrisk => ?_, fun risk hrisk => hrisk, fun risk hrisk => .inl hrisk, nofun⟩
  obtain ⟨v, -, hv⟩ := List.mem_filterMap.mp hrisk
  obtain ⟨-, -, rfl, -, -⟩ := assessVisit_eq_some hv
  exact hv

theorem RiskInv.store (h : RiskInv ctx s) {p : Nat} (hpass : s.passes p = some ⟨now, risks, risk :: rest, false⟩) :
    RiskInv ctx { s with
      rows := storeRisk risk now s.rows
      passes := setAt s.passes p (some ⟨now, risks, risk :: rest, true⟩) } := by
  have hgrows : Grows s { s with
      rows := storeRisk risk now s.rows
      passes := setAt s.passes p (some ⟨now, risks, risk :: rest, true⟩) } :=
    ⟨fun _ => id, fun _ hrow => exists_storeRisk risk now (.inr hrow)⟩
  refine ⟨visits_storeRisk risk now h.keys, fun v => ?_, passes_setAt h.passes hgrows rfl ?_, h.finished⟩
  · have hmark : markOf { s with
        rows := storeRisk risk now s.rows
        passes := setAt s.passes p (some ⟨now, risks, risk :: rest, true⟩) } v = markOf s v :=
      Latch.ext (marked_storeRisk risk now s.rows) rfl
    rw [hmark]
    exact h.latch v
  · intro pass hnew
    obtain rfl := Option.some.inj hnew
    have hold := h.passes p _ hpass
    refine ⟨hold.assessed, hold.remaining, hold.handled, fun _ head hhead => ?_⟩
    obtain rfl := Option.some.inj hhead
    exact exists_storeRisk risk now (.inl rfl)

theorem PassSound.next (h : PassSound ctx s ⟨now, risks, risk :: rest, true⟩) (hgrows : Grows s t)
    (hwarned : risk.atRisk = true → t.warnings risk.visit ≠ []) :
    PassSound ctx t ⟨now, risks, rest, false⟩ := by
  refine ⟨h.assessed, fun r hr => h.remaining r (List.mem_cons_of_mem _ hr), fun r hr => ?_, nofun⟩
  rcases h.handled r hr with hleft | hdone
  · rcases List.mem_cons.mp hleft with rfl | hrest
    · exact .inr hwarned
    · exact .inl hrest
  · exact .inr fun hat => hgrows.warnings _ (hdone hat)

theorem RiskInv.rearm (h : RiskInv ctx s) {p : Nat}
    (hpass : s.passes p = some ⟨now, risks, risk :: rest, true⟩) (hcalm : risk.atRisk = false)
    (hlatest : ∀ c ∈ s.crossings, c.visit = risk.visit → c.evaluatedAt ≤ now) :
    RiskInv ctx { s with
      rows := rearm risk.visit s.rows
      passes := setAt s.passes p (some ⟨now, risks, rest, false⟩) } := by
  have hold := h.passes p _ hpass
  have hgrows : Grows s { s with
      rows := Flow.rearm risk.visit s.rows
      passes := setAt s.passes p (some ⟨now, risks, rest, false⟩) } :=
    .of_visits rfl (visits_rearm s.rows)
  refine ⟨by rw [visits_rearm]; exact h.keys, fun v => ?_, passes_setAt h.passes hgrows rfl ?_, h.finished⟩
  · refine (h.latch v).move (fun _ _ hle hat => hat.later hle) ?_
    by_cases hv : v = risk.visit
    · -- the visit is below the threshold at the clock of the pass
      have hbelow : ¬ AtRisk ctx v now := by
        rintro ⟨other, hother, hat⟩
        subst hv
        have hassessed : assessVisit ctx now risk.visit = some risk :=
          hold.assessed risk (hold.remaining risk List.mem_cons_self)
        obtain rfl := Option.some.inj (hother.symm.trans hassessed)
        rw [hcalm] at hat
        cases hat
      have hmark : markOf { s with
          rows := Flow.rearm risk.visit s.rows
          passes := setAt s.passes p (some ⟨now, risks, rest, false⟩) } v = ⟨false, (markOf s v).fired⟩ := by
        refine Latch.ext ?_ rfl
        show (Flow.rearm risk.visit s.rows).any (isMarked v) = false
        rw [marked_rearm, hv, bne_self_eq_false, Bool.and_false]
      rw [hmark]
      refine .reopen now hbelow fun t ht => ?_
      obtain ⟨c, hc, rfl⟩ := List.mem_map.mp ht
      obtain ⟨hmem, hvisit⟩ := List.mem_filter.mp hc
      exact hlatest c hmem ((beq_iff_eq.mp hvisit).trans hv)
    · have hmark : markOf { s with
          rows := Flow.rearm risk.visit s.rows
          passes := setAt s.passes p (some ⟨now, risks, rest, false⟩) } v = markOf s v := by
        refine Latch.ext ?_ rfl
        show (Flow.rearm risk.visit s.rows).any (isMarked v) = s.rows.any (isMarked v)
        rw [marked_rearm, bne_iff_ne.mpr hv, Bool.and_true]
      rw [hmark]
      exact .stay
  · intro pass hnew
    obtain rfl := Option.some.inj hnew
    exact hold.next hgrows fun hat => by rw [hcalm] at hat; cases hat

theorem claim_cases (h : RiskInv ctx s) (now : Millis) (ownerId : Option Uuid)
    (hrow : ∃ row ∈ s.rows, row.visit = risk.visit) (hscored : ∃ score, risk.result = .scored score) :
    (s.rows.any (isMarked risk.visit) = false ∧ (claimVisit risk.visit s.rows).any (isMarked risk.visit) = true ∧
      ∃ c : Crossing, c.visit = risk.visit ∧ c.evaluatedAt = now ∧ claimed risk now ownerId s.rows = [c]) ∨
    (s.rows.any (isMarked risk.visit) = true ∧ (claimVisit risk.visit s.rows).any (isMarked risk.visit) = true ∧
      claimed risk now ownerId s.rows = []) := by
  obtain ⟨score, hscore⟩ := hscored
  cases hfind : s.rows.find? (isUnclaimed risk.visit) with
  | some row =>
    refine .inl ⟨unmarked_of_unclaimed h.keys hfind, marked_claimVisit hfind,
      crossingOf risk now ownerId score (row.notifiedCount + 1), rfl, rfl, ?_⟩
    simp only [claimed, hfind, hscore]
  | none =>
    have hmarked := marked_of_no_unclaimed hrow hfind
    have hsame : claimVisit risk.visit s.rows = s.rows :=
      Table.update_none fun row hmem => by simpa using List.find?_eq_none.mp hfind row hmem
    refine .inr ⟨hmarked, hsame.symm ▸ hmarked, ?_⟩
    simp only [claimed, hfind]

theorem warnings_append (cs : List Crossing) (rows : List WaitRiskRow) (passes : Nat → Option RiskPass) :
    RiskState.warnings { s with rows := rows, passes := passes, crossings := s.crossings ++ cs } v =
      s.warnings v ++ cs.filter (·.visit == v) :=
  List.filter_append ..

theorem RiskInv.claim (h : RiskInv ctx s) {p : Nat}
    (ownerId : Option Uuid) (hpass : s.passes p = some ⟨now, risks, risk :: rest, true⟩)
    (hat : risk.atRisk = true) :
    RiskInv ctx { s with
      rows := claimVisit risk.visit s.rows
      passes := setAt s.passes p (some ⟨now, risks, rest, false⟩)
      crossings := s.crossings ++ claimed risk now ownerId s.rows } := by
  have hold := h.passes p _ hpass
  have hassessed : assessVisit ctx now risk.visit = some risk :=
    hold.assessed risk (hold.remaining risk List.mem_cons_self)
  have hcases := claim_cases h now ownerId (hold.stored rfl risk rfl) (scored_of_atRisk hassessed hat)
  generalize hpasses : setAt s.passes p (some ⟨now, risks, rest, false⟩) = passes
  have hgrows : Grows s { s with
      rows := claimVisit risk.visit s.rows
      passes := passes
      crossings := s.crossings ++ claimed risk now ownerId s.rows } := by
    refine ⟨fun v hv => ?_, fun v hv => ?_⟩
    · rw [warnings_append]
      exact List.append_ne_nil_of_left_ne_nil hv _
    · rw [← List.mem_map, visits_claimVisit, List.mem_map]
      exact hv
  have hlatch : ∀ v, Latch.Move (AtRisk ctx v) (markOf s v) (markOf { s with
      rows := claimVisit risk.visit s.rows
      passes := passes
      crossings := s.crossings ++ claimed risk now ownerId s.rows } v) := by
    intro v
    by_cases hv : v = risk.visit
    · subst hv
      rcases hcases with ⟨hopen, hshut, c, hvisit, htime, hrecorded⟩ | ⟨hmarked, hshut, hnone⟩
      · have hmark : markOf { s with
            rows := claimVisit risk.visit s.rows
            passes := passes
            crossings := s.crossings ++ claimed risk now ownerId s.rows } risk.visit =
            ⟨true, (markOf s risk.visit).fired ++ [now]⟩ := by
          refine Latch.ext hshut ?_
          simp only [markOf, warnings_append, hrecorded, List.map_append]
          rw [List.filter_cons_of_pos (by simp [hvisit]), List.filter_nil, List.map_singleton, htime]
        rw [hmark]
        exact .fire now ⟨risk, hassessed, hat⟩ hopen
      · have hmark : markOf { s with
            rows := claimVisit risk.visit s.rows
            passes := passes
            crossings := s.crossings ++ claimed risk now ownerId s.rows } risk.visit = markOf s risk.visit := by
          refine Latch.ext (hshut.trans hmarked.symm) ?_
          show (RiskState.warnings _ _).map _ = (s.warnings _).map _
          rw [warnings_append, hnone, List.filter_nil, List.append_nil]
        rw [hmark]
        exact .stay
    · have hothers : (claimed risk now ownerId s.rows).filter (·.visit == v) = [] := by
        rcases hcases with ⟨-, -, c, hvisit, -, hrecorded⟩ | ⟨-, -, hnone⟩
        · rw [hrecorded]
          simp [hvisit, Ne.symm hv]
        · rw [hnone]
          rfl
      have hmark : markOf { s with
          rows := claimVisit risk.visit s.rows
          passes := passes
          crossings := s.crossings ++ claimed risk now ownerId s.rows } v = markOf s v := by
        refine Latch.ext (marked_claimVisit_other hv s.rows) ?_
        show (RiskState.warnings _ _).map _ = (s.warnings _).map _
        rw [warnings_append, hothers, List.append_nil]
      rw [hmark]
      exact .stay
  refine ⟨by rw [visits_claimVisit]; exact h.keys,
    fun v => (h.latch v).move (fun _ _ hle hlow => hlow.later hle) (hlatch v),
    passes_setAt h.passes hgrows hpasses.symm ?_,
    fun pass hpass r hr hrat => hgrows.warnings _ (h.finished pass hpass r hr hrat)⟩
  intro pass hnew
  obtain rfl := Option.some.inj hnew
  refine hold.next hgrows fun _ => ?_
  rw [warnings_append]
  rcases hcases with ⟨-, -, c, hvisit, -, hrecorded⟩ | ⟨hmarked, -, -⟩
  · rw [hrecorded]
    simp [hvisit]
  · exact List.append_ne_nil_of_left_ne_nil (fired_ne_nil.mp ((h.latch _).shut.mp hmarked)) _

theorem RiskInv.finish (h : RiskInv ctx s) {p : Nat} {stored : Bool}
    (hpass : s.passes p = some ⟨now, risks, [], stored⟩) :
    RiskInv ctx { s with
      rows := deactivate now s.rows
      passes := setAt s.passes p none
      finished := s.finished ++ [⟨now, risks, [], stored⟩] } := by
  have hold := h.passes p _ hpass
  refine ⟨by rw [visits_deactivate]; exact h.keys, fun v => ?_,
    passes_setAt h.passes (.of_visits rfl (visits_deactivate now s.rows)) rfl nofun, fun pass hmem => ?_⟩
  · have hmark : markOf { s with
        rows := deactivate now s.rows
        passes := setAt s.passes p none
        finished := s.finished ++ [⟨now, risks, [], stored⟩] } v = markOf s v :=
      Latch.ext (marked_deactivate now s.rows) rfl
    rw [hmark]
    exact h.latch v
  · rcases List.mem_append.mp hmem with hbefore | hnew
    · exact h.finished pass hbefore
    · obtain rfl := List.mem_singleton.mp hnew
      exact fun risk hrisk => (hold.handled risk hrisk).resolve_left List.not_mem_nil

theorem RiskInv.step (h : RiskInv ctx s) {a : RiskAction} (hcurrent : NotOvertaken s a)
    (hstep : riskStep ctx s a = some t) : RiskInv ctx t := by
  cases a with
  | begin p now underWay =>
    simp only [riskStep] at hstep
    split at hstep
    · obtain rfl := Option.some.inj hstep
      exact h.begin p now underWay
    · cases hstep
  | store p =>
    simp only [riskStep] at hstep
    split at hstep
    · rename_i hpass
      obtain rfl := Option.some.inj hstep
      exact h.store hpass
    · cases hstep
  | settle p ownerId =>
    simp only [riskStep] at hstep
    split at hstep
    · rename_i now risks risk rest hpass
      cases hat : risk.atRisk with
      | true =>
        rw [hat, if_pos rfl] at hstep
        obtain rfl := Option.some.inj hstep
        exact h.claim ownerId hpass hat
      | false =>
        rw [hat, if_neg Bool.false_ne_true] at hstep
        obtain rfl := Option.some.inj hstep
        exact h.rearm hpass hat (hcurrent _ hpass risk rfl hat)
    · cases hstep
  | finish p =>
    simp only [riskStep] at hstep
    split at hstep
    · rename_i hpass
      obtain rfl := Option.some.inj hstep
      exact h.finish hpass
    · cases hstep
  | crash p =>
    obtain rfl := Option.some.inj hstep
    exact ⟨h.keys, h.latch, passes_setAt h.passes (.of_visits rfl rfl) rfl nofun, h.finished⟩

theorem RiskInv.start : RiskInv ctx .start := ⟨List.nodup_nil, fun _ => .start, nofun, nofun⟩

theorem RiskInv.oneWarning (h : RiskInv ctx s) : OneWarning s := by
  intro v
  refine ⟨?_, ?_⟩
  · have honce := (h.latch v).once
    rw [markOf, List.length_map] at honce
    exact honce
  · intro pass hpass risk hrisk hvisit hat
    exact hvisit ▸ h.finished pass hpass risk hrisk hat

/-- Where no pass clears the mark of a visit that a pass with a later clock has
warned of, every visit gets one warning. -/
theorem one_warning (ctx : RiskContext) (acts : List RiskAction)
    (hcurrent : (riskSystem ctx).Along NotOvertaken .start acts)
    (hrun : (riskSystem ctx).run .start acts = some t) : OneWarning t := by
  have hinv : RiskInv ctx t := (riskSystem ctx).along_invariant
    (fun h hcurrent hstep => h.step hcurrent hstep) .start hcurrent hrun
  exact hinv.oneWarning

end

/-- Three comparable visits to a review took one, two and three hours. -/
def reviewContext : RiskContext where
  settings := { defaultRiskSettings with minSample := 3, minSample_range := by decide }
  item := fun _ => ⟨"EPIC-1", .epic, 1⟩
  classify := fun _ _ => .waiting
  calendar := fun _ _ => .always
  history := fun _ _ _ => [(2, 3600000), (3, 7200000), (4, 10800000)]
  target := fun _ _ => none

def reviewVisit : FlowVisit := ⟨1, "In Review", 0⟩

/-- A pass whose clock says one hour is overtaken by one that says four. -/
def overtakenRearm : List RiskAction :=
  [.begin 0 3600000 [reviewVisit], .begin 1 14400000 [reviewVisit], .store 1, .settle 1 none, .finish 1,
    .store 0, .settle 0 none, .finish 0,
    .begin 2 14400000 [reviewVisit], .store 2, .settle 2 none, .finish 2]

theorem warned_twice : ¬ ∀ (ctx : RiskContext) (acts : List RiskAction) (t : RiskState),
    (riskSystem ctx).run .start acts = some t → OneWarning t := by
  intro h
  have hrun : ((riskSystem reviewContext).run .start overtakenRearm).map
      (fun t => (t.warnings reviewVisit).length) = some 2 := by decide +kernel
  obtain ⟨t, ht, htwo⟩ := Option.map_eq_some_iff.mp hrun
  have honce := (h reviewContext overtakenRearm t ht reviewVisit).1
  omega

/-- The same passes, one after the other. -/
theorem one_warning_in_order : ∃ t, (riskSystem reviewContext).run .start
      [.begin 0 3600000 [reviewVisit], .store 0, .settle 0 none, .finish 0,
        .begin 1 14400000 [reviewVisit], .store 1, .settle 1 none, .finish 1] = some t ∧ OneWarning t := by
  have hrun : ((riskSystem reviewContext).run .start
      [.begin 0 3600000 [reviewVisit], .store 0, .settle 0 none, .finish 0,
        .begin 1 14400000 [reviewVisit], .store 1, .settle 1 none, .finish 1]).map
      (fun t => (t.warnings reviewVisit).length) = some 1 := by decide +kernel
  obtain ⟨t, ht, -⟩ := Option.map_eq_some_iff.mp hrun
  exact ⟨t, ht, one_warning reviewContext _ (by decide +kernel) ht⟩

end Cadena.Flow
