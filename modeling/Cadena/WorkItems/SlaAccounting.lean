import Cadena.Base.SerialOrder
import Cadena.Base.Table
import Cadena.Base.Transition
import Cadena.WorkItems.AgingPass
import Mathlib.Data.List.Permutation

/-!
# SLA accounting under concurrent passes and transitions

Aging passes hold the rows they have read across many statements and store
what they make of each row by its id alone; a state change is computed from
a row read before and is guarded by the status alone. Where no write meets a
row whose SLA columns have moved on since it was read (`ReadsCurrent`), the
columns of each item are those of a serial order of what was done to it.
-/

namespace Cadena.WorkItems

open Cadena.Base Cadena.Connectors

/-- The columns that a pass or a state change computes the SLA clock from. -/
structure SlaColumns where
  orgId : Uuid
  type : WorkItemType
  status : String
  enteredStateAt : Millis
  sla : SlaClock
  deriving DecidableEq

def WorkItem.slaColumns (item : WorkItem) : SlaColumns :=
  ⟨item.orgId, item.type, item.status, item.enteredStateAt, item.sla⟩

/-- An operation on one item, with the policies and the time it reads. -/
inductive SlaOp where
  | pass (policies : List SlaPolicy) (now : Millis)
  | move (policies : List SlaPolicy) (toState : String) (now : Millis) (fields : Fields)

/-- The operation with nothing in between. -/
def SlaOp.run (item : WorkItem) : SlaOp → WorkItem
  | .pass policies now => recomputed policies now item
  | .move policies toState now fields => (moveOf policies item toState now fields).apply item

/-! ## The system -/

/-- A pass that has still to handle some of the rows it has read. -/
structure AgingPass where
  policies : List SlaPolicy
  now : Millis
  remaining : List WorkItem

/-- A transition that has read its item. -/
structure Move where
  item : WorkItem
  toState : String
  fields : Fields

/-- `done` are the operations on each item that have come to their end. -/
structure SlaState where
  items : List WorkItem
  passes : Nat → Option AgingPass
  moves : Nat → Option Move
  done : Uuid → List SlaOp

inductive SlaAction where
  | beginPass (pass : Nat) (org : Option Uuid) (policies : List SlaPolicy) (now : Millis)
  | passItem (pass : Nat)
  | readItem (move : Nat) (itemId : Uuid) (toState : String) (fields : Fields)
  | commit (move : Nat) (policies : List SlaPolicy) (now : Millis)
  | crash (pass : Nat)

def passItemStep (s : SlaState) (p : Nat) : Option SlaState :=
  match s.passes p with
  | some ⟨policies, now, item :: rest⟩ =>
    let next := recomputed policies now item
    some { s with
      items :=
        if agingChanged item next then Table.update (·.id == item.id) (setAging next) s.items
        else s.items
      passes := setAt s.passes p (some ⟨policies, now, rest⟩)
      done := setAt s.done item.id (s.done item.id ++ [.pass policies now]) }
  | _ => none

def commitMoveStep (s : SlaState) (m : Nat) (policies : List SlaPolicy) (now : Millis) : Option SlaState :=
  (s.moves m).map fun move =>
    let change := moveOf policies move.item move.toState now move.fields
    let hits := fun i : WorkItem => i.id == move.item.id && i.status == change.fromState
    if s.items.any hits then
      { s with
        items := Table.update hits change.apply s.items
        moves := setAt s.moves m none
        done := setAt s.done move.item.id
          (s.done move.item.id ++ [.move policies move.toState now move.fields]) }
    else { s with moves := setAt s.moves m none }

def slaStep (s : SlaState) : SlaAction → Option SlaState
  | .beginPass p org policies now =>
    match s.passes p with
    | none =>
      some { s with
        passes := setAt s.passes p
          (some ⟨policies, now, s.items.filter fun i => org.all (i.orgId == ·)⟩) }
    | some _ => none
  | .passItem p => passItemStep s p
  | .readItem m itemId toState fields =>
    match s.moves m, s.items.find? (·.id == itemId) with
    | none, some item => some { s with moves := setAt s.moves m (some ⟨item, toState, fields⟩) }
    | _, _ => none
  | .commit m policies now => commitMoveStep s m policies now
  | .crash p => some { s with passes := setAt s.passes p none }

def slaSystem : System SlaState SlaAction := ⟨slaStep⟩

def SlaState.start (items : List WorkItem) : SlaState :=
  ⟨items, fun _ => none, fun _ => none, fun _ => []⟩

/-- The SLA columns of each item are those of some serial order of the
operations that were done to it. -/
def SlaSerializable (items : List WorkItem) (s : SlaState) : Prop :=
  ∀ item ∈ items, ∃ row ∈ s.items, row.id = item.id ∧
    ∃ order : List SlaOp, order.Perm (s.done item.id) ∧ (order.foldl SlaOp.run item).sla = row.sla

/-- The rows that a write will hit have the SLA columns that were read. -/
def ReadsCurrent (s : SlaState) : SlaAction → Prop
  | .passItem p => ∀ pass ∈ s.passes p, ∀ item ∈ pass.remaining.head?,
      agingChanged item (recomputed pass.policies pass.now item) = true →
        ∀ row ∈ s.items, row.id = item.id → row.slaColumns = item.slaColumns
  | .commit m _ _ => ∀ move ∈ s.moves m, ∀ row ∈ s.items, row.id = move.item.id →
      row.status = move.item.status → row.slaColumns = move.item.slaColumns
  | _ => True

instance (s : SlaState) : ∀ a, Decidable (ReadsCurrent s a)
  | .passItem p => inferInstanceAs (Decidable (∀ pass ∈ s.passes p, ∀ item ∈ pass.remaining.head?,
      agingChanged item (recomputed pass.policies pass.now item) = true →
        ∀ row ∈ s.items, row.id = item.id → row.slaColumns = item.slaColumns))
  | .commit m _ _ => inferInstanceAs (Decidable (∀ move ∈ s.moves m, ∀ row ∈ s.items,
      row.id = move.item.id → row.status = move.item.status →
        row.slaColumns = move.item.slaColumns))
  | .beginPass .. | .readItem .. | .crash _ => isTrue trivial

variable {item row : WorkItem}

theorem slaColumns_iff : item.slaColumns = row.slaColumns ↔ item.orgId = row.orgId ∧ item.type = row.type ∧
      item.status = row.status ∧ item.enteredStateAt = row.enteredStateAt ∧ item.sla = row.sla := by
  simp [WorkItem.slaColumns]

theorem recomputed_sla (h : item.slaColumns = row.slaColumns) (policies : List SlaPolicy) (now : Millis) :
    (recomputed policies now item).sla = (recomputed policies now row).sla := by
  obtain ⟨horg, htype, hstatus, hentered, hsla⟩ := slaColumns_iff.mp h
  simp only [recomputed, recomputeClock, runningMinutes, horg, htype, hstatus, hentered, hsla]

theorem moveOf_clock (h : item.slaColumns = row.slaColumns)
    (policies : List SlaPolicy) (toState : String) (now : Millis) (fields : Fields) :
    (moveOf policies item toState now fields).clock = (moveOf policies row toState now fields).clock := by
  obtain ⟨horg, htype, hstatus, hentered, hsla⟩ := slaColumns_iff.mp h
  simp only [moveOf, stateChangeOf, transitionClock, horg, htype, hstatus, hentered, hsla]

theorem slaRun_respects : RespectsView SlaOp.run WorkItem.slaColumns := by
  intro item row op h
  obtain ⟨horg, htype, hstatus, hentered, -⟩ := slaColumns_iff.mp h
  cases op with
  | pass policies now =>
    exact slaColumns_iff.mpr ⟨horg, htype, hstatus, hentered, recomputed_sla h policies now⟩
  | move policies toState now fields =>
    exact slaColumns_iff.mpr ⟨horg, htype, rfl, rfl, moveOf_clock h policies toState now fields⟩

theorem setAging_columns (h : row.slaColumns = item.slaColumns) (policies : List SlaPolicy) (now : Millis) :
    (setAging (recomputed policies now item) row).slaColumns =
      (SlaOp.run row (.pass policies now)).slaColumns :=
  slaColumns_iff.mpr ⟨rfl, rfl, rfl, rfl, recomputed_sla h.symm policies now⟩

theorem apply_columns (h : row.slaColumns = item.slaColumns)
    (policies : List SlaPolicy) (toState : String) (now : Millis) (fields : Fields) :
    ((moveOf policies item toState now fields).apply row).slaColumns =
      (SlaOp.run row (.move policies toState now fields)).slaColumns :=
  slaColumns_iff.mpr ⟨rfl, rfl, rfl, rfl, moveOf_clock h.symm policies toState now fields⟩

theorem pass_silent {policies : List SlaPolicy} {now : Millis}
    (h : agingChanged item (recomputed policies now item) = false) :
    (SlaOp.run item (.pass policies now)).slaColumns = item.slaColumns :=
  slaColumns_iff.mpr ⟨rfl, rfl, rfl, rfl, sla_of_not_changed h⟩

section
variable {items : List WorkItem} {s t : SlaState}

/-! ## Steps -/

def ReadByPass (s : SlaState) (id : Uuid) (row : WorkItem) : Prop :=
  row.id = id ∧ ∃ p pass, s.passes p = some pass ∧ row ∈ pass.remaining

structure SlaInv (items : List WorkItem) (s : SlaState) : Prop where
  ids : (s.items.map (·.id)).Nodup
  serial : ∀ item ∈ items, ∃ row ∈ s.items, row.id = item.id ∧
    Serial SlaOp.run WorkItem.slaColumns item (s.done item.id) (ReadByPass s item.id) row

theorem SlaInv.start (hids : (items.map (·.id)).Nodup) : SlaInv items (.start items) := by
  refine ⟨hids, fun item hitem => ⟨item, hitem, rfl, (Serial.start item).mono ?_⟩⟩
  rintro row ⟨-, p, pass, hpass, -⟩
  cases hpass

theorem readByPass_setAt {p : Nat} {pass : Option AgingPass} {id : Uuid} {row : WorkItem}
    (hless : ∀ new ∈ pass, ∀ r ∈ new.remaining, ∃ old ∈ s.passes p, r ∈ old.remaining)
    (h : ReadByPass { s with passes := setAt s.passes p pass } id row) : ReadByPass s id row := by
  obtain ⟨hid, q, held, hheld, hrow⟩ := h
  change setAt s.passes p pass q = some held at hheld
  by_cases hq : q = p
  · subst hq
    rw [setAt_same] at hheld
    obtain ⟨old, hold, hmem⟩ := hless held hheld row hrow
    exact ⟨hid, q, old, hold, hmem⟩
  · rw [setAt_other _ _ hq] at hheld
    exact ⟨hid, q, held, hheld, hrow⟩

theorem SlaInv.beginPass (h : SlaInv items s) (p : Nat) (org : Option Uuid)
    (policies : List SlaPolicy) (now : Millis) :
    SlaInv items { s with
      passes := setAt s.passes p
        (some ⟨policies, now, s.items.filter fun i => org.all (i.orgId == ·)⟩) } := by
  refine ⟨h.ids, fun item hitem => ?_⟩
  obtain ⟨row, hrow, hid, hserial⟩ := h.serial item hitem
  refine ⟨row, hrow, hid, hserial.read ?_⟩
  rintro r ⟨hrid, q, held, hheld, hmem⟩
  change setAt s.passes p _ q = some held at hheld
  by_cases hq : q = p
  · subst hq
    rw [setAt_same] at hheld
    obtain rfl := Option.some.inj hheld
    have hnow : r = row :=
      Table.eq_of_key h.ids (List.mem_filter.mp hmem).1 hrow (hrid.trans hid.symm)
    exact .inr (hnow ▸ rfl)
  · rw [setAt_other _ _ hq] at hheld
    exact .inl ⟨hrid, q, held, hheld, hmem⟩

theorem SlaInv.doneOn (h : SlaInv items s) (id : Uuid) (op : SlaOp) {p : WorkItem → Bool}
    {f : WorkItem → WorkItem} {passes : Nat → Option AgingPass} {moves : Nat → Option Move}
    (hp : ∀ r, p r = true → r.id = id) (hf : ∀ r, (f r).id = r.id)
    (hless : ∀ x r, ReadByPass { s with passes := passes } x r → ReadByPass s x r)
    (hop : ∀ r ∈ s.items, r.id = id →
      p r = true ∧ (f r).slaColumns = (SlaOp.run r op).slaColumns ∨
      p r = false ∧ ∃ q, ReadByPass s id q ∧ (SlaOp.run q op).slaColumns = q.slaColumns) :
    SlaInv items { s with
      items := Table.update p f s.items
      passes := passes
      moves := moves
      done := setAt s.done id (s.done id ++ [op]) } := by
  have hcol := Table.update_column (p := p) (fun r : WorkItem => r.id) hf s.items
  refine ⟨hcol ▸ h.ids, fun item hitem => ?_⟩
  obtain ⟨row, hrow, hid, hserial⟩ := h.serial item hitem
  change ∃ row ∈ Table.update p f s.items, row.id = item.id ∧
    Serial _ _ item (setAt s.done id (s.done id ++ [op]) item.id) _ row
  by_cases hsame : item.id = id
  · subst hsame
    rw [setAt_same]
    rcases hop row hrow hid with ⟨hhit, hcolumns⟩ | ⟨hmiss, q, hq, hsilent⟩
    · exact ⟨f row, Table.mem_update.mpr (.inl ⟨row, hrow, hhit, rfl⟩), (hf row).trans hid,
        (hserial.write slaRun_respects op hcolumns).mono (hless item.id)⟩
    · exact ⟨row, Table.mem_update_of_not hrow hmiss, hid,
        (hserial.silent slaRun_respects hq hsilent).mono (hless item.id)⟩
  · rw [setAt_other _ _ hsame]
    refine ⟨row, Table.mem_update_of_not hrow (Bool.eq_false_iff.mpr fun hhit => hsame ?_), hid,
      hserial.mono (hless item.id)⟩
    exact hid.symm.trans (hp row hhit)

theorem SlaInv.passItem (h : SlaInv items s) {p : Nat} (hcurrent : ReadsCurrent s (.passItem p))
    (hstep : passItemStep s p = some t) : SlaInv items t := by
  unfold passItemStep at hstep
  split at hstep
  case h_2 => cases hstep
  rename_i policies now item rest hpass
  obtain rfl := Option.some.inj hstep
  have hread : ReadByPass s item.id item := ⟨rfl, p, _, hpass, List.mem_cons_self⟩
  have hless : ∀ x r, ReadByPass { s with
      passes := setAt s.passes p (some ⟨policies, now, rest⟩) } x r → ReadByPass s x r := by
    intro x r
    refine readByPass_setAt fun new hnew r hr => ⟨_, hpass, ?_⟩
    obtain rfl := Option.some.inj hnew
    exact List.mem_cons_of_mem _ hr
  cases hchanged : agingChanged item (recomputed policies now item) with
  | true =>
    refine h.doneOn item.id (.pass policies now) (fun r hr => by simpa using hr) (fun _ => rfl)
      hless fun r hr hid => .inl ⟨by simpa using hid, ?_⟩
    exact setAging_columns (hcurrent _ hpass item rfl hchanged r hr hid) policies now
  | false =>
    have hkept : SlaInv items { s with
        items := Table.update (fun _ => false) (fun r => r) s.items
        passes := setAt s.passes p (some ⟨policies, now, rest⟩)
        done := setAt s.done item.id (s.done item.id ++ [.pass policies now]) } :=
      h.doneOn item.id (.pass policies now) (fun _ hr => absurd hr Bool.false_ne_true)
        (fun _ => rfl) hless
        fun _ _ _ => .inr ⟨rfl, item, hread, pass_silent hchanged⟩
    rw [Table.update_self] at hkept
    exact hkept

theorem SlaInv.commit (h : SlaInv items s) {m : Nat} {policies : List SlaPolicy} {now : Millis}
    (hcurrent : ReadsCurrent s (.commit m policies now))
    (hstep : commitMoveStep s m policies now = some t) : SlaInv items t := by
  obtain ⟨move, hmove, ht⟩ := Option.map_eq_some_iff.mp hstep
  simp only at ht
  split at ht
  · rename_i hany
    subst ht
    obtain ⟨hit, hhit, hmatch⟩ := List.any_eq_true.mp hany
    rw [Bool.and_eq_true, beq_iff_eq, beq_iff_eq] at hmatch
    refine h.doneOn move.item.id _ (fun r hr => ?_) (fun _ => rfl) (fun _ _ hr => hr)
      fun r hr hid => .inl ⟨?_, ?_⟩
    · rw [Bool.and_eq_true, beq_iff_eq] at hr
      exact hr.1
    all_goals obtain rfl := Table.eq_of_key h.ids hr hhit (hid.trans hmatch.1.symm)
    · rw [Bool.and_eq_true, beq_iff_eq, beq_iff_eq]
      exact hmatch
    · exact apply_columns (hcurrent move hmove r hr hid hmatch.2) policies move.toState now move.fields
  · subst ht
    exact ⟨h.ids, h.serial⟩

theorem SlaInv.step (h : SlaInv items s) {a : SlaAction} (hcurrent : ReadsCurrent s a)
    (hstep : slaStep s a = some t) : SlaInv items t := by
  cases a with
  | beginPass p org policies now =>
    simp only [slaStep] at hstep
    split at hstep
    · obtain rfl := Option.some.inj hstep
      exact h.beginPass p org policies now
    · cases hstep
  | passItem p => exact h.passItem hcurrent hstep
  | readItem m itemId toState fields =>
    simp only [slaStep] at hstep
    split at hstep
    · obtain rfl := Option.some.inj hstep
      exact ⟨h.ids, h.serial⟩
    · cases hstep
  | commit m policies now => exact h.commit hcurrent hstep
  | crash p =>
    obtain rfl := Option.some.inj hstep
    refine ⟨h.ids, fun item hitem => ?_⟩
    obtain ⟨row, hrow, hid, hserial⟩ := h.serial item hitem
    exact ⟨row, hrow, hid, hserial.mono fun r => readByPass_setAt nofun⟩

end

/-! ## A pass that is overtaken -/

/-- An epic in review, read by a pass after an hour and blocked after two. -/
def reviewedEpic : WorkItem where
  id := 1
  orgId := 1
  itemKey := "EPIC-1"
  type := .epic
  title := "Ledger export"
  description := ""
  status := "In Review"
  workflowVersion := 1
  priority := .p2
  severity := none
  ownerId := none
  teamId := 1
  enteredStateAt := 0
  createdAt := 0
  agingBucket := .green
  agingScore := 0
  sla := ⟨0, none, false⟩
  customFields := []
  tags := []
  source := none

def reviewPolicies : List SlaPolicy :=
  [⟨1, .epic, "In Review", 60, .always, false⟩, ⟨1, .epic, "Blocked", 60, .always, true⟩]

def overtakenPass : List SlaAction :=
  [.beginPass 0 none reviewPolicies 3600000, .readItem 0 1 "Blocked" [],
    .commit 0 reviewPolicies 7200000, .passItem 0]

end Cadena.WorkItems
