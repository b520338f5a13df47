import Cadena.Connectors.MirroredLinks

/-!
# Complete and unique mirrored links

Whoever comes last of a correlation link and the two items sees the other two:
the handler of the link reads the pairs after the link is committed, and the
projection that creates an item reads them after that. So a pair is always
linked, or some call is still to look at it (`Owed`). Only the check before
the insert keeps a pair from a second row, so the rows are unique exactly
when no two calls stand between a check and an insert of one pair.
-/

namespace Cadena.Connectors.Mirroring

open Cadena.Base Cadena.WorkItems Cadena.Integrations Cadena.Lineage Cadena.Connectors.Projections

section
variable {R : MirrorRun} {s t : MirrorState}

structure Owned (R : MirrorRun) (db : ProjectionDb) : Prop where
  nodes : ∀ twin ∈ db.twins, twin.correlationNodeId = R.nodeOf twin.id
  twins : ∀ i ∈ db.items, ∀ y, isItemOf y i = true → ∃ twin ∈ db.twins, twin.id = y

def AtNode (R : MirrorRun) (items : List WorkItem) (nodeId x : Uuid) : Prop :=
  ∃ i ∈ items, i.id = x ∧ ∃ y, isItemOf y i = true ∧ R.nodeOf y = some nodeId

theorem mem_itemsAt {db : ProjectionDb} (h : Owned R db) {nodeId x : Uuid} :
    x ∈ itemsAt db nodeId ↔ AtNode R db.items nodeId x := by
  simp only [itemsAt, List.mem_flatMap, List.mem_filter, List.mem_map, beq_iff_eq]
  constructor
  · rintro ⟨twin, ⟨htwin, hnode⟩, i, ⟨hi, hitem⟩, rfl⟩
    exact ⟨i, hi, rfl, twin.id, hitem, h.nodes twin htwin ▸ hnode⟩
  · rintro ⟨i, hi, rfl, y, hitem, hnode⟩
    obtain ⟨twin, htwin, rfl⟩ := h.twins i hi y hitem
    exact ⟨twin, ⟨htwin, (h.nodes twin htwin).trans hnode⟩, i, ⟨hi, hitem⟩, rfl⟩

theorem atNode_append {items : List WorkItem} {item : WorkItem} {nodeId x : Uuid} :
    AtNode R (items ++ [item]) nodeId x ↔
      AtNode R items nodeId x ∨
        item.id = x ∧ ∃ y, isItemOf y item = true ∧ R.nodeOf y = some nodeId := by
  simp [AtNode, or_and_right, exists_or]

theorem atNode_update {p : WorkItem → Bool} {f : WorkItem → WorkItem} (hf : KeepsItem f)
    {items : List WorkItem} {nodeId x : Uuid} :
    AtNode R (Table.update p f items) nodeId x ↔ AtNode R items nodeId x := by
  have hkeep (i : WorkItem) : (if p i = true then f i else i).id = i.id ∧
      ∀ y, isItemOf y (if p i = true then f i else i) = isItemOf y i := by
    split
    · exact ⟨hf.id i, fun y => hf.twin y i⟩
    · exact ⟨rfl, fun _ => rfl⟩
  constructor
  · rintro ⟨i, hi, rfl, y, hitem, hnode⟩
    obtain ⟨j, hj, rfl⟩ := List.mem_map.mp hi
    exact ⟨j, hj, (hkeep j).1.symm, y, ((hkeep j).2 y).symm.trans hitem, hnode⟩
  · rintro ⟨i, hi, rfl, y, hitem, hnode⟩
    exact ⟨_, List.mem_map_of_mem hi, (hkeep i).1, y, ((hkeep i).2 y).trans hitem, hnode⟩

/-- The call will look at the pair: it will read the pairs of one end of the
link, or it has read this one. -/
def MirrorCall.Covers (call : MirrorCall) (l : PairLink) (p : Sym2 Uuid) : Prop :=
  call.stage = .finding ∧ call.trigger = .pair l.id ∨
  (∃ n, call.stage = .linking (some n) ∧ (n = l.sourceNodeId ∨ n = l.targetNodeId)) ∨
  ∃ q ∈ call.stage.pairs, s(q.1, q.2) = p

/-- The pair has its row, or the link is still to be handled, or a call will
look at the pair. -/
def Owed (s : MirrorState) (l : PairLink) (p : Sym2 Uuid) : Prop :=
  p ∈ s.ledger.rows ∨ (∀ c call, s.calls c = some call → call.trigger ≠ .pair l.id) ∨
  ∃ c call, s.calls c = some call ∧ call.Covers l p

theorem Owed.setStage {l : PairLink} {p : Sym2 Uuid} (h : Owed s l p) {c : Nat} {call : MirrorCall}
    {stage : MirrorStage} (hcall : s.calls c = some call)
    (hcalls : t.calls = (s.setStage c call stage).calls)
    (hrows : ∀ p ∈ s.ledger.rows, p ∈ t.ledger.rows)
    (hcovers : call.Covers l p →
      p ∈ t.ledger.rows ∨ ({ call with stage := stage } : MirrorCall).Covers l p) : Owed t l p := by
  have hself : t.calls c = some { call with stage := stage } := by
    rw [hcalls]
    exact setAt_same _ _ _
  have hother {j : Nat} (hj : j ≠ c) : t.calls j = s.calls j := by
    rw [hcalls]
    exact setAt_other _ _ hj
  rcases h with hrow | hnone | ⟨j, call', hj, hcov⟩
  · exact .inl (hrows p hrow)
  · refine .inr (.inl fun j call' hj => ?_)
    by_cases hjc : j = c
    · subst hjc
      obtain rfl := Option.some.inj (hself.symm.trans hj)
      exact hnone j call hcall
    · exact hnone j call' (hother hjc ▸ hj)
  · by_cases hjc : j = c
    · subst hjc
      obtain rfl := Option.some.inj (hcall.symm.trans hj)
      rcases hcovers hcov with hrow | hcov'
      · exact .inl hrow
      · exact .inr (.inr ⟨j, _, hself, hcov'⟩)
    · exact .inr (.inr ⟨j, call', (hother hjc).trans hj, hcov⟩)

theorem Owed.same {l : PairLink} {p : Sym2 Uuid} (h : Owed s l p) (hcalls : t.calls = s.calls)
    (hledger : t.ledger = s.ledger) : Owed t l p := by
  rw [Owed, hcalls, hledger]
  exact h

/-! ## The invariant -/

/-- The row that a projection works with: the node is that of the twin. -/
def MirrorCall.PlanOk (R : MirrorRun) (db : ProjectionDb) (call : MirrorCall) : Prop :=
  ∀ state nodeId stage, call.stage = .projecting state nodeId stage →
    stage ≠ .started ∧ ∀ plan, stage.plan = some plan →
      nodeId = R.nodeOf plan.1.id ∧ ∃ twin ∈ db.twins, twin.id = plan.1.id

structure MirrorInv (R : MirrorRun) (s : MirrorState) : Prop where
  owned : Owned R s.db
  plans : ∀ c call, s.calls c = some call → call.PlanOk R s.db
  ids : (s.pairLinks.map (·.id)).Nodup
  handled : ∀ c call, s.calls c = some call → ∀ id, call.trigger = .pair id →
    ∃ l ∈ s.pairLinks, l.id = id
  read : ∀ c call, s.calls c = some call → ∀ q ∈ call.stage.pairs, s.Counterparts q.1 q.2
  rows : ∀ row ∈ s.links, row.origin = .correlation →
    s.Counterparts row.link.sourceId row.link.targetId
  owed : ∀ l ∈ s.pairLinks, l.relationship = "counterpart" →
    ∀ x ∈ itemsAt s.db l.sourceNodeId, ∀ y ∈ itemsAt s.db l.targetNodeId, Owed s l s(x, y)

theorem counterparts_mono (hlinks : ∀ l ∈ s.pairLinks, l ∈ t.pairLinks)
    (hitems : ∀ n, ∀ x ∈ itemsAt s.db n, x ∈ itemsAt t.db n) {x y : Uuid}
    (h : s.Counterparts x y) : t.Counterparts x y := by
  obtain ⟨l, hl, hrel, ⟨hx, hy⟩ | ⟨hx, hy⟩⟩ := h
  · exact ⟨l, hlinks l hl, hrel, .inl ⟨hitems _ x hx, hitems _ y hy⟩⟩
  · exact ⟨l, hlinks l hl, hrel, .inr ⟨hitems _ x hx, hitems _ y hy⟩⟩

theorem counterparts_symm {x y : Uuid} (h : s.Counterparts x y) : s.Counterparts y x := by
  obtain ⟨l, hl, hrel, h⟩ := h
  exact ⟨l, hl, hrel, h.symm.imp And.symm And.symm⟩

theorem mem_counterpartPairs {db : ProjectionDb} {links : List PairLink} {n : Uuid}
    {q : Uuid × Uuid} :
    q ∈ counterpartPairs db links n ↔
      ∃ l ∈ links, l.relationship = "counterpart" ∧ (l.sourceNodeId = n ∨ l.targetNodeId = n) ∧
        q.1 ∈ itemsAt db n ∧ q.2 ∈ itemsAt db (farNode n l) := by
  simp only [counterpartPairs, List.mem_flatMap, List.mem_filter, List.mem_map, Bool.and_eq_true,
    Bool.or_eq_true, beq_iff_eq]
  constructor
  · rintro ⟨l, ⟨hl, hrel, hend⟩, own, hown, other, hother, rfl⟩
    exact ⟨l, hl, hrel, hend, hown, hother⟩
  · rintro ⟨l, hl, hrel, hend, hown, hother⟩
    exact ⟨l, ⟨hl, hrel, hend⟩, q.1, hown, q.2, hother, rfl⟩

theorem counterparts_of_read {n : Uuid} {q : Uuid × Uuid}
    (h : q ∈ counterpartPairs s.db s.pairLinks n) : s.Counterparts q.1 q.2 := by
  obtain ⟨l, hl, hrel, hend, hown, hother⟩ := mem_counterpartPairs.mp h
  rw [farNode] at hother
  split at hother
  · rename_i hsource
    exact ⟨l, hl, hrel, .inl ⟨hsource ▸ hown, hother⟩⟩
  · rename_i hsource
    have htarget : l.targetNodeId = n := hend.resolve_left hsource
    exact ⟨l, hl, hrel, .inr ⟨htarget ▸ hown, hother⟩⟩

theorem read_of_end {l : PairLink} (hl : l ∈ s.pairLinks) (hrel : l.relationship = "counterpart")
    {n x y : Uuid} (hn : n = l.sourceNodeId ∨ n = l.targetNodeId)
    (hx : x ∈ itemsAt s.db l.sourceNodeId) (hy : y ∈ itemsAt s.db l.targetNodeId) :
    ∃ q ∈ counterpartPairs s.db s.pairLinks n, s(q.1, q.2) = s(x, y) := by
  by_cases hsource : l.sourceNodeId = n
  · refine ⟨(x, y), mem_counterpartPairs.mpr ⟨l, hl, hrel, .inl hsource, hsource ▸ hx, ?_⟩, rfl⟩
    rwa [farNode, if_pos hsource]
  · have htarget : n = l.targetNodeId := hn.resolve_left fun h => hsource h.symm
    refine ⟨(y, x), mem_counterpartPairs.mpr ⟨l, hl, hrel, .inr htarget.symm, htarget ▸ hy, ?_⟩,
      Sym2.eq_swap⟩
    rwa [farNode, if_neg hsource]

/-! ## Each step keeps it -/

theorem calls_setStage {P : MirrorCall → Prop} {c : Nat} {call : MirrorCall} {stage : MirrorStage}
    (hcalls : t.calls = (s.setStage c call stage).calls)
    (hold : ∀ j call', s.calls j = some call' → P call') (hnew : P { call with stage := stage }) :
    ∀ j call', t.calls j = some call' → P call' := by
  intro j call' hj
  rw [hcalls] at hj
  by_cases hjc : j = c
  · subst hjc
    obtain rfl := Option.some.inj ((setAt_same _ _ _).symm.trans hj)
    exact hnew
  · exact hold j call' ((setAt_other _ _ hjc).symm.trans hj)

theorem findPairLink_eq (hids : (s.pairLinks.map (·.id)).Nodup) {l : PairLink}
    (hl : l ∈ s.pairLinks) (hrel : l.relationship = "counterpart") :
    findPairLink s.pairLinks l.id = some l := by
  cases hfind : findPairLink s.pairLinks l.id with
  | none =>
    have hno := List.find?_eq_none.mp hfind l hl
    simp [hrel] at hno
  | some l' =>
    have hsome := List.find?_some hfind
    rw [Bool.and_eq_true, beq_iff_eq, beq_iff_eq] at hsome
    rw [Table.eq_of_key hids (List.mem_of_find?_eq_some hfind) hl hsome.1]

theorem QuietMove.pairs {call : MirrorCall} {stage : MirrorStage} (h : QuietMove s call stage) :
    ∀ q ∈ stage.pairs, q ∈ call.stage.pairs ∨ s.Counterparts q.1 q.2 := by
  intro q hq
  cases h with
  | selected _ hpairs => exact .inr (counterparts_of_read (hpairs.mem_iff.mp hq))
  | present hstage _ =>
    left
    rw [hstage]
    exact List.mem_cons_of_mem _ hq
  | absent hstage _ =>
    left
    rw [hstage]
    exact hq
  | planned | held | found | missing | unlinked | done => cases hq

theorem QuietMove.planOk {call : MirrorCall} {stage : MirrorStage} (h : MirrorInv R s)
    (hmove : QuietMove s call stage) :
    ({ call with stage := stage } : MirrorCall).PlanOk R s.db := by
  intro state nodeId inner hinner
  cases hmove with
  | @planned twin d state' _ htwin =>
    obtain ⟨-, rfl, rfl⟩ := MirrorStage.projecting.inj hinner
    refine ⟨nofun, fun plan hplan => ?_⟩
    obtain rfl := Option.some.inj hplan
    exact ⟨h.owned.nodes twin htwin, twin, htwin, rfl⟩
  | held | found | missing | unlinked | selected | done | present | absent => cases hinner

theorem QuietMove.covers {call : MirrorCall} {stage : MirrorStage} (h : MirrorInv R s)
    (hmove : QuietMove s call stage) {l : PairLink} (hl : l ∈ s.pairLinks)
    (hrel : l.relationship = "counterpart") {x y : Uuid} (hx : x ∈ itemsAt s.db l.sourceNodeId)
    (hy : y ∈ itemsAt s.db l.targetNodeId) (hcov : call.Covers l s(x, y)) :
    s(x, y) ∈ s.ledger.rows ∨ ({ call with stage := stage } : MirrorCall).Covers l s(x, y) := by
  rw [MirrorCall.Covers] at hcov
  cases hmove with
  | planned hstage | held hstage | unlinked hstage | done hstage =>
    simp [hstage, MirrorStage.pairs] at hcov
  | @found l' id htrigger hstage hfind =>
    simp only [hstage, htrigger, MirrorStage.pairs, List.not_mem_nil] at hcov
    have hid : id = l.id := by simpa using hcov
    subst hid
    obtain rfl := Option.some.inj (hfind.symm.trans (findPairLink_eq h.ids hl hrel))
    exact .inr (.inr (.inl ⟨_, rfl, .inl rfl⟩))
  | @missing id htrigger hstage hfind =>
    simp only [hstage, htrigger, MirrorStage.pairs, List.not_mem_nil] at hcov
    have hid : id = l.id := by simpa using hcov
    subst hid
    rw [findPairLink_eq h.ids hl hrel] at hfind
    cases hfind
  | @selected nodeId pairs hstage hpairs =>
    obtain ⟨n, rfl, hend⟩ : ∃ n, nodeId = n ∧ (n = l.sourceNodeId ∨ n = l.targetNodeId) := by
      simpa [hstage, MirrorStage.pairs] using hcov
    obtain ⟨q, hq, heq⟩ := read_of_end hl hrel hend hx hy
    exact .inr (.inr (.inr ⟨q, hpairs.mem_iff.mpr hq, heq⟩))
  | @present own other rest hstage hrow =>
    obtain ⟨q, hq, heq⟩ : ∃ q ∈ (own, other) :: rest, s(q.1, q.2) = s(x, y) := by
      simpa [hstage, MirrorStage.pairs] using hcov
    rcases List.mem_cons.mp hq with rfl | hq
    · exact .inl (heq ▸ hrow)
    · exact .inr (.inr (.inr ⟨q, hq, heq⟩))
  | @absent own other rest hstage _ =>
    obtain ⟨q, hq, heq⟩ : ∃ q ∈ (own, other) :: rest, s(q.1, q.2) = s(x, y) := by
      simpa [hstage, MirrorStage.pairs] using hcov
    exact .inr (.inr (.inr ⟨q, hq, heq⟩))

theorem MirrorInv.quiet (h : MirrorInv R s) {c : Nat} {call : MirrorCall} {stage : MirrorStage}
    (hcall : s.calls c = some call) (hmove : QuietMove s call stage) :
    MirrorInv R (s.setStage c call stage) where
  owned := h.owned
  plans := calls_setStage (P := MirrorCall.PlanOk R s.db) rfl h.plans (QuietMove.planOk h hmove)
  ids := h.ids
  handled := calls_setStage rfl h.handled (h.handled c call hcall)
  read := by
    refine calls_setStage rfl h.read fun q hq => ?_
    rcases hmove.pairs q hq with hq | hq
    · exact h.read c call hcall q hq
    · exact hq
  rows := h.rows
  owed l hl hrel x hx y hy :=
    (h.owed l hl hrel x hx y hy).setStage hcall rfl (fun _ hp => hp) fun hcov =>
      hmove.covers h hl hrel hx hy hcov

theorem MirrorInv.insert (h : MirrorInv R s) {c : Nat} {id : Uuid} {now : Millis} {call : MirrorCall}
    {own other : Uuid} {rest : List (Uuid × Uuid)} (hcall : s.calls c = some call)
    (hstage : call.stage = .inserting own other rest) :
    MirrorInv R { s.setStage c call (.checking rest) with
      links := s.links ++ [mirroredRow id own other now] } := by
  have hpairs : call.stage.pairs = (own, other) :: rest := by
    rw [hstage]
    rfl
  refine ⟨h.owned, calls_setStage rfl h.plans ?_, h.ids,
    calls_setStage rfl h.handled (h.handled c call hcall), calls_setStage rfl h.read fun q hq => ?_,
    fun row hrow horigin => ?_, fun l hl hrel x hx y hy => ?_⟩
  · intro _ _ _ heq
    cases heq
  · exact h.read c call hcall q (hpairs ▸ List.mem_cons_of_mem _ hq)
  · rcases List.mem_append.mp hrow with hrow | hrow
    · exact h.rows row hrow horigin
    · obtain rfl := List.mem_singleton.mp hrow
      exact h.read c call hcall (own, other) (hpairs ▸ List.mem_cons_self)
  · refine (h.owed l hl hrel x hx y hy).setStage hcall rfl (fun p hp => ?_) fun hcov => ?_
    · rw [mem_rows] at hp ⊢
      obtain ⟨row, hrow, hp⟩ := hp
      exact ⟨row, List.mem_append_left _ hrow, hp⟩
    · obtain ⟨q, hq, heq⟩ : ∃ q ∈ (own, other) :: rest, s(q.1, q.2) = s(x, y) := by
        simpa [MirrorCall.Covers, hstage, MirrorStage.pairs] using hcov
      rcases List.mem_cons.mp hq with rfl | hq
      · exact .inl (mem_rows.mpr ⟨mirroredRow id own other now,
          List.mem_append_right _ (List.mem_singleton_self _), rfl, heq⟩)
      · exact .inr (.inr (.inr ⟨q, hq, heq⟩))

theorem MirrorInv.start (h : MirrorInv R s) {c : Nat} {trigger : Trigger} {stage : MirrorStage}
    (hfree : s.calls c = none) (hstage : stage = .reading ∨ stage = .finding)
    (hpair : ∀ id, trigger = .pair id → stage = .finding ∧ ∃ l ∈ s.pairLinks, l.id = id) :
    MirrorInv R { s with calls := setAt s.calls c (some ⟨trigger, stage⟩) } := by
  have hcalls {P : MirrorCall → Prop} (hold : ∀ j call, s.calls j = some call → P call)
      (hnew : P ⟨trigger, stage⟩) :
      ∀ j call, setAt s.calls c (some ⟨trigger, stage⟩) j = some call → P call := by
    intro j call hj
    by_cases hjc : j = c
    · subst hjc
      obtain rfl := Option.some.inj ((setAt_same _ _ _).symm.trans hj)
      exact hnew
    · exact hold j call ((setAt_other _ _ hjc).symm.trans hj)
  refine ⟨h.owned, hcalls h.plans ?_, h.ids, hcalls h.handled fun id hid => (hpair id hid).2,
    hcalls h.read ?_, h.rows, fun l hl hrel x hx y hy => ?_⟩
  · rcases hstage with rfl | rfl <;> (intro _ _ _ heq; cases heq)
  · rcases hstage with rfl | rfl <;> (intro q hq; cases hq)
  · rcases h.owed l hl hrel x hx y hy with hrow | hnone | ⟨j, call, hj, hcov⟩
    · exact .inl ((ledger_start hfree hstage).symm ▸ hrow)
    · by_cases htrigger : trigger = .pair l.id
      · exact .inr (.inr ⟨c, _, setAt_same _ _ _, .inl ⟨(hpair _ htrigger).1, htrigger⟩⟩)
      · exact .inr (.inl (hcalls hnone htrigger))
    · have hjc : j ≠ c := by
        rintro rfl
        rw [hfree] at hj
        cases hj
      exact .inr (.inr ⟨j, call, (setAt_other _ _ hjc).trans hj, hcov⟩)

theorem MirrorInv.tables (h : MirrorInv R s) (howned : Owned R t.db)
    (htwins : ∀ twin ∈ s.db.twins, ∃ twin' ∈ t.db.twins, twin'.id = twin.id)
    (hitems : ∀ n x, AtNode R t.db.items n x ↔ AtNode R s.db.items n x)
    (hcalls : t.calls = s.calls) (hpairs : t.pairLinks = s.pairLinks) (hlinks : t.links = s.links) :
    MirrorInv R t := by
  have hat (n : Uuid) (x : Uuid) : x ∈ itemsAt t.db n ↔ x ∈ itemsAt s.db n := by
    rw [mem_itemsAt howned, mem_itemsAt h.owned]
    exact hitems n x
  have hmono {x y : Uuid} (hxy : s.Counterparts x y) : t.Counterparts x y :=
    counterparts_mono (fun l hl => hpairs ▸ hl) (fun n x hx => (hat n x).mpr hx) hxy
  refine ⟨howned, fun c call hcall state nodeId stage hstage => ?_, hpairs ▸ h.ids,
    fun c call hcall id hid => hpairs ▸ h.handled c call (hcalls ▸ hcall) id hid,
    fun c call hcall q hq => hmono (h.read c call (hcalls ▸ hcall) q hq),
    fun row hrow horigin => hmono (h.rows row (hlinks ▸ hrow) horigin), fun l hl hrel x hx y hy => ?_⟩
  · obtain ⟨hne, hplan⟩ := h.plans c call (hcalls ▸ hcall) state nodeId stage hstage
    refine ⟨hne, fun plan heq => ?_⟩
    obtain ⟨hnode, twin, htwin, hid⟩ := hplan plan heq
    obtain ⟨twin', htwin', hid'⟩ := htwins twin htwin
    exact ⟨hnode, twin', htwin', hid'.trans hid⟩
  · have hledger : t.ledger = s.ledger := by
      rw [MirrorState.ledger, MirrorState.ledger, hlinks]
      exact congrArg (CheckedInsert.mk _) (funext fun c => by rw [MirrorState.due, hcalls]; rfl)
    exact (h.owed l (hpairs ▸ hl) hrel x ((hat _ x).mp hx) y ((hat _ y).mp hy)).same hcalls hledger

theorem MirrorInv.project (h : MirrorInv R s) {c : Nat} {call : MirrorCall} {state : Snapshot}
    {nodeId : Option Uuid} {before : Projection} {next : MirrorStage}
    (hcall : s.calls c = some call) (hstage : call.stage = .projecting state nodeId before)
    (hcalls : t.calls = (s.setStage c call next).calls) (hpairs : t.pairLinks = s.pairLinks)
    (hlinks : t.links = s.links) (htwins : t.db.twins = s.db.twins) (howned : Owned R t.db)
    (hitems : ∀ n x, AtNode R s.db.items n x → AtNode R t.db.items n x)
    (hnew : ∀ n x, AtNode R t.db.items n x → AtNode R s.db.items n x ∨ next = .linking (some n))
    (hplan : ({ call with stage := next } : MirrorCall).PlanOk R s.db) (hnone : next.pairs = []) :
    MirrorInv R t := by
  have hmono {x y : Uuid} (hxy : s.Counterparts x y) : t.Counterparts x y := by
    refine counterparts_mono (fun l hl => hpairs ▸ hl) (fun n x hx => ?_) hxy
    exact (mem_itemsAt howned).mpr (hitems n x ((mem_itemsAt h.owned).mp hx))
  have hself : t.calls c = some { call with stage := next } := by
    rw [hcalls]
    exact setAt_same _ _ _
  refine ⟨howned, ?_, hpairs ▸ h.ids,
    calls_setStage hcalls (fun j call' hj id hid => hpairs ▸ h.handled j call' hj id hid)
      fun id hid => hpairs ▸ h.handled c call hcall id hid,
    calls_setStage hcalls (fun j call' hj q hq => hmono (h.read j call' hj q hq)) fun q hq => ?_,
    fun row hrow horigin => hmono (h.rows row (hlinks ▸ hrow) horigin), fun l hl hrel x hx y hy => ?_⟩
  · have hall := calls_setStage hcalls h.plans hplan
    intro j call' hj
    rw [MirrorCall.PlanOk, htwins]
    exact hall j call' hj
  · rw [hnone] at hq
    cases hq
  · have hlink (n : Uuid) (hn : n = l.sourceNodeId ∨ n = l.targetNodeId)
        (hnext : next = .linking (some n)) : Owed t l s(x, y) :=
      .inr (.inr ⟨c, _, hself, .inr (.inl ⟨n, hnext, hn⟩)⟩)
    rcases hnew _ x ((mem_itemsAt howned).mp hx) with hx | hnext
    · rcases hnew _ y ((mem_itemsAt howned).mp hy) with hy | hnext
      · have howed := h.owed l (hpairs ▸ hl) hrel x ((mem_itemsAt h.owned).mpr hx) y
          ((mem_itemsAt h.owned).mpr hy)
        refine howed.setStage hcall hcalls (fun p hp => ?_) fun hcov => ?_
        · rw [MirrorState.ledger, hlinks]
          exact hp
        · simp [MirrorCall.Covers, hstage, MirrorStage.pairs] at hcov
      · exact hlink _ (.inr rfl) hnext
    · exact hlink _ (.inl rfl) hnext

theorem afterProjection_pairs {state : Snapshot} {nodeId : Option Uuid} {before next : Projection} :
    (afterProjection state nodeId before next).pairs = [] := by
  cases next with
  | returned =>
    simp only [afterProjection]
    split <;> rfl
  | started | planned | creating | updating | moving | committing | failed => rfl

theorem afterProjection_planOk {call : MirrorCall} {db : ProjectionDb} {state : Snapshot}
    {nodeId : Option Uuid} {before next : Projection}
    (hbefore : ∀ plan, before.plan = some plan →
      nodeId = R.nodeOf plan.1.id ∧ ∃ twin ∈ db.twins, twin.id = plan.1.id)
    (hplan : ∀ plan, next.plan = some plan → before.plan = some plan) :
    ({ call with stage := afterProjection state nodeId before next } : MirrorCall).PlanOk R db := by
  intro state' nodeId' stage hstage
  cases next with
  | returned =>
    simp only [afterProjection] at hstage
    split at hstage <;> cases hstage
  | started | failed => cases hstage
  | planned | creating | updating | moving | committing =>
    obtain ⟨-, rfl, rfl⟩ := MirrorStage.projecting.inj hstage
    exact ⟨by rintro ⟨⟩, fun plan heq => hbefore plan (hplan plan heq)⟩

theorem MirrorInv.advanced (h : MirrorInv R s) {c : Nat} {id : Uuid} {call : MirrorCall}
    {state : Snapshot} {nodeId : Option Uuid} {stage next : Projection} {db : ProjectionDb}
    (hcall : s.calls c = some call) (hstage : call.stage = .projecting state nodeId stage)
    (hmove : Advanced s.db id stage db next) :
    MirrorInv R { s.setStage c call (afterProjection state nodeId stage next) with db := db } := by
  obtain ⟨hne, hplans⟩ := h.plans c call hcall state nodeId stage hstage
  cases hmove with
  | began hstarted => exact absurd hstarted hne
  | read hplan =>
    exact h.project hcall hstage rfl rfl rfl rfl h.owned (fun _ _ hx => hx) (fun _ _ hx => .inl hx)
      (afterProjection_planOk hplans hplan) afterProjection_pairs
  | @created twin d item hcreating hid htwin =>
    subst hcreating
    obtain ⟨hnode, row, hrow, hrowId⟩ := hplans (twin, d) rfl
    show MirrorInv R { s.setStage c call (.linking nodeId) with db := _ }
    refine h.project hcall hstage rfl rfl rfl rfl
      ⟨h.owned.nodes, fun i hi y hy => ?_⟩ (fun n x hx => atNode_append.mpr (.inl hx))
      (fun n x hx => ?_) (fun _ _ _ heq => by cases heq) rfl
    · rcases List.mem_append.mp hi with hi | hi
      · exact h.owned.twins i hi y hy
      · obtain rfl := List.mem_singleton.mp hi
        exact ⟨row, hrow, hrowId.trans ((htwin y).mp hy)⟩
    · rcases atNode_append.mp hx with hx | ⟨-, y, hy, hn⟩
      · exact .inl hx
      · right
        rw [hnode, (htwin y).mp hy, hn]
  | @wrote p f _ hf hplan =>
    refine h.project hcall hstage rfl rfl rfl rfl ⟨h.owned.nodes, fun i hi y hy => ?_⟩
      (fun n x hx => (atNode_update hf).mpr hx) (fun n x hx => .inl ((atNode_update hf).mp hx))
      (afterProjection_planOk hplans fun plan heq => ?_) afterProjection_pairs
    · obtain ⟨j, hj, rfl⟩ := List.mem_map.mp hi
      refine h.owned.twins j hj y ?_
      split at hy
      · rwa [hf.twin] at hy
      · exact hy
    · rw [hplan] at heq
      cases heq

theorem MirrorInv.pair (h : MirrorInv R s) {l : PairLink} (hnew : ∀ l' ∈ s.pairLinks, l'.id ≠ l.id) :
    MirrorInv R { s with pairLinks := s.pairLinks ++ [l] } := by
  have hmono {x y : Uuid} (hxy : s.Counterparts x y) :
      MirrorState.Counterparts { s with pairLinks := s.pairLinks ++ [l] } x y :=
    counterparts_mono (s := s) (t := { s with pairLinks := s.pairLinks ++ [l] })
      (fun _ hl' => List.mem_append_left _ hl') (fun _ _ hx => hx) hxy
  refine ⟨h.owned, h.plans, Table.nodup_insert h.ids hnew, fun c call hcall id hid => ?_,
    fun c call hcall q hq => hmono (h.read c call hcall q hq),
    fun row hrow horigin => hmono (h.rows row hrow horigin), fun l' hl' hrel x hx y hy => ?_⟩
  · obtain ⟨l', hl', hid'⟩ := h.handled c call hcall id hid
    exact ⟨l', List.mem_append_left _ hl', hid'⟩
  · rcases List.mem_append.mp hl' with hl' | hl'
    · exact (h.owed l' hl' hrel x hx y hy).same rfl rfl
    · obtain rfl := List.mem_singleton.mp hl'
      refine .inr (.inl fun c call hcall htrigger => ?_)
      obtain ⟨other, hother, hid⟩ := h.handled c call hcall _ htrigger
      exact hnew other hother hid

theorem MirrorInv.relate (h : MirrorInv R s) {link : WorkItemLink} :
    MirrorInv R { s with links := s.links ++ [⟨link, .manual⟩] } := by
  refine ⟨h.owned, h.plans, h.ids, h.handled, h.read, fun row hrow horigin => ?_,
    fun l hl hrel x hx y hy => ?_⟩
  · rcases List.mem_append.mp hrow with hrow | hrow
    · exact h.rows row hrow horigin
    · obtain rfl := List.mem_singleton.mp hrow
      cases horigin
  · exact (h.owed l hl hrel x hx y hy).same rfl ledger_relate

theorem MirrorInv.move {a : MirrorAction} (h : MirrorInv R s) (hmove : MirrorMove R s a t) :
    MirrorInv R t := by
  cases hmove with
  | start hfree hstage hpair => exact h.start hfree hstage hpair
  | quiet _ hcall hmove => exact h.quiet hcall hmove
  | project hcall hstage hmove => exact h.advanced hcall hstage hmove
  | insert hcall hstage => exact h.insert hcall hstage
  | @ingest twins hnodes hstay =>
    refine h.tables ⟨hnodes, fun i hi y hy => ?_⟩ hstay (fun _ _ => Iff.rfl) rfl rfl rfl
    obtain ⟨twin, htwin, rfl⟩ := h.owned.twins i hi y hy
    exact hstay twin htwin
  | @create item hlocal =>
    refine h.tables ⟨h.owned.nodes, fun i hi y hy => ?_⟩ (fun twin htwin => ⟨twin, htwin, rfl⟩)
      (fun n x => ?_) rfl rfl rfl
    · rcases List.mem_append.mp hi with hi | hi
      · exact h.owned.twins i hi y hy
      · obtain rfl := List.mem_singleton.mp hi
        rw [isItemOf_local hlocal] at hy
        cases hy
    · rw [atNode_append]
      simp [isItemOf_local hlocal]
  | relate => exact h.relate
  | pair hnew => exact h.pair hnew

theorem MirrorInv.initial (policies : List SlaPolicy) : MirrorInv R (.start policies) where
  owned := ⟨fun _ h => absurd h List.not_mem_nil, fun _ h => absurd h List.not_mem_nil⟩
  plans _ _ h := by cases h
  ids := List.nodup_nil
  handled _ _ h := by cases h
  read _ _ h := by cases h
  rows _ h := absurd h List.not_mem_nil
  owed _ h := absurd h List.not_mem_nil

theorem MirrorInv.run {policies : List SlaPolicy} {acts : List MirrorAction}
    (hrun : (mirroring R).run (.start policies) acts = some t) : MirrorInv R t :=
  (mirroring R).run_invariant (fun h hstep => h.move (.of_step hstep)) (.initial policies) hrun

/-! ## When all is done -/

theorem MirrorInv.complete (h : MirrorInv R s) (hfin : s.Finished) {x y : Uuid}
    (hxy : s.Counterparts x y) : s(x, y) ∈ s.ledger.rows := by
  have hdone {l : PairLink} {p : Sym2 Uuid} (hl : l ∈ s.pairLinks)
      (hrel : l.relationship = "counterpart") (howed : Owed s l p) : p ∈ s.ledger.rows := by
    rcases howed with hrow | hnone | ⟨c, call, hcall, hcov⟩
    · exact hrow
    · obtain ⟨c, call, hcall, htrigger⟩ := hfin.pairs l hl hrel
      exact absurd htrigger (hnone c call hcall)
    · rcases hfin.calls c call hcall with hstage | hstage <;>
        simp [MirrorCall.Covers, hstage, MirrorStage.pairs] at hcov
  obtain ⟨l, hl, hrel, ⟨hx, hy⟩ | ⟨hx, hy⟩⟩ := hxy
  · exact hdone hl hrel (h.owed l hl hrel x hx y hy)
  · rw [Sym2.eq_swap]
    exact hdone hl hrel (h.owed l hl hrel y hy x hx)

theorem MirrorInv.sound (h : MirrorInv R s) {x y : Uuid} (hrow : s(x, y) ∈ s.ledger.rows) :
    s.Counterparts x y := by
  obtain ⟨row, hrow, horigin, hends⟩ := mem_rows.mp hrow
  have hxy := h.rows row hrow horigin
  rcases Sym2.eq_iff.mp hends with ⟨rfl, rfl⟩ | ⟨rfl, rfl⟩
  · exact hxy
  · exact counterparts_symm hxy

theorem MirrorInv.mirrored_iff (h : MirrorInv R s) (hfin : s.Finished) :
    s.Mirrored ↔ s.ledger.rows.Nodup := by
  constructor
  · intro hm
    refine List.nodup_iff_count_le_one.mpr fun p => ?_
    induction p using Sym2.ind with
    | _ x y =>
      rw [← mirrorsOf_length]
      by_cases hxy : s.Counterparts x y
      · exact (hm.one x y hxy).le
      · rw [hm.none x y hxy]
        exact Nat.zero_le 1
  · intro hnodup
    refine ⟨fun x y hxy => ?_, fun x y hxy => List.length_eq_zero_iff.mp ?_⟩
    · rw [mirrorsOf_length, List.count_eq_one_of_mem hnodup (h.complete hfin hxy)]
    · rw [mirrorsOf_length, List.count_eq_zero]
      exact fun hrow => hxy (h.sound hrow)

theorem MirrorState.Finished.due (hfin : s.Finished) (c : Nat) : s.due c = none := by
  rw [MirrorState.due]
  cases hcall : s.calls c with
  | none => rfl
  | some call =>
    rcases hfin.calls c call hcall with hstage | hstage <;>
      simp [hstage, MirrorStage.due]

theorem single_step {a : MirrorAction} (h : s.ledger.Single) (halone : InsertsAlone s a)
    (hstep : (mirroring R).step s a = some t) : t.ledger.Single := by
  rcases (MirrorMove.of_step hstep).ledger with hmove | ⟨c, id, now, rfl, hinsert⟩
  · exact h.move hmove
  · exact h.insert halone hinsert

theorem doubling_step {a : MirrorAction} (h : s.ledger.Doubling)
    (hstep : (mirroring R).step s a = some t) : t.ledger.Doubling := by
  rcases (MirrorMove.of_step hstep).ledger with hmove | ⟨c, id, now, -, hinsert⟩
  · exact h.move hmove
  · exact h.insert hinsert

theorem insert_of_due {c : Nat} {id : Uuid} {now : Millis} {p : Sym2 Uuid} (hdue : s.due c = some p)
    (hmove : MirrorMove R s (.step c id now) t) : s.ledger.Insert c t.ledger := by
  cases hmove with
  | quiet hc hcall hquiet =>
    obtain rfl := Option.some.inj hc
    rw [due_eq hcall, hquiet.due] at hdue
    cases hdue
  | project hcall hstage _ =>
    rw [due_eq hcall, hstage] at hdue
    cases hdue
  | insert hcall hstage => exact ledger_insert hcall hstage

theorem doubling_of_not_alone {a : MirrorAction} (halone : ¬ InsertsAlone s a)
    (hstep : (mirroring R).step s a = some t) : t.ledger.Doubling := by
  cases a with
  | step c id now =>
    cases hdue : s.due c with
    | none => exact absurd (fun p hp => by rw [hdue] at hp; cases hp) halone
    | some p => exact .of_insert (insert_of_due hdue (.of_step hstep)) halone
  | start | select | ingest | create | relate | pair => exact absurd trivial halone

/-- Once all calls have finished, every two items of counterparts have one
row, and other items none, exactly when no call has inserted a row for a pair
while another call stood between its check and its insert for that pair. -/
theorem mirrored_iff_alone (R : MirrorRun) (policies : List SlaPolicy) (acts : List MirrorAction)
    {t : MirrorState} (hrun : (mirroring R).run (.start policies) acts = some t)
    (hfin : t.Finished) :
    t.Mirrored ↔ (mirroring R).Along InsertsAlone (.start policies) acts := by
  rw [(MirrorInv.run hrun).mirrored_iff hfin]
  constructor
  · intro hnodup
    rcases (mirroring R).along_or_first (C := InsertsAlone) hrun with hall | hfirst
    · exact hall
    · obtain ⟨_, _, after, _, v, -, -, -, hnot, hstep, hrest⟩ := hfirst
      have hdoubling : t.ledger.Doubling :=
        (mirroring R).run_invariant doubling_step (doubling_of_not_alone hnot hstep) hrest
      exact absurd hnodup (hdoubling.not_nodup hfin.due)
  · intro halong
    have hstart : (MirrorState.start policies).ledger.Single :=
      ⟨List.nodup_nil, fun c p hdue => by cases hdue⟩
    exact ((mirroring R).along_invariant single_step hstart halong hrun).nodup

end

/-! ## An issue and its incident -/

/-- One team; every record is projected. -/
def mirrorTenant : MirrorRun where
  ctx := ⟨.ascii, 0, [5], [], fun _ => ⟨true, none, [], []⟩⟩
  clock := ⟨fun _ => none⟩
  nodeOf twinId := if twinId = 1 then some 11 else some 12

def issueRow : CanonicalTwin :=
  ⟨1, 0, 1, "jira", "issue", "10042", some "CAD-42", none, some "Slow", some "To Do", .synced, [], [],
    none, some 0, some 11⟩

def incidentRow : CanonicalTwin :=
  ⟨2, 0, 2, "servicenow", "incident", "abc", some "INC1", none, some "Slow", some "New", .synced, [],
    [], none, some 0, some 12⟩

def issueIncident : PairLink := ⟨30, 0, 12, 11, "counterpart", "admin"⟩

def projected (c : Nat) (twinId item : Uuid) : List MirrorAction :=
  [.start c (.twin twinId none), .step c item 0, .step c item 0, .step c item 0, .select c [],
   .step c item 0]

def linkedRecords : List MirrorAction :=
  [.ingest [issueRow, incidentRow]] ++ projected 0 1 21 ++ projected 1 2 22 ++ [.pair issueIncident]

def handlerChecks : List MirrorAction :=
  [.start 2 (.pair 30), .step 2 0 0, .select 2 [(22, 21)], .step 2 0 0]

/-- The issue is projected again, up to the check. -/
def projectionChecks : List MirrorAction :=
  [.start 3 (.twin 1 none), .step 3 0 0, .step 3 0 0, .step 3 0 0, .select 3 [(21, 22)],
   .step 3 0 0]

def mirrorCalls : Nat → Option MirrorCall
  | 0 | 3 => some ⟨.twin 1 none, .returned⟩
  | 1 => some ⟨.twin 2 none, .returned⟩
  | 2 => some ⟨.pair 30, .returned⟩
  | _ => none

/-- What is read off the last state. -/
structure MirrorEnd (t : MirrorState) (rows : Nat) : Prop where
  calls : t.calls = mirrorCalls
  pairs : t.pairLinks = [issueIncident]
  issue : itemsAt t.db 11 = [21]
  incident : itemsAt t.db 12 = [22]
  rows : (t.mirrorsOf 21 22).length = rows

theorem MirrorEnd.finished {t : MirrorState} {rows : Nat} (h : MirrorEnd t rows) : t.Finished := by
  refine ⟨fun c call hcall => ?_, fun l hl _ => ?_⟩
  · rw [h.calls] at hcall
    match c with
    | 0 | 1 | 2 | 3 =>
      obtain rfl := Option.some.inj hcall
      exact .inl rfl
    | c + 4 => cases hcall
  · rw [h.pairs, List.mem_singleton] at hl
    subst hl
    exact ⟨2, _, by rw [h.calls]; rfl, rfl⟩

theorem MirrorEnd.of_run {acts : List MirrorAction} {rows : Nat}
    (h : ((mirroring mirrorTenant).run (.start []) acts).map (fun t =>
      (t.calls, t.pairLinks, itemsAt t.db 11, itemsAt t.db 12, (t.mirrorsOf 21 22).length)) =
      some (mirrorCalls, [issueIncident], [21], [22], rows)) :
    ∃ t, (mirroring mirrorTenant).run (.start []) acts = some t ∧ MirrorEnd t rows := by
  obtain ⟨t, hrun, ht⟩ := Option.map_eq_some_iff.mp h
  simp only [Prod.mk.injEq] at ht
  exact ⟨t, hrun, ht.1, ht.2.1, ht.2.2.1, ht.2.2.2.1, ht.2.2.2.2⟩

/-- Both check before either inserts. -/
def overlappedRun : List MirrorAction :=
  linkedRecords ++ handlerChecks ++ projectionChecks ++
    [.step 2 40 0, .step 3 41 0, .step 2 0 0, .step 3 0 0]

theorem overlapped_end : ∃ t, (mirroring mirrorTenant).run (.start []) overlappedRun = some t ∧
    MirrorEnd t 2 := by
  refine MirrorEnd.of_run (Option.map_eq_some_iff.mpr ⟨_, rfl, Prod.ext ?_ rfl⟩)
  funext c
  match c with
  | 0 | 1 | 2 | 3 => rfl
  | c + 4 => rfl

theorem MirrorEnd.counterparts {t : MirrorState} {rows : Nat} (h : MirrorEnd t rows) :
    t.Counterparts 21 22 := by
  refine ⟨issueIncident, by rw [h.pairs]; exact List.mem_singleton_self _, rfl, .inr ⟨?_, ?_⟩⟩
  · show (21 : Uuid) ∈ itemsAt t.db 11
    rw [h.issue]
    exact List.mem_singleton_self _
  · show (22 : Uuid) ∈ itemsAt t.db 12
    rw [h.incident]
    exact List.mem_singleton_self _

theorem MirrorEnd.not_mirrored {t : MirrorState} (h : MirrorEnd t 2) : ¬ t.Mirrored := by
  intro hmirrored
  have hone := hmirrored.one 21 22 h.counterparts
  rw [h.rows] at hone
  cases hone

/-- The handler and the projection stand at the same pair. -/
theorem mirrored_iff_alone_overlapped :
    ¬ (mirroring mirrorTenant).Along InsertsAlone (.start []) overlappedRun := by
  obtain ⟨t, hrun, ht⟩ := overlapped_end
  intro halong
  exact ht.not_mirrored
    ((mirrored_iff_alone mirrorTenant [] overlappedRun hrun ht.finished).mpr halong)

theorem mirrored_twice :
    ¬ ∀ (R : MirrorRun) (policies : List SlaPolicy) (acts : List MirrorAction) (t : MirrorState),
      (mirroring R).run (.start policies) acts = some t → t.Finished → t.Mirrored := by
  obtain ⟨t, hrun, ht⟩ := overlapped_end
  exact fun hall => ht.not_mirrored (hall mirrorTenant [] overlappedRun t hrun ht.finished)

end Cadena.Connectors.Mirroring
