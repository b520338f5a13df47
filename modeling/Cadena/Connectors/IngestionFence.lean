import Cadena.Connectors.IngestionDrain

/-!
# Settled ingestion entries

The completion and the failure of an entry name no claim, so a worker whose
claim ran out while it was still working settles the entry again. As long as
nobody reports after its claim was taken away, completed entries stay completed,
dead ones leave that status by re-injection only, and the row always has the
outcome of the holder of its claim.
-/

namespace Cadena.Connectors.IngestionDrain

open Cadena.Base Cadena.Connectors Cadena.Integrations

abbrev DrainState.entries (s : DrainState) : List IngestionEntry := s.base.entries

/-- The entry that a call at work has claimed, and under which id. -/
def DrainState.holds (s : DrainState) (call : Nat) : Option (IngestionEntry × String) :=
  ((s.base.ingesting call).bind IngestionStage.job?).map fun x => (x.2.2.1, x.2.2.2)

def DrainState.busyCall (s : DrainState) (worker : Nat) : Option Nat :=
  match s.workers worker with
  | some ⟨_, _, .busy call _ _⟩ => some call
  | _ => none

/-- The statement of the step reaches the row. Only that of load shedding names
the claim. -/
def CallStep.reaches (job : IngestionEntry) (claimId : String) (e : IngestionEntry) : CallStep → Bool
  | .process _ => false
  | .fail (.loadShed ..) _ => isEntry job e && e.claimedBy = some claimId
  | .complete _ | .fail .. => isEntry job e

/-- The claim of the call whose outcome the step records on the row. -/
def DrainState.records (s : DrainState) (e : IngestionEntry) : DrainAction → Option String
  | .work worker step =>
    match (s.busyCall worker).bind s.holds with
    | some (job, claimId) => if step.reaches job claimId e then some claimId else none
    | none => none
  | _ => none

structure StaysSettled (s : DrainState) (a : DrainAction) (t : DrainState) : Prop where
  completed : ∀ e ∈ s.entries, e.status = .completed → ∀ e' ∈ t.entries, e'.id = e.id →
    e'.status ≠ .retry ∧ e'.status ≠ .dead
  dead : ∀ e ∈ s.entries, e.status = .dead → ∀ e' ∈ t.entries, e'.id = e.id →
    e'.status = .dead ∨ ∃ twinId payload history, a = .reinject e.id twinId payload history
  recorded : ∀ e ∈ s.entries, ∀ claimId, s.records e a = some claimId → e.claimedBy = some claimId

/-- A completion or a failure that is recorded under no claim. -/
def CallStep.unfenced : CallStep → Bool
  | .process _ | .fail (.loadShed ..) _ => false
  | .complete _ | .fail .. => true

def ReportsInTime (s : DrainState) : DrainAction → Prop
  | .work worker step => step.unfenced = true →
      ∀ job claimId, (s.busyCall worker).bind s.holds = some (job, claimId) → claimId ∉ s.lapsed
  | _ => True

/-! ## What a step does -/

section
variable {orgId : Uuid} {connector : ConnectorRecord} {P : Platform} {s t : DrainState} {a : DrainAction}

/-- Nothing but the entries and the calls may have changed. -/
structure SameClaims (s t : DrainState) : Prop where
  drawn : t.drawn = s.drawn
  lapsed : t.lapsed = s.lapsed

inductive DrainMove (orgId : Uuid) (s : DrainState) : DrainAction → DrainState → Prop where
  | quiet {a : DrainAction} {t : DrainState} (hclaims : SameClaims s t) (hentries : t.entries = s.entries)
      (hholds : ∀ c, t.holds c = s.holds c) (hrecords : ∀ e, s.records e a = none) : DrainMove orgId s a t
  | accept {entityType : String} {accepted : AcceptedRecord} {t : DrainState} (entry : IngestionEntry)
      (hclaims : SameClaims s t) (hentries : t.entries = s.entries ++ [entry])
      (hnew : ∀ e ∈ s.entries, e.id ≠ entry.id) (hfree : entry.claimedBy = none)
      (hholds : ∀ c, t.holds c = s.holds c) : DrainMove orgId s (.accept entityType accepted) t
  | take {worker call : Nat} {claimId : String} {dbNow workerNow : Millis} {t : DrainState} (entryId : Uuid)
      (hnew : claimId ∉ s.drawn) (hdrawn : t.drawn = claimId :: s.drawn)
      (hlapsed : t.lapsed = claimsOf s.entries (entryClaimable orgId entryId dbNow) ++ s.lapsed)
      (hentries : t.entries = Table.update (entryClaimable orgId entryId dbNow)
        (claimEntry claimId (workerNow + workOrderClaimMs)) s.entries)
      (hcall : t.holds call = (s.entries.find? (entryClaimable orgId entryId dbNow)).map fun e =>
        (claimEntry claimId (workerNow + workOrderClaimMs) e, claimId))
      (hholds : ∀ c, c ≠ call → t.holds c = s.holds c) :
      DrainMove orgId s (.take worker call claimId dbNow workerNow) t
  | report {worker : Nat} {step : CallStep} {t : DrainState} (call : Nat) (job : IngestionEntry) (claimId : String)
      (f : IngestionEntry → IngestionEntry) (hbusy : s.busyCall worker = some call)
      (hjob : s.holds call = some (job, claimId)) (hclaims : SameClaims s t)
      (hentries : t.entries = Table.update (step.reaches job claimId) f s.entries)
      (hkeeps : ∀ e, (f e).id = e.id ∧ (f e).orgId = e.orgId ∧ (f e).claimedBy = none)
      (hcall : t.holds call = none) (hholds : ∀ c, c ≠ call → t.holds c = s.holds c) :
      DrainMove orgId s (.work worker step) t
  | reinject {entryId : Uuid} {twinId : Option Uuid} {payload : ExternalRecordPayload}
      {history : List ConnectorQueueAttempt} {t : DrainState} (p : IngestionEntry → Bool)
      (f : IngestionEntry → IngestionEntry) (hclaims : SameClaims s t)
      (hentries : t.entries = Table.update p f s.entries)
      (hdead : ∀ e, p e = true → e.id = entryId ∧ e.status = .dead)
      (hkeeps : ∀ e, (f e).id = e.id ∧ (f e).orgId = e.orgId ∧ (f e).claimedBy = e.claimedBy)
      (hholds : ∀ c, t.holds c = s.holds c) : DrainMove orgId s (.reinject entryId twinId payload history) t
  | recover {dbNow : Millis} {t : DrainState} (hdrawn : t.drawn = s.drawn)
      (hlapsed : t.lapsed = claimsOf s.entries (entryRecovered dbNow) ++ s.lapsed)
      (hentries : t.entries = Table.update (entryRecovered dbNow)
        (fun e => { e.release .retry with nextAttemptAt := some dbNow }) s.entries)
      (hholds : ∀ c, t.holds c = s.holds c) : DrainMove orgId s (.recover dbNow) t

variable {call worker : Nat} {claimId : String} {e job : IngestionEntry} {f : IngestionEntry → IngestionEntry}
  {p : IngestionEntry → Bool}

theorem holds_setAt {stage : IngestionStage}
    (h : t.base.ingesting = setAt s.base.ingesting call (some stage)) (c : Nat) :
    t.holds c = if c = call then (stage.job?).map fun x => (x.2.2.1, x.2.2.2) else s.holds c := by
  rw [DrainState.holds, h]
  by_cases hc : c = call
  · subst hc
    simp only [setAt_same, Option.bind_some, if_true]
  · simp only [setAt_other _ _ hc, if_neg hc]
    rfl

theorem busyCall_some {w : DrainWorker} {rest : List Uuid} {processed : Nat}
    (hw : s.workers worker = some w) (hphase : w.phase = .busy call rest processed) :
    s.busyCall worker = some call := by
  obtain ⟨owner, renews, phase⟩ := w
  subst hphase
  rw [DrainState.busyCall, hw]

theorem takeStep_move {dbNow workerNow : Millis}
    (hstep : takeStep orgId connector s worker call claimId dbNow workerNow = some t) :
    DrainMove orgId s (.take worker call claimId dbNow workerNow) t := by
  unfold takeStep at hstep
  split at hstep
  · cases hstep
  rename_i hnew
  split at hstep
  case h_2 => cases hstep
  split at hstep
  case h_2 => cases hstep
  rename_i entryId rest processed hphase
  obtain ⟨base, hclaim, ht⟩ := Option.map_eq_some_iff.mp hstep
  unfold claimEntryStep at hclaim
  split at hclaim
  case h_2 => cases hclaim
  cases hclaim
  have hstage := holds_setAt (congrArg (·.base.ingesting) ht).symm
  subst ht
  refine .take entryId hnew rfl rfl rfl ?_ fun c hc => (hstage c).trans (if_neg hc)
  rw [hstage, if_pos rfl]
  cases s.entries.find? (entryClaimable orgId entryId dbNow) <;> rfl

theorem workStep_move {step : CallStep} (hstep : workStep P s worker step = some t) :
    DrainMove orgId s (.work worker step) t := by
  unfold workStep at hstep
  split at hstep
  case h_2 => cases hstep
  rename_i w hw
  split at hstep
  case h_2 => cases hstep
  rename_i call rest processed hphase
  have hbusy : s.busyCall worker = some call := busyCall_some hw hphase
  obtain ⟨base, hwork, ht⟩ := Option.map_eq_some_iff.mp hstep
  cases step with
  | process ids =>
    simp only [CallStep.action, connectorStep, processStep] at hwork
    split at hwork
    · rename_i org conn job claimId hcall
      split at hwork
      · cases hwork
        have hstage := holds_setAt (congrArg (·.base.ingesting) ht).symm
        subst ht
        refine .quiet ⟨rfl, rfl⟩ rfl ?_ ?_
        · intro c
          rw [hstage]
          by_cases hc : c = call
          · rw [if_pos hc, hc, DrainState.holds, hcall]
            rfl
          · rw [if_neg hc]
        · intro e
          simp only [DrainState.records, CallStep.reaches, Bool.false_eq_true, if_false]
          split <;> rfl
      · cases hwork
    · cases hwork
  | complete times =>
    simp only [CallStep.action, connectorStep, completeStep] at hwork
    split at hwork
    · rename_i org conn job claimId hcall
      cases hwork
      have hstage := holds_setAt (congrArg (·.base.ingesting) ht).symm
      subst ht
      refine .report call job claimId (completeEntry job _ times) hbusy ?_ ⟨rfl, rfl⟩ rfl
        (fun e => ⟨rfl, rfl, rfl⟩) ?_ fun c hc => (hstage c).trans (if_neg hc)
      · rw [DrainState.holds, hcall]
        rfl
      · rw [hstage, if_pos rfl]
        rfl
    · cases hwork
  | fail error times =>
    simp only [CallStep.action, connectorStep, failEntryStep] at hwork
    split at hwork
    · rename_i org conn job claimId hcall
      have hjob : s.holds call = some (job, claimId) := by
        rw [DrainState.holds, hcall]
        rfl
      split at hwork
      · cases hwork
        have hstage := holds_setAt (congrArg (·.base.ingesting) ht).symm
        subst ht
        refine .report call job claimId (deferEntry _ _) hbusy hjob ⟨rfl, rfl⟩ rfl
          (fun e => ⟨rfl, rfl, rfl⟩) ?_ fun c hc => (hstage c).trans (if_neg hc)
        rw [hstage, if_pos rfl]
        rfl
      · rename_i hshed
        have hreaches : (CallStep.fail error times).reaches job claimId = isEntry job := by
          funext e
          cases error with
          | loadShed message until_ => exact absurd rfl (hshed message until_)
          | remote | credential | other => rfl
        have hbase : base.entries = Table.update (isEntry job) (failEntry job error.message times) s.entries ∧
            base.ingesting = setAt s.base.ingesting call (some .returned) := by
          cases hwork
          split <;> exact ⟨rfl, rfl⟩
        have hstage := holds_setAt ((congrArg (·.base.ingesting) ht).symm.trans hbase.2)
        subst ht
        refine .report call job claimId (failEntry job error.message times) hbusy hjob ⟨rfl, rfl⟩ ?_
          (fun e => ⟨rfl, rfl, rfl⟩) ?_ fun c hc => (hstage c).trans (if_neg hc)
        · rw [hreaches]
          exact hbase.1
        · rw [hstage, if_pos rfl]
          rfl
    · cases hwork

theorem quiet_of_same (hbase : t.base.entries = s.base.entries) (hcalls : t.base.ingesting = s.base.ingesting)
    (hclaims : SameClaims s t) (hrecords : ∀ e, s.records e a = none) : DrainMove orgId s a t :=
  .quiet hclaims hbase (fun c => by rw [DrainState.holds, DrainState.holds, hcalls]) hrecords

theorem drainStep_move (hstep : drainStep orgId connector P s a = some t) : DrainMove orgId s a t := by
  cases a with
  | start worker leaseOwner renews dbNow workerNow =>
    simp only [drainStep, startStep] at hstep
    split at hstep
    · cases hstep
    · split at hstep <;> cases hstep <;> exact quiet_of_same rfl rfl ⟨rfl, rfl⟩ fun _ => rfl
  | renew worker workerNow =>
    simp only [drainStep, renewStep] at hstep
    split at hstep
    · split at hstep
      · cases hstep
        exact quiet_of_same rfl rfl ⟨rfl, rfl⟩ fun _ => rfl
      · cases hstep
    · cases hstep
  | read worker shedding dbNow =>
    simp only [drainStep, readStep] at hstep
    split at hstep
    · split at hstep <;> cases hstep <;> exact quiet_of_same rfl rfl ⟨rfl, rfl⟩ fun _ => rfl
    · cases hstep
  | take worker call claimId dbNow workerNow => exact takeStep_move hstep
  | work worker step => exact workStep_move hstep
  | escape worker =>
    simp only [drainStep, escapeStep] at hstep
    split at hstep
    · split at hstep <;> cases hstep <;> exact quiet_of_same rfl rfl ⟨rfl, rfl⟩ fun _ => rfl
    · cases hstep
  | leave worker =>
    simp only [drainStep, leaveStep] at hstep
    split at hstep
    · split at hstep <;> cases hstep
      exact quiet_of_same rfl rfl ⟨rfl, rfl⟩ fun _ => rfl
    · cases hstep
  | order action =>
    obtain ⟨base, hbase, rfl⟩ := Option.map_eq_some_iff.mp hstep
    obtain ⟨queue, -, rfl⟩ := Option.map_eq_some_iff.mp hbase
    exact quiet_of_same rfl rfl ⟨rfl, rfl⟩ fun _ => rfl
  | accept entityType accepted =>
    obtain ⟨base, hbase, rfl⟩ := Option.map_eq_some_iff.mp hstep
    simp only [connectorStep, acceptStep] at hbase
    split at hbase
    · cases hbase
    · rename_i hnew
      cases hbase
      by_cases hdup : dedupeTaken s.base.entries
          (newEntry P orgId connector entityType accepted s.base.nextEntry) = true
      · refine quiet_of_same ?_ rfl ⟨rfl, rfl⟩ fun _ => rfl
        exact if_pos hdup
      · refine .accept (newEntry P orgId connector entityType accepted s.base.nextEntry) ⟨rfl, rfl⟩ ?_ ?_ rfl
          fun c => rfl
        · exact if_neg hdup
        · intro e he heq
          exact hnew (List.any_eq_true.mpr ⟨e, he, decide_eq_true heq⟩)
  | reinject entryId twinId payload history =>
    simp only [drainStep, connectorStep, Option.map_some, Option.some.injEq] at hstep
    have hsame :
        (reinjectEntryStep P s.base orgId connector entryId twinId payload history).entries = Table.update
          (fun e => e.id = entryId && e.orgId = orgId && e.connectorId = connector.id && e.status = .dead)
          (Connectors.reinjectEntry P connector payload history) s.entries ∧
        (reinjectEntryStep P s.base orgId connector entryId twinId payload history).ingesting =
          s.base.ingesting := by
      unfold reinjectEntryStep
      cases twinId <;> exact ⟨rfl, rfl⟩
    subst hstep
    refine .reinject _ _ ⟨rfl, rfl⟩ hsame.1 ?_ (fun e => ⟨rfl, rfl, rfl⟩) ?_
    · intro e he
      simp only [Bool.and_eq_true, decide_eq_true_eq] at he
      exact ⟨he.1.1.1, he.2⟩
    · intro c
      simp only [DrainState.holds, hsame.2]
  | recover dbNow =>
    simp only [drainStep, connectorStep, Option.map_some, Option.some.injEq] at hstep
    subst hstep
    exact .recover rfl rfl rfl fun c => rfl

/-! ## Claims -/

structure FenceInv (s : DrainState) : Prop where
  ids : (s.entries.map (·.id)).Nodup
  claimed : ∀ e ∈ s.entries, ∀ k, e.claimedBy = some k → e.status = .processing ∧ k ∈ s.drawn ∧ k ∉ s.lapsed
  rows : ∀ e ∈ s.entries, ∀ e' ∈ s.entries, ∀ k, e.claimedBy = some k → e'.claimedBy = some k → e = e'
  holds : ∀ c job k, s.holds c = some (job, k) → k ∈ s.drawn ∧
    ∃ e ∈ s.entries, isEntry job e = true ∧ (k ∉ s.lapsed → e.claimedBy = some k)
  unique : ∀ c d job job' k, s.holds c = some (job, k) → s.holds d = some (job', k) → c = d
  lapsed : ∀ k ∈ s.lapsed, k ∈ s.drawn

theorem isEntry_iff : isEntry job e = true ↔ e.id = job.id ∧ e.orgId = job.orgId := by
  simp [isEntry]

theorem isEntry_update {entries : List IngestionEntry}
    (hkeeps : ∀ e, (f e).id = e.id ∧ (f e).orgId = e.orgId) (he : e ∈ entries)
    (hjob : isEntry job e = true) :
    (if p e then f e else e) ∈ Table.update p f entries ∧ isEntry job (if p e then f e else e) = true := by
  refine ⟨List.mem_map_of_mem he, ?_⟩
  rw [isEntry_iff] at hjob ⊢
  split
  · exact ⟨(hkeeps e).1.trans hjob.1, (hkeeps e).2.trans hjob.2⟩
  · exact hjob

theorem mem_claimsOf {entries : List IngestionEntry} {k : String} :
    k ∈ claimsOf entries p ↔ ∃ e ∈ entries, p e = true ∧ e.claimedBy = some k := by
  simp only [claimsOf, List.mem_filterMap, List.mem_filter, and_assoc]

theorem FenceInv.idle (t : IngestState) : FenceInv (idleDrain t) where
  ids := List.nodup_nil
  claimed e he := absurd he List.not_mem_nil
  rows e he := absurd he List.not_mem_nil
  holds c job k h := by cases h
  unique c d job job' k h := by cases h
  lapsed k hk := absurd hk List.not_mem_nil

theorem FenceInv.quiet (h : FenceInv s) (hclaims : SameClaims s t) (hentries : t.entries = s.entries)
    (hholds : ∀ c, t.holds c = s.holds c) : FenceInv t where
  ids := by rw [hentries]; exact h.ids
  claimed := by rw [hentries, hclaims.drawn, hclaims.lapsed]; exact h.claimed
  rows := by rw [hentries]; exact h.rows
  holds c job k hc := by
    rw [hholds] at hc
    rw [hentries, hclaims.drawn, hclaims.lapsed]
    exact h.holds c job k hc
  unique c d job job' k hc hd := by
    rw [hholds] at hc hd
    exact h.unique c d job job' k hc hd
  lapsed := by rw [hclaims.drawn, hclaims.lapsed]; exact h.lapsed

theorem FenceInv.released (h : FenceInv s)
    (hentries : t.entries = Table.update p f s.entries) (hkeeps : ∀ e, (f e).id = e.id ∧ (f e).orgId = e.orgId)
    (hfree : ∀ e ∈ s.entries, p e = true → (f e).claimedBy = none) (hdrawn : t.drawn = s.drawn)
    (hgrows : ∀ k ∈ s.lapsed, k ∈ t.lapsed)
    (hlapsed : ∀ k ∈ t.lapsed, k ∈ s.lapsed ∨ ∃ e ∈ s.entries, p e = true ∧ e.claimedBy = some k)
    (hholds : ∀ c job k, t.holds c = some (job, k) → s.holds c = some (job, k))
    (hkept : ∀ c job k, t.holds c = some (job, k) → k ∉ t.lapsed → ∀ e ∈ s.entries, e.claimedBy = some k →
      p e = false) : FenceInv t := by
  have hold : ∀ e' ∈ t.entries, ∀ k, e'.claimedBy = some k → e' ∈ s.entries ∧ p e' = false := by
    intro e' he' k hk
    rw [hentries, Table.mem_update] at he'
    rcases he' with ⟨e, he, hp, rfl⟩ | hmem
    · rw [hfree e he hp] at hk
      cases hk
    · exact hmem
  refine ⟨?_, ?_, ?_, ?_, ?_, ?_⟩
  · rw [hentries, Table.update_column _ fun e => (hkeeps e).1]
    exact h.ids
  · intro e' he' k hk
    obtain ⟨hmem, hp⟩ := hold e' he' k hk
    obtain ⟨hstatus, hmemdrawn, hnot⟩ := h.claimed e' hmem k hk
    refine ⟨hstatus, hdrawn ▸ hmemdrawn, fun hk' => ?_⟩
    rcases hlapsed k hk' with hk' | ⟨e, he, hpe, hek⟩
    · exact hnot hk'
    · rw [h.rows e he e' hmem k hek hk, hp] at hpe
      cases hpe
  · intro e he e' he' k hk hk'
    exact h.rows e (hold e he k hk).1 e' (hold e' he' k hk').1 k hk hk'
  · intro c job k hc
    obtain ⟨hmemdrawn, e, he, hjob, hclaim⟩ := h.holds c job k (hholds c job k hc)
    obtain ⟨hmem, hrow⟩ := isEntry_update hkeeps he hjob
    refine ⟨hdrawn ▸ hmemdrawn, _, hentries ▸ hmem, hrow, fun hnot => ?_⟩
    have hk : e.claimedBy = some k := hclaim fun hk => hnot (hgrows k hk)
    rw [if_neg (by simp [hkept c job k hc hnot e he hk])]
    exact hk
  · intro c d job job' k hc hd
    exact h.unique c d job job' k (hholds c job k hc) (hholds d job' k hd)
  · intro k hk
    rw [hdrawn]
    rcases hlapsed k hk with hk | ⟨e, he, -, hek⟩
    · exact h.lapsed k hk
    · exact (h.claimed e he k hek).2.1

theorem FenceInv.accepted (h : FenceInv s) {entry : IngestionEntry} (hclaims : SameClaims s t)
    (hentries : t.entries = s.entries ++ [entry]) (hnew : ∀ e ∈ s.entries, e.id ≠ entry.id)
    (hfree : entry.claimedBy = none) (hholds : ∀ c, t.holds c = s.holds c) : FenceInv t := by
  have hold : ∀ e ∈ t.entries, ∀ k, e.claimedBy = some k → e ∈ s.entries := by
    intro e he k hk
    rw [hentries, List.mem_append, List.mem_singleton] at he
    rcases he with he | rfl
    · exact he
    · rw [hfree] at hk
      cases hk
  refine ⟨?_, ?_, ?_, ?_, ?_, ?_⟩
  · rw [hentries]
    exact Table.nodup_insert h.ids hnew
  · intro e he k hk
    rw [hclaims.drawn, hclaims.lapsed]
    exact h.claimed e (hold e he k hk) k hk
  · intro e he e' he' k hk hk'
    exact h.rows e (hold e he k hk) e' (hold e' he' k hk') k hk hk'
  · intro c job k hc
    rw [hholds] at hc
    obtain ⟨hdrawn, e, he, hrest⟩ := h.holds c job k hc
    rw [hclaims.drawn, hclaims.lapsed, hentries]
    exact ⟨hdrawn, e, List.mem_append_left _ he, hrest⟩
  · intro c d job job' k hc hd
    rw [hholds] at hc hd
    exact h.unique c d job job' k hc hd
  · rw [hclaims.drawn, hclaims.lapsed]
    exact h.lapsed

theorem FenceInv.taken (h : FenceInv s) {entryId : Uuid} {dbNow expires : Millis}
    (hnew : claimId ∉ s.drawn) (hdrawn : t.drawn = claimId :: s.drawn)
    (hlapsed : t.lapsed = claimsOf s.entries (entryClaimable orgId entryId dbNow) ++ s.lapsed)
    (hentries : t.entries = Table.update (entryClaimable orgId entryId dbNow) (claimEntry claimId expires) s.entries)
    (hcall : t.holds call = (s.entries.find? (entryClaimable orgId entryId dbNow)).map fun e =>
      (claimEntry claimId expires e, claimId))
    (hholds : ∀ c, c ≠ call → t.holds c = s.holds c) : FenceInv t := by
  have hsub : ∀ k ∈ t.lapsed, k ∈ s.drawn := by
    intro k hk
    rw [hlapsed, List.mem_append, mem_claimsOf] at hk
    rcases hk with ⟨e, he, -, hek⟩ | hk
    · exact (h.claimed e he k hek).2.1
    · exact h.lapsed k hk
  have hold : ∀ e' ∈ t.entries, ∀ k, e'.claimedBy = some k →
      (∃ e ∈ s.entries, entryClaimable orgId entryId dbNow e = true ∧ e' = claimEntry claimId expires e ∧ k = claimId) ∨
        (e' ∈ s.entries ∧ entryClaimable orgId entryId dbNow e' = false) := by
    intro e' he' k hk
    rw [hentries, Table.mem_update] at he'
    rcases he' with ⟨e, he, hp, rfl⟩ | hmem
    · exact .inl ⟨e, he, hp, rfl, (Option.some.inj hk).symm⟩
    · exact .inr hmem
  have hone : ∀ e ∈ s.entries, ∀ e' ∈ s.entries, entryClaimable orgId entryId dbNow e = true →
      entryClaimable orgId entryId dbNow e' = true → e = e' := by
    intro e he e' he' hp hp'
    simp only [entryClaimable, Bool.and_eq_true, decide_eq_true_eq] at hp hp'
    exact Table.eq_of_key h.ids he he' (hp.1.1.trans hp'.1.1.symm)
  refine ⟨?_, ?_, ?_, ?_, ?_, ?_⟩
  · have hid : ∀ e, (claimEntry claimId expires e).id = e.id := fun e => rfl
    rw [hentries, Table.update_column _ hid]
    exact h.ids
  · intro e' he' k hk
    rw [hdrawn]
    rcases hold e' he' k hk with ⟨e, -, -, rfl, rfl⟩ | ⟨hmem, hp⟩
    · exact ⟨rfl, List.mem_cons_self, fun hk' => hnew (hsub _ hk')⟩
    · obtain ⟨hstatus, hmemdrawn, hnot⟩ := h.claimed e' hmem k hk
      refine ⟨hstatus, List.mem_cons_of_mem _ hmemdrawn, fun hk' => ?_⟩
      rw [hlapsed, List.mem_append, mem_claimsOf] at hk'
      rcases hk' with ⟨e, he, hpe, hek⟩ | hk'
      · rw [h.rows e he e' hmem k hek hk, hp] at hpe
        cases hpe
      · exact hnot hk'
  · intro e he e' he' k hk hk'
    rcases hold e he k hk with ⟨q, hq, hp, rfl, rfl⟩ | ⟨hmem, -⟩ <;>
      rcases hold e' he' k hk' with ⟨q', hq', hp', rfl, hsame⟩ | ⟨hmem', -⟩
    · rw [hone q hq q' hq' hp hp']
    · exact absurd (h.claimed e' hmem' _ hk').2.1 hnew
    · rw [hsame] at hk
      exact absurd (h.claimed e hmem _ hk).2.1 hnew
    · exact h.rows e hmem e' hmem' k hk hk'
  · intro c job k hc
    rw [hdrawn]
    by_cases hcc : c = call
    · subst hcc
      rw [hcall] at hc
      obtain ⟨e, he, hpair⟩ := Option.map_eq_some_iff.mp hc
      cases hpair
      refine ⟨List.mem_cons_self, claimEntry claimId expires e, ?_, isEntry_iff.mpr ⟨rfl, rfl⟩, fun _ => rfl⟩
      rw [hentries]
      exact Table.mem_update.mpr (.inl ⟨e, List.mem_of_find?_eq_some he, List.find?_some he, rfl⟩)
    · rw [hholds c hcc] at hc
      obtain ⟨hmemdrawn, e, he, hjob, hclaim⟩ := h.holds c job k hc
      obtain ⟨hmem, hrow⟩ :=
        isEntry_update (f := claimEntry claimId expires) (p := entryClaimable orgId entryId dbNow)
          (fun e => ⟨rfl, rfl⟩) he hjob
      refine ⟨List.mem_cons_of_mem _ hmemdrawn, _, hentries ▸ hmem, hrow, fun hnot => ?_⟩
      rw [hlapsed, List.mem_append, mem_claimsOf, not_or] at hnot
      have hk : e.claimedBy = some k := hclaim hnot.2
      rw [if_neg fun hp => hnot.1 ⟨e, he, hp, hk⟩]
      exact hk
  · have hother : ∀ c job k, c ≠ call → t.holds c = some (job, k) → k ≠ claimId := by
      intro c job k hcc hc hk
      rw [hholds c hcc] at hc
      exact hnew (hk ▸ (h.holds c job k hc).1)
    have hown : ∀ job k, t.holds call = some (job, k) → k = claimId := by
      intro job k hc
      rw [hcall] at hc
      obtain ⟨e, -, hpair⟩ := Option.map_eq_some_iff.mp hc
      cases hpair
      rfl
    intro c d job job' k hc hd
    by_cases hcc : c = call <;> by_cases hdc : d = call
    · rw [hcc, hdc]
    · exact absurd (hown job k (hcc ▸ hc)) (hother d job' k hdc hd)
    · exact absurd (hown job' k (hdc ▸ hd)) (hother c job k hcc hc)
    · rw [hholds c hcc] at hc
      rw [hholds d hdc] at hd
      exact h.unique c d job job' k hc hd
  · intro k hk
    rw [hdrawn]
    exact List.mem_cons_of_mem _ (hsub k hk)

theorem reaches_key {step : CallStep} (h : step.reaches job claimId e = true) : isEntry job e = true := by
  cases step with
  | process ids => cases h
  | complete times => exact h
  | fail error times =>
    cases error with
    | loadShed message until_ =>
      simp only [CallStep.reaches, Bool.and_eq_true] at h
      exact h.1
    | remote | credential | other => exact h

theorem reaches_fenced {step : CallStep} (hstep : step.unfenced = false)
    (h : step.reaches job claimId e = true) : e.claimedBy = some claimId := by
  cases step with
  | process ids => cases h
  | complete times => cases hstep
  | fail error times =>
    cases error with
    | loadShed message until_ =>
      simp only [CallStep.reaches, Bool.and_eq_true, decide_eq_true_eq] at h
      exact h.2
    | remote | credential | other => cases hstep

theorem FenceInv.reached (h : FenceInv s) {step : CallStep}
    (hbusy : s.busyCall worker = some call) (hjob : s.holds call = some (job, claimId))
    (hin : ReportsInTime s (.work worker step)) (he : e ∈ s.entries)
    (hreach : step.reaches job claimId e = true) : e.claimedBy = some claimId := by
  cases hstep : step.unfenced with
  | false => exact reaches_fenced hstep hreach
  | true =>
    have hnot := hin hstep job claimId (by rw [hbusy, Option.bind_some, hjob])
    obtain ⟨-, e', he', hrow, hclaim⟩ := h.holds call job claimId hjob
    have hsame : e = e' := Table.eq_of_key h.ids he he'
      ((isEntry_iff.mp (reaches_key hreach)).1.trans (isEntry_iff.mp hrow).1.symm)
    rw [hsame]
    exact hclaim hnot

theorem FenceInv.step (h : FenceInv s) (hin : ReportsInTime s a) (hstep : drainStep orgId connector P s a = some t) :
    FenceInv t := by
  cases drainStep_move hstep with
  | quiet hclaims hentries hholds hrecords => exact h.quiet hclaims hentries hholds
  | accept entry hclaims hentries hnew hfree hholds => exact h.accepted hclaims hentries hnew hfree hholds
  | take entryId hnew hdrawn hlapsed hentries hcall hholds =>
    exact h.taken hnew hdrawn hlapsed hentries hcall hholds
  | report call job claimId f hbusy hjob hclaims hentries hkeeps hcall hholds =>
    have hother : ∀ c j k, t.holds c = some (j, k) → c ≠ call ∧ s.holds c = some (j, k) := by
      intro c j k hc
      have hne : c ≠ call := by
        rintro rfl
        rw [hcall] at hc
        cases hc
      exact ⟨hne, hholds c hne ▸ hc⟩
    refine h.released hentries (fun e => ⟨(hkeeps e).1, (hkeeps e).2.1⟩) (fun e _ _ => (hkeeps e).2.2)
      hclaims.drawn (fun k hk => hclaims.lapsed ▸ hk) (fun k hk => .inl (hclaims.lapsed ▸ hk))
      (fun c j k hc => (hother c j k hc).2) fun c j k hc _ e he hk => ?_
    cases hreach : CallStep.reaches job claimId e _ with
    | false => rfl
    | true =>
      have hheld := h.reached hbusy hjob hin he hreach
      rw [hheld] at hk
      cases hk
      exact absurd (h.unique c call j job claimId (hother c j claimId hc).2 hjob) (hother c j claimId hc).1
  | reinject p f hclaims hentries hdead hkeeps hholds =>
    have hunclaimed : ∀ e ∈ s.entries, e.status = .dead → e.claimedBy = none := by
      intro e he hstatus
      rw [Option.eq_none_iff_forall_ne_some]
      intro k hk
      have hprocessing := (h.claimed e he k hk).1
      rw [hstatus] at hprocessing
      cases hprocessing
    refine h.released hentries (fun e => ⟨(hkeeps e).1, (hkeeps e).2.1⟩) (fun e he hp => ?_) hclaims.drawn
      (fun k hk => hclaims.lapsed ▸ hk) (fun k hk => .inl (hclaims.lapsed ▸ hk))
      (fun c j k hc => hholds c ▸ hc) fun c j k hc _ e he hk => ?_
    · rw [(hkeeps e).2.2]
      exact hunclaimed e he (hdead e hp).2
    · cases hp : p e with
      | false => rfl
      | true =>
        rw [hunclaimed e he (hdead e hp).2] at hk
        cases hk
  | recover hdrawn hlapsed hentries hholds =>
    refine h.released hentries (fun e => ⟨rfl, rfl⟩) (fun e _ _ => rfl) hdrawn (fun k hk => ?_) (fun k hk => ?_)
      (fun c j k hc => hholds c ▸ hc) fun c j k hc hnot e he hk => ?_
    · rw [hlapsed]
      exact List.mem_append_right _ hk
    · rw [hlapsed, List.mem_append, mem_claimsOf] at hk
      exact hk.symm
    · rw [hlapsed, List.mem_append, mem_claimsOf, not_or] at hnot
      exact Bool.eq_false_iff.mpr fun hp => hnot.1 ⟨e, he, hp, hk⟩

/-! ## Settled entries -/

theorem staysSettled_of_update (h : FenceInv s)
    (hentries : t.entries = Table.update p f s.entries) (hkeeps : ∀ e, (f e).id = e.id)
    (hopen : ∀ e ∈ s.entries, p e = true → e.status ≠ .completed ∧ e.status ≠ .dead)
    (hrecorded : ∀ e ∈ s.entries, ∀ claimId, s.records e a = some claimId → e.claimedBy = some claimId) :
    StaysSettled s a t := by
  have hkept : ∀ e ∈ s.entries, e.status = .completed ∨ e.status = .dead → ∀ e' ∈ t.entries, e'.id = e.id →
      e'.status = e.status := by
    intro e he hsettled e' he' hid
    rw [Table.row_of_update h.ids hkeeps he (hentries ▸ he') hid, if_neg]
    intro hp
    exact hsettled.elim (hopen e he hp).1 (hopen e he hp).2
  refine ⟨fun e he hstatus e' he' hid => ?_, fun e he hstatus e' he' hid => .inl ?_, hrecorded⟩
  · rw [hkept e he (.inl hstatus) e' he' hid, hstatus]
    decide
  · exact (hkept e he (.inr hstatus) e' he' hid).trans hstatus

theorem open_of_claimed (h : FenceInv s) (he : e ∈ s.entries) {k : String}
    (hk : e.claimedBy = some k) : e.status ≠ .completed ∧ e.status ≠ .dead := by
  rw [(h.claimed e he k hk).1]
  decide

theorem staysSettled_of_inTime (h : FenceInv s) (hin : ReportsInTime s a)
    (hstep : drainStep orgId connector P s a = some t) : StaysSettled s a t := by
  cases drainStep_move hstep with
  | quiet hclaims hentries hholds hrecords =>
    refine staysSettled_of_update (p := fun _ => false) (f := id) h ?_ (fun _ => rfl) (fun _ _ hp => nomatch hp)
      fun e _ k hk => ?_
    · rw [hentries, Table.update_none fun _ _ => rfl]
    · rw [hrecords e] at hk
      cases hk
  | accept entry hclaims hentries hnew hfree hholds =>
    have hkept : ∀ e ∈ s.entries, ∀ e' ∈ t.entries, e'.id = e.id → e' = e := by
      intro e he e' he' hid
      rw [hentries, List.mem_append, List.mem_singleton] at he'
      rcases he' with he' | rfl
      · exact Table.eq_of_key h.ids he' he hid
      · exact absurd hid.symm (hnew e he)
    refine ⟨fun e he hstatus e' he' hid => ?_, fun e he hstatus e' he' hid => .inl ?_, fun _ _ _ hk => nomatch hk⟩
    · rw [hkept e he e' he' hid, hstatus]
      decide
    · rw [hkept e he e' he' hid, hstatus]
  | take entryId hnew hdrawn hlapsed hentries hcall hholds =>
    refine staysSettled_of_update h hentries (fun _ => rfl) (fun e _ hp => ?_) fun _ _ _ hk => nomatch hk
    simp only [entryClaimable, Bool.and_eq_true, Bool.or_eq_true, decide_eq_true_eq] at hp
    rcases hp.2 with (hstatus | hstatus) | ⟨hstatus, -⟩ <;> rw [hstatus] <;> decide
  | report call job claimId f hbusy hjob hclaims hentries hkeeps hcall hholds =>
    refine staysSettled_of_update h hentries (fun e => (hkeeps e).1) (fun e he hp => ?_) fun e he k hk => ?_
    · exact open_of_claimed h he (h.reached hbusy hjob hin he hp)
    · simp only [DrainState.records, hbusy, Option.bind_some, hjob] at hk
      split at hk
      · rename_i hreach
        cases hk
        exact h.reached hbusy hjob hin he hreach
      · cases hk
  | reinject p f hclaims hentries hdead hkeeps hholds =>
    refine ⟨fun e he hstatus e' he' hid => ?_, fun e he hstatus e' he' hid => ?_, fun _ _ _ hk => nomatch hk⟩
    · rw [Table.row_of_update h.ids (fun e => (hkeeps e).1) he (hentries ▸ he') hid, if_neg, hstatus]
      · decide
      · intro hp
        rw [(hdead e hp).2] at hstatus
        cases hstatus
    · rw [Table.row_of_update h.ids (fun e => (hkeeps e).1) he (hentries ▸ he') hid]
      split
      · rename_i hp
        exact .inr ⟨_, _, _, by rw [(hdead e hp).1]⟩
      · exact .inl hstatus
  | recover hdrawn hlapsed hentries hholds =>
    refine staysSettled_of_update h hentries (fun _ => rfl) (fun e _ hp => ?_) fun _ _ _ hk => nomatch hk
    simp only [entryRecovered, Bool.and_eq_true, decide_eq_true_eq] at hp
    rw [hp.1]
    decide

theorem inTime_of_staysSettled (h : FenceInv s) (hsettled : StaysSettled s a t) : ReportsInTime s a := by
  cases a with
  | work worker step =>
    intro hstep job claimId hheld hlapsed
    obtain ⟨call, -, hjob⟩ := Option.bind_eq_some_iff.mp hheld
    obtain ⟨-, e, he, hrow, -⟩ := h.holds call job claimId hjob
    have hreach : step.reaches job claimId e = true := by
      cases step with
      | process ids => cases hstep
      | complete times => exact hrow
      | fail error times =>
        cases error with
        | loadShed message until_ => cases hstep
        | remote | credential | other => exact hrow
    have hclaim : e.claimedBy = some claimId :=
      hsettled.recorded e he claimId (by simp only [DrainState.records, hheld, if_pos hreach])
    exact (h.claimed e he claimId hclaim).2.2 hlapsed
  | start | renew | read | take | escape | leave | order | accept | reinject | recover => trivial

end

/-! ## Runs -/

def SettledStep (orgId : Uuid) (connector : ConnectorRecord) (P : Platform) (s : DrainState) (a : DrainAction) :
    Prop :=
  ∀ t, drainStep orgId connector P s a = some t → StaysSettled s a t

/-- **When settled entries stay settled**: over every run of the workers of a
connector, whatever expires on the way, exactly if no call completes or fails
an entry whose claim had run out and been taken from it, by another claim or by
a restart. -/
theorem settled_entries_stay_iff (orgId : Uuid) (connector : ConnectorRecord) (P : Platform) (start : IngestState)
    (acts : List DrainAction) (t : DrainState)
    (hrun : (ingestionDrain orgId connector P).run (idleDrain start) acts = some t) :
    (ingestionDrain orgId connector P).Along (SettledStep orgId connector P) (idleDrain start) acts ↔
      (ingestionDrain orgId connector P).Along ReportsInTime (idleDrain start) acts := by
  refine System.along_congr _ (fun h hin hstep => h.step hin hstep) (fun h hstep => ⟨fun hsettled => ?_, ?_⟩)
    (FenceInv.idle start) hrun
  · exact inTime_of_staysSettled h (hsettled _ hstep)
  · intro hin t' ht'
    exact staysSettled_of_inTime h hin ht'

def itsmConnector : ConnectorRecord := ⟨2, "servicenow", "ITSM"⟩

def printerIncident : ExternalRecordPayload where
  externalId := "abc"
  artifactType := "incident"
  title := "Printer"
  nativeKey := some "INC1"
  nativeUrl := none
  status := "Open"
  fields := []
  fieldAuthority := none
  updatedAt := 1
  updatedBy := none

def itsmTables : IngestState := ⟨[], [], [itsmConnector]⟩

/-- A worker claims the only entry and is slow; its claim runs out after two
minutes, its lease after five. A second one takes both over and completes the
entry. -/
def takenOver : List DrainAction :=
  [.accept "incident" ⟨7, "printer", none, printerIncident⟩,
   .start 0 "slow" false 0 0, .read 0 false 0, .take 0 0 "slow:1" 0 0,
   .start 1 "second" false 300000 300000, .read 1 false 300000, .take 1 1 "second:1" 300000 300000,
   .work 1 (.process ⟨20, 21, 22⟩), .work 1 (.complete ⟨300000, 300001⟩)]

/-- The first worker's query times out at last. -/
def lateFailure : DrainAction := .work 0 (.fail (.other "connect ETIMEDOUT") ⟨0, 300002⟩)

def statuses (s : DrainState) : List (Uuid × IngestionStatus) := s.entries.map fun e => (e.id, e.status)

/-- The completed entry is to be processed again. -/
theorem completed_entry_retried :
    ((ingestionDrain 1 itsmConnector .ascii).run (idleDrain itsmTables) takenOver).map statuses =
        some [(7, .completed)] ∧
      ((ingestionDrain 1 itsmConnector .ascii).run (idleDrain itsmTables) (takenOver ++ [lateFailure])).map statuses =
        some [(7, .retry)] ∧
      ¬ (ingestionDrain 1 itsmConnector .ascii).Along (SettledStep 1 itsmConnector .ascii) (idleDrain itsmTables)
        (takenOver ++ [lateFailure]) := by
  have hbefore : ((ingestionDrain 1 itsmConnector .ascii).run (idleDrain itsmTables) takenOver).map statuses =
      some [(7, .completed)] := by
    decide
  have hafter : ((ingestionDrain 1 itsmConnector .ascii).run (idleDrain itsmTables)
      (takenOver ++ [lateFailure])).map statuses = some [(7, .retry)] := by
    decide
  refine ⟨hbefore, hafter, fun hall => ?_⟩
  obtain ⟨u, hu, hcompleted⟩ := Option.map_eq_some_iff.mp hbefore
  obtain ⟨t, ht, hretry⟩ := Option.map_eq_some_iff.mp hafter
  obtain ⟨v, hv, hlast⟩ := (System.run_append _).mp ht
  obtain rfl := Option.some.inj (hu.symm.trans hv)
  obtain ⟨w, hstep, hw⟩ := (System.run_cons _).mp hlast
  obtain rfl := Option.some.inj hw
  obtain ⟨e, he, heq⟩ := List.map_eq_singleton_iff.mp hcompleted
  obtain ⟨e', he', heq'⟩ := List.map_eq_singleton_iff.mp hretry
  have hsettled := (System.along_suffix _ hall hu).1 _ hstep
  have hnot := (hsettled.completed e (he ▸ List.mem_singleton_self e) (Prod.mk.inj heq).2 e'
    (he' ▸ List.mem_singleton_self e') ((Prod.mk.inj heq').1.trans (Prod.mk.inj heq).1.symm)).1
  exact hnot (Prod.mk.inj heq').2

/-- The check of `ReportsInTime`. -/
def inTimeCheck (s : DrainState) : DrainAction → Bool
  | .work worker step => !step.unfenced ||
      (((s.busyCall worker).bind s.holds).all fun x => !s.lapsed.contains x.2)
  | _ => true

theorem inTime_of_check (s : DrainState) (a : DrainAction) (h : inTimeCheck s a = true) : ReportsInTime s a := by
  cases a with
  | work worker step =>
    intro hstep job claimId hheld
    simp only [inTimeCheck, hstep, Bool.not_true, Bool.false_or, hheld, Option.all_some, Bool.not_eq_true',
      List.contains_eq_mem, decide_eq_false_iff_not] at h
    exact h
  | start | renew | read | take | escape | leave | order | accept | reinject | recover => trivial

/-- The slow worker fails the entry while its claim stands; the second one finds
it again and completes it. -/
def reportedInTime : List DrainAction :=
  [.accept "incident" ⟨7, "printer", none, printerIncident⟩,
   .start 0 "slow" false 0 0, .read 0 false 0, .take 0 0 "slow:1" 0 0,
   .work 0 (.fail (.other "connect ETIMEDOUT") ⟨0, 100000⟩),
   .start 1 "second" false 300000 300000, .read 1 false 300000, .take 1 1 "second:1" 300000 300000,
   .work 1 (.process ⟨20, 21, 22⟩), .work 1 (.complete ⟨300000, 300001⟩)]

theorem settled_entries_stay_in_time :
    ((ingestionDrain 1 itsmConnector .ascii).run (idleDrain itsmTables) reportedInTime).map statuses =
        some [(7, .completed)] ∧
      (ingestionDrain 1 itsmConnector .ascii).Along (SettledStep 1 itsmConnector .ascii) (idleDrain itsmTables)
        reportedInTime := by
  have hend : ((ingestionDrain 1 itsmConnector .ascii).run (idleDrain itsmTables) reportedInTime).map statuses =
      some [(7, .completed)] := by
    decide
  obtain ⟨t, ht, -⟩ := Option.map_eq_some_iff.mp hend
  refine ⟨hend, (settled_entries_stay_iff 1 itsmConnector .ascii itsmTables reportedInTime t ht).mpr ?_⟩
  exact System.along_of_checks _ inTime_of_check (by decide)

end Cadena.Connectors.IngestionDrain
