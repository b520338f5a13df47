import Cadena.Connectors.IngestionQueue
import Cadena.Connectors.WorkOrderAttempts

/-!
# The attempts of an ingestion entry

An entry counts its attempts like a work order. The completion and the failure of
an entry name no claim, so a call that has lost its claim takes the entry from
the call that has it.
-/

namespace Cadena.Connectors

open Cadena.Base

def entryColumns : ClaimColumns IngestionEntry Uuid String where
  key := (·.id)
  attempts := (·.attempts)
  holder := (·.claimedBy)
  unfinished e := e.status ≠ .completed

/-- The entry that a call at work has claimed, and under which id. -/
def entryClaim (s : ConnectorState) (call : Nat) : Option (IngestionEntry × String) :=
  ((s.ingesting call).bind IngestionStage.job?).map fun x => (x.2.2.1, x.2.2.2)

def entryAtWork (s : ConnectorState) (call : Nat) : Option (ClaimAtWork Uuid String) :=
  (entryClaim s call).map fun x => ⟨x.1.id, x.2, x.1.attempts⟩

def heldEntry (job : IngestionEntry) (claimId : String) (e : IngestionEntry) : Bool :=
  isEntry job e && e.claimedBy = some claimId

/-- The last word of a call. Out of time it takes the entry from its holder,
unless the call was turned away. -/
def entryReported (s : ConnectorState) (call : Nat) (e : ClaimEnding) : ClaimNote Uuid String :=
  match entryClaim s call with
  | some (job, claimId) =>
    let found := s.entries.any (heldEntry job claimId)
    if found = false ∧ e ≠ .turnedAway then .lapsed (entryColumns.claimsWhere (isEntry job) s.entries)
    else ClaimColumns.reportNote found claimId e
  | none => .nothing

section
variable (P : Platform)

/-- What a step means for the claims on the entries. -/
def entryNote (s : ConnectorState) : ConnectorAction → ClaimNote Uuid String
  | .accept orgId connector entityType accepted =>
    if dedupeTaken s.entries (newEntry P orgId connector entityType accepted s.nextEntry) then .nothing
    else .fresh accepted.id
  | .claimEntry _ orgId _ entryId claimId dbNow _ =>
    match s.entries.find? (entryClaimable orgId entryId dbNow) with
    | some e => .claimed e.id claimId e.claimedBy
    | none => .drawn claimId
  | .complete call _ => entryReported s call .done
  | .failEntry call error _ => entryReported s call error.ending
  | .reinjectEntry orgId connector entryId _ _ _ =>
    if s.entries.any fun e => e.id = entryId && e.orgId = orgId && e.connectorId = connector.id && e.status = .dead
    then .fresh entryId else .nothing
  | .recoverEntries dbNow =>
    .lapsed (entryColumns.claimsWhere (fun e => e.status = .processing && entryExpired e dbNow) s.entries)
  | .order _ | .process .. => .nothing

abbrev BookedConnectors := ConnectorState × ClaimBook Uuid String

/-- The queues of the connectors, with the book of the claims on the entries. -/
def bookedConnectors : System BookedConnectors ConnectorAction := ClaimBook.keep (connectorSystem P) (entryNote P)

end

def entryLedger (s : BookedConnectors) : AttemptLedger Uuid String Nat :=
  entryColumns.ledger s.1.entries (entryAtWork s.1) s.2

/-- A call that reports has its claim still. After it has lost the claim it may be
turned away if the entry was re-injected since, and it may fail if the entry was
neither re-injected nor completed. -/
def ReportsEntryInTime (s : BookedConnectors) (call : Nat) (e : ClaimEnding) : Prop :=
  ∀ job claimId, entryClaim s.1 call = some (job, claimId) → s.1.entries.any (heldEntry job claimId) = true ∨
    e = .turnedAway ∧ claimId ∉ s.2.claims job.id ∨
    e = .failed ∧ claimId ∈ s.2.claims job.id ∧ ∀ row ∈ s.1.entries, row.id = job.id → row.status ≠ .completed

def EntryStepInTime (s : BookedConnectors) : ConnectorAction → Prop
  | .complete call _ => ReportsEntryInTime s call .done
  | .failEntry call error _ => ReportsEntryInTime s call error.ending
  | _ => True

structure EntryRetriesKept (s t : BookedConnectors) : Prop where
  counted : (entryLedger t).Counted
  exhausted : ∀ e ∈ s.1.entries, e.status ≠ .dead → ∀ e' ∈ t.1.entries, e'.id = e.id → e'.status = .dead →
    maxWorkOrderAttempts ≤ (t.2.wasted e.id).length

/-! ## What a step does to the ledger -/

variable {P : Platform}

structure EntryInv (s : ConnectorState) : Prop where
  ids : (s.entries.map (·.id)).Nodup
  unclaimed : ∀ e ∈ s.entries, e.status ≠ .processing → e.claimedBy = none
  claimed : ∀ call job claimId, entryClaim s call = some (job, claimId) →
    ∃ e ∈ s.entries, e.id = job.id ∧ e.orgId = job.orgId

theorem entryInv_idle (t : IngestState) : EntryInv (idleConnectors t) where
  ids := List.nodup_nil
  unclaimed _ h := nomatch h
  claimed _ _ _ h := nomatch h

theorem entryClaim_advance (s : ConnectorState) (call : Nat) (stage : IngestionStage) (c : Nat) :
    entryClaim (s.advance call stage) c =
      if c = call then (stage.job?).map (fun x => (x.2.2.1, x.2.2.2)) else entryClaim s c := by
  simp only [entryClaim, ConnectorState.advance]
  by_cases hc : c = call
  · subst hc
    simp
  · simp [setAt_other _ _ hc, hc]

/-- What the last word of a call finds. Only that of load shedding names the
claim. -/
def finds (e : ClaimEnding) (job : IngestionEntry) (claimId : String) : IngestionEntry → Bool :=
  if e = .turnedAway then heldEntry job claimId else isEntry job

inductive EntryMove (s : ConnectorState) : ConnectorAction → ConnectorState → Prop where
  | quiet {a : ConnectorAction} {t : ConnectorState} (hentries : t.entries = s.entries)
      (hcalls : ∀ c, entryClaim t c = entryClaim s c) (hnote : entryNote P s a = .nothing) : EntryMove s a t
  | accept {a : ConnectorAction} {t : ConnectorState} (entry : IngestionEntry)
      (hentries : t.entries = s.entries ++ [entry]) (hnew : ∀ e ∈ s.entries, e.id ≠ entry.id)
      (hrow : entry.attempts = 0 ∧ entry.claimedBy = none ∧ entry.status = .pending)
      (hcalls : ∀ c, entryClaim t c = entryClaim s c) (hnote : entryNote P s a = .fresh entry.id) : EntryMove s a t
  | claim {a : ConnectorAction} {t : ConnectorState} (call : Nat) (orgId entryId : Uuid) (claimId : String)
      (dbNow expires : Millis) (hfree : entryClaim s call = none)
      (hentries : t.entries = Table.update (entryClaimable orgId entryId dbNow) (claimEntry claimId expires) s.entries)
      (hcall : entryClaim t call = (s.entries.find? (entryClaimable orgId entryId dbNow)).map fun e =>
        (claimEntry claimId expires e, claimId))
      (hcalls : ∀ c, c ≠ call → entryClaim t c = entryClaim s c)
      (hnote : entryNote P s a = match s.entries.find? (entryClaimable orgId entryId dbNow) with
        | some e => .claimed e.id claimId e.claimedBy
        | none => .drawn claimId) : EntryMove s a t
  | report {a : ConnectorAction} {t : ConnectorState} (call : Nat) (job : IngestionEntry) (claimId : String)
      (e : ClaimEnding) (f : IngestionEntry → IngestionEntry) (he : e ≠ .lapsed)
      (hclaim : entryClaim s call = some (job, claimId))
      (hentries : t.entries = Table.update (finds e job claimId) f s.entries)
      (hrow : ∀ r, (f r).id = r.id ∧ (f r).orgId = r.orgId ∧ (f r).claimedBy = none ∧
        (f r).attempts = if e = .turnedAway then r.attempts - 1 else r.attempts)
      (hopen : ∀ r, (f r).status = .completed ↔ e = .done)
      (hdead : ∀ r, (f r).status = .dead → e = .failed ∧ maxWorkOrderAttempts ≤ job.attempts)
      (hcalls : ∀ c, entryClaim t c = if c = call then none else entryClaim s c)
      (hnote : entryNote P s a = entryReported s call e)
      (htime : ∀ B, EntryStepInTime (s, B) a ↔ ReportsEntryInTime (s, B) call e) : EntryMove s a t
  | reinject {a : ConnectorAction} {t : ConnectorState} (entryId : Uuid) (p : IngestionEntry → Bool)
      (f : IngestionEntry → IngestionEntry) (hentries : t.entries = Table.update p f s.entries)
      (hp : ∀ r, p r = true → r.id = entryId ∧ r.status = .dead)
      (hrow : ∀ r, (f r).id = r.id ∧ (f r).orgId = r.orgId ∧ (f r).claimedBy = r.claimedBy ∧ (f r).attempts = 0 ∧
        (f r).status = .pending)
      (hcalls : ∀ c, entryClaim t c = entryClaim s c)
      (hnote : entryNote P s a = if s.entries.any p then .fresh entryId else .nothing) : EntryMove s a t
  | recover {a : ConnectorAction} {t : ConnectorState} (dbNow : Millis)
      (hentries : t.entries = Table.update (fun e => e.status = .processing && entryExpired e dbNow)
        (fun e => { e.release .retry with nextAttemptAt := some dbNow }) s.entries)
      (hcalls : ∀ c, entryClaim t c = entryClaim s c)
      (hnote : entryNote P s a = .lapsed (entryColumns.claimsWhere
        (fun e => e.status = .processing && entryExpired e dbNow) s.entries)) : EntryMove s a t

variable {a : ConnectorAction} {s t : ConnectorState} {claimId : String} {job : IngestionEntry} {call : Nat}

theorem connectorStep_move (hstep : connectorStep P s a = some t) : EntryMove (P := P) s a t := by
  cases a with
  | order action =>
    obtain ⟨queue, -, rfl⟩ := Option.map_eq_some_iff.mp hstep
    exact .quiet rfl (fun _ => rfl) rfl
  | accept orgId connector entityType accepted =>
    simp only [connectorStep, acceptStep] at hstep
    split at hstep
    · cases hstep
    rename_i hnew
    cases hstep
    by_cases hdup : dedupeTaken s.entries (newEntry P orgId connector entityType accepted s.nextEntry) = true
    · refine .quiet ?_ (fun _ => rfl) ?_
      · exact if_pos hdup
      · exact if_pos hdup
    · refine .accept (newEntry P orgId connector entityType accepted s.nextEntry) ?_ ?_ ⟨rfl, rfl, rfl⟩ (fun _ => rfl) ?_
      · exact if_neg hdup
      · intro e he heq
        exact hnew (List.any_eq_true.mpr ⟨e, he, decide_eq_true heq⟩)
      · exact if_neg hdup
  | claimEntry call orgId connector entryId claimId dbNow workerNow =>
    simp only [connectorStep, claimEntryStep] at hstep
    split at hstep
    case h_2 => cases hstep
    rename_i hfree
    cases hstep
    refine .claim call orgId entryId claimId dbNow (workerNow + workOrderClaimMs) ?_ rfl ?_ ?_ rfl
    · rw [entryClaim, hfree]
      rfl
    · rw [entryClaim_advance, if_pos rfl]
      cases s.entries.find? (entryClaimable orgId entryId dbNow) <;> rfl
    · intro c hc
      rw [entryClaim_advance, if_neg hc]
      rfl
  | process call ids =>
    simp only [connectorStep, processStep] at hstep
    split at hstep
    case h_2 => cases hstep
    rename_i org conn job claimId hcall
    split at hstep <;> cases hstep
    refine .quiet rfl ?_ rfl
    intro c
    rw [entryClaim_advance]
    split
    · rename_i hc
      rw [hc, entryClaim, hcall]
      rfl
    · rfl
  | complete call times =>
    simp only [connectorStep, completeStep] at hstep
    split at hstep
    case h_2 => cases hstep
    rename_i org conn job claimId hcall
    cases hstep
    have hclaim : entryClaim s call = some (job, claimId) := by
      rw [entryClaim, hcall]
      rfl
    refine .report call job claimId .done (completeEntry job _ times) nofun hclaim rfl (fun _ => ⟨rfl, rfl, rfl, rfl⟩)
      (fun _ => ⟨fun _ => rfl, fun _ => rfl⟩) (fun _ hd => nomatch hd) ?_ rfl fun _ => Iff.rfl
    exact entryClaim_advance _ call .returned
  | failEntry call error times =>
    simp only [connectorStep, failEntryStep] at hstep
    split at hstep
    case h_2 => cases hstep
    rename_i org conn job claimId hcall
    have hclaim : entryClaim s call = some (job, claimId) := by
      rw [entryClaim, hcall]
      rfl
    have hfailed : (∃ u : ConnectorState, t = u.advance call .returned ∧ u.ingesting = s.ingesting ∧
        u.entries = Table.update (isEntry job) (failEntry job error.message times) s.entries) →
        error.ending = .failed → EntryMove (P := P) s (.failEntry call error times) t := by
      rintro ⟨u, rfl, hingesting, hentries⟩ hending
      refine .report call job claimId .failed (failEntry job error.message times) nofun hclaim hentries
        (fun _ => ⟨rfl, rfl, rfl, rfl⟩) ?_ ?_ ?_ ?_ ?_
      · intro r
        simp only [failEntry, IngestionEntry.release]
        split <;> exact ⟨nofun, nofun⟩
      · intro r hdead
        refine ⟨rfl, ?_⟩
        simp only [failEntry, IngestionEntry.release] at hdead
        split at hdead
        · rename_i hfinal
          simpa [entryFinal] using hfinal
        · cases hdead
      · intro c
        rw [entryClaim_advance, entryClaim, hingesting]
        rfl
      · rw [entryNote, hending]
      · intro B
        rw [EntryStepInTime, hending]
    cases error with
    | loadShed message until_ =>
      cases hstep
      refine .report call job claimId .turnedAway (deferEntry message until_) nofun hclaim rfl
        (fun _ => ⟨rfl, rfl, rfl, rfl⟩) (fun _ => ⟨nofun, nofun⟩) (fun _ hd => nomatch hd) ?_ rfl fun _ => Iff.rfl
      exact entryClaim_advance _ call .returned
    | remote | credential | other =>
      refine hfailed ⟨_, (Option.some.inj hstep).symm, ?_, ?_⟩ rfl
      · split <;> rfl
      · split <;> rfl
  | reinjectEntry orgId connector entryId twinId payload history =>
    simp only [connectorStep, Option.some.injEq] at hstep
    subst hstep
    refine .reinject entryId (fun e => e.id = entryId && e.orgId = orgId && e.connectorId = connector.id
      && e.status = .dead) (reinjectEntry P connector payload history) ?_ ?_ (fun _ => ⟨rfl, rfl, rfl, rfl, rfl⟩) ?_ rfl
    · unfold reinjectEntryStep
      cases twinId <;> rfl
    · intro e he
      simp only [Bool.and_eq_true, decide_eq_true_eq] at he
      exact ⟨he.1.1.1, he.2⟩
    · intro c
      unfold reinjectEntryStep
      cases twinId <;> rfl
  | recoverEntries dbNow =>
    cases hstep
    exact .recover dbNow rfl (fun _ => rfl) rfl

/-! ## The entries of the calls at work -/

theorem EntryInv.update (h : EntryInv s) {p : IngestionEntry → Bool}
    {f : IngestionEntry → IngestionEntry} (hentries : t.entries = Table.update p f s.entries)
    (hkeeps : ∀ r, (f r).id = r.id ∧ (f r).orgId = r.orgId)
    (hfree : ∀ r ∈ s.entries, p r = true → (f r).status ≠ .processing → (f r).claimedBy = none)
    (hcalls : ∀ c job claimId, entryClaim t c = some (job, claimId) → entryClaim s c = some (job, claimId) ∨
      ∃ e ∈ s.entries, e.id = job.id ∧ e.orgId = job.orgId) : EntryInv t where
  ids := by
    rw [hentries, Table.update_column _ fun r => (hkeeps r).1]
    exact h.ids
  unclaimed r hr hne := by
    rw [hentries] at hr
    rcases Table.mem_update.mp hr with ⟨q, hq, hp, rfl⟩ | ⟨hq, -⟩
    · exact hfree q hq hp hne
    · exact h.unclaimed r hq hne
  claimed c job claimId hc := by
    obtain ⟨e, he, hid, horg⟩ : ∃ e ∈ s.entries, e.id = job.id ∧ e.orgId = job.orgId :=
      (hcalls c job claimId hc).elim (h.claimed c job claimId) fun hrow => hrow
    rw [hentries]
    refine ⟨if p e then f e else e, List.mem_map_of_mem he, ?_⟩
    split
    · exact ⟨(hkeeps e).1.trans hid, (hkeeps e).2.trans horg⟩
    · exact ⟨hid, horg⟩

theorem EntryInv.move (h : EntryInv s) (hmove : EntryMove (P := P) s a t) : EntryInv t := by
  cases hmove with
  | quiet hentries hcalls hnote =>
    refine h.update (hentries.trans (Table.update_self (fun _ => false) _).symm) (fun _ => ⟨rfl, rfl⟩)
      (fun _ _ hp => nomatch hp) fun c job claimId hc => .inl ?_
    rw [← hcalls, hc]
  | accept entry hentries hnew hrow hcalls hnote =>
    refine ⟨?_, ?_, ?_⟩
    · rw [hentries]
      exact Table.nodup_insert h.ids hnew
    · intro e he hne
      rw [hentries] at he
      rcases List.mem_append.mp he with he | he
      · exact h.unclaimed e he hne
      · rw [List.mem_singleton.mp he]
        exact hrow.2.1
    · intro c job claimId hc
      obtain ⟨e, he, hkey⟩ := h.claimed c job claimId (hcalls c ▸ hc)
      rw [hentries]
      exact ⟨e, List.mem_append_left _ he, hkey⟩
  | claim call orgId entryId claimId dbNow expires hfree hentries hcall hcalls hnote =>
    refine h.update hentries (fun _ => ⟨rfl, rfl⟩) (fun _ _ _ hne => absurd rfl hne) fun c job claimId' hc => ?_
    by_cases hcc : c = call
    · rw [hcc, hcall] at hc
      obtain ⟨e, hfind, heq⟩ := Option.map_eq_some_iff.mp hc
      obtain ⟨rfl, -⟩ := Prod.mk.injEq .. ▸ heq
      exact .inr ⟨e, List.mem_of_find?_eq_some hfind, rfl, rfl⟩
    · exact .inl (hcalls c hcc ▸ hc)
  | report call job claimId e f he hclaim hentries hrow hopen hdead hcalls hnote htime =>
    refine h.update hentries (fun r => ⟨(hrow r).1, (hrow r).2.1⟩) (fun r _ _ _ => (hrow r).2.2.1)
      fun c job' claimId' hc => .inl ?_
    rw [hcalls] at hc
    split at hc
    · cases hc
    · exact hc
  | reinject entryId p f hentries hp hrow hcalls hnote =>
    refine h.update hentries (fun r => ⟨(hrow r).1, (hrow r).2.1⟩) ?_ fun c job claimId hc => .inl (hcalls c ▸ hc)
    intro r hr hpr _
    rw [(hrow r).2.2.1]
    refine h.unclaimed r hr ?_
    rw [(hp r hpr).2]
    exact nofun
  | recover dbNow hentries hcalls hnote =>
    exact h.update hentries (fun _ => ⟨rfl, rfl⟩) (fun _ _ _ _ => rfl) fun c job claimId hc => .inl (hcalls c ▸ hc)

theorem EntryInv.isEntry_iff (h : EntryInv s)
    (hcall : entryClaim s call = some (job, claimId)) {e : IngestionEntry} (he : e ∈ s.entries) :
    isEntry job e = true ↔ e.id = job.id := by
  obtain ⟨v, hv, hid, horg⟩ := h.claimed call job claimId hcall
  simp only [isEntry, Bool.and_eq_true, decide_eq_true_eq]
  constructor
  · exact And.left
  · intro heid
    have hev : e = v := Table.eq_of_key h.ids he hv (heid.trans hid.symm)
    exact ⟨heid, hev ▸ horg⟩

theorem EntryInv.row_of_claim (h : EntryInv s) (hcall : entryClaim s call = some (job, claimId)) :
    ∃ e ∈ s.entries, e.id = job.id ∧ entryColumns.row s.entries job.id = some e := by
  obtain ⟨e, he, hid, -⟩ := h.claimed call job claimId hcall
  exact ⟨e, he, hid, hid ▸ ClaimColumns.row_of_mem (C := entryColumns) h.ids he⟩

theorem EntryInv.isEntry_cell (h : EntryInv s) (hcall : entryClaim s call = some (job, claimId)) (k : Uuid) :
    (entryColumns.row s.entries k).any (isEntry job) = decide (k = job.id) := by
  obtain ⟨e, he, hid, hrow⟩ := h.row_of_claim hcall
  by_cases hk : k = job.id
  · rw [hk, hrow, Option.any_some, (h.isEntry_iff hcall he).mpr hid, decide_eq_true rfl]
  · rw [decide_eq_false hk, Option.any_eq_false]
    intro r hr
    obtain ⟨hmem, hrk⟩ := ClaimColumns.row_mem hr
    refine Bool.eq_false_iff.mpr fun hentry => hk ?_
    exact hrk.symm.trans ((h.isEntry_iff hcall hmem).mp hentry)

/-! ## The ledger of the entries -/

theorem EntryInv.lost_iff (h : EntryInv s)
    (hcall : entryClaim s call = some (job, claimId)) (B : ClaimBook Uuid String) (c : String) :
    c ∈ entryColumns.claimsWhere (isEntry job) s.entries ↔ (entryLedger (s, B)).holder job.id = some c := by
  rw [ClaimColumns.mem_claimsWhere h.ids]
  simp only [h.isEntry_cell hcall, decide_eq_true_eq, exists_eq_left]
  rfl

structure EntryGood (s : BookedConnectors) : Prop where
  inv : EntryInv s.1
  sound : (entryLedger s).Sound
  counted : (entryLedger s).Counted
  behind : (entryLedger s).Behind

theorem entryAtWork_of_claims (h : ∀ c, entryClaim t c = entryClaim s c) : entryAtWork t = entryAtWork s :=
  funext fun c => by rw [entryAtWork, entryAtWork, h]

theorem EntryGood.report {s t : BookedConnectors} (h : EntryGood s)
    {e : ClaimEnding} {f : IngestionEntry → IngestionEntry} (he : e ≠ .lapsed)
    (hclaim : entryClaim s.1 call = some (job, claimId))
    (hentries : t.1.entries = Table.update (finds e job claimId) f s.1.entries)
    (hrow : ∀ r, (f r).id = r.id ∧ (f r).orgId = r.orgId ∧ (f r).claimedBy = none ∧
      (f r).attempts = if e = .turnedAway then r.attempts - 1 else r.attempts)
    (hopen : ∀ r, (f r).status = .completed ↔ e = .done)
    (hcalls : ∀ c, entryClaim t.1 c = if c = call then none else entryClaim s.1 c)
    (hbook : t.2 = s.2.note (entryReported s.1 call e)) (htime : ReportsEntryInTime s call e) :
    (s.1.entries.any (heldEntry job claimId) = true ∨ e = .turnedAway) ∧
        AttemptLedger.Step True (entryLedger s) (entryLedger t) ∨
      e = .failed ∧ claimId ∈ s.2.claims job.id ∧ (entryLedger s).unfinished job.id = true ∧
        ∃ lost, (∀ c, c ∈ lost ↔ (entryLedger s).holder job.id = some c) ∧
          entryLedger t = (entryLedger s).overrule call job.id lost := by
  have hatWork : entryAtWork t.1 = setAt (entryAtWork s.1) call none := by
    funext c
    rw [entryAtWork, hcalls]
    by_cases hc : c = call
    · subst hc
      simp
    · rw [if_neg hc, setAt_other _ _ hc, entryAtWork]
  have hwork : entryAtWork s.1 call = some ⟨job.id, claimId, job.attempts⟩ := by
    rw [entryAtWork, hclaim]
    rfl
  have hheld : ∀ r ∈ s.1.entries, heldEntry job claimId r = true ↔ r.id = job.id ∧ r.claimedBy = some claimId := by
    intro r hr
    rw [heldEntry, Bool.and_eq_true, h.inv.isEntry_iff hclaim hr, decide_eq_true_eq]
  have hunfinished : ∀ r, entryColumns.unfinished (f r) = decide (e ≠ .done) := by
    intro r
    show decide ((f r).status ≠ .completed) = _
    rw [decide_eq_decide, not_iff_not]
    exact hopen r
  rw [entryReported, hclaim] at hbook
  simp only at hbook
  have hsettles : (∀ r ∈ s.1.entries, finds e job claimId r = true ↔ r.id = job.id ∧ r.claimedBy = some claimId) →
      (e = .turnedAway → claimId ∈ s.2.claims job.id → s.1.entries.any (finds e job claimId) = true) →
      t.2 = s.2.note (ClaimColumns.reportNote (s.1.entries.any (finds e job claimId)) claimId e) →
      AttemptLedger.Step True (entryLedger s) (entryLedger t) := by
    intro hp hshed hnote
    rw [entryLedger, entryLedger, hatWork, hentries, hnote]
    exact ClaimColumns.step_report h.inv.ids hwork hp he (fun r => (hrow r).1) (fun r => (hrow r).2.2.2)
      (fun r => (hrow r).2.2.1) hunfinished ⟨fun _ => hshed, fun _ => trivial⟩
  cases hfound : s.1.entries.any (heldEntry job claimId) with
  | true =>
    obtain ⟨v, hv, hvheld⟩ := List.any_eq_true.mp hfound
    obtain ⟨hvid, hvclaim⟩ := (hheld v hv).mp hvheld
    have hp : ∀ r ∈ s.1.entries, finds e job claimId r = true ↔ r.id = job.id ∧ r.claimedBy = some claimId := by
      intro r hr
      rw [finds]
      split
      · exact hheld r hr
      · rw [h.inv.isEntry_iff hclaim hr]
        constructor
        · intro hid
          have hrv : r = v := Table.eq_of_key h.inv.ids hr hv (hid.trans hvid.symm)
          exact ⟨hid, hrv ▸ hvclaim⟩
        · exact And.left
    have hany : s.1.entries.any (finds e job claimId) = true :=
      List.any_eq_true.mpr ⟨v, hv, (hp v hv).mpr ⟨hvid, hvclaim⟩⟩
    refine .inl ⟨.inl rfl, hsettles hp (fun _ _ => hany) ?_⟩
    rw [hbook, hfound, hany]
    rfl
  | false =>
    rcases htime job claimId hclaim with hin | ⟨rfl, hgone⟩ | ⟨rfl, hmem, halive⟩
    · rw [hfound] at hin
      cases hin
    · refine .inl ⟨.inr rfl, hsettles hheld (fun _ hmem => absurd hmem hgone) ?_⟩
      rw [hbook, hfound]
      show _ = s.2.note (ClaimColumns.reportNote (s.1.entries.any (heldEntry job claimId)) claimId .turnedAway)
      rw [hfound]
      rfl
    · obtain ⟨v, hv, hvid, hk⟩ := h.inv.row_of_claim hclaim
      have hlapse : entryColumns.ledger (Table.update (isEntry job) f s.1.entries) (entryAtWork s.1)
          (s.2.note (.lapsed (entryColumns.claimsWhere (isEntry job) s.1.entries))) =
          (entryLedger s).lapse (fun k => (entryColumns.row s.1.entries k).any (isEntry job))
            (entryColumns.claimsWhere (isEntry job) s.1.entries) := by
        refine ClaimColumns.ledger_lapse (fun r => (hrow r).1) (fun r => (hrow r).2.2.2) (fun r => (hrow r).2.2.1) ?_
        intro r hr hentry
        rw [hunfinished]
        exact (decide_eq_true (halive r hr ((h.inv.isEntry_iff hclaim hr).mp hentry))).symm
      refine .inr ⟨rfl, hmem, ?_, entryColumns.claimsWhere (isEntry job) s.1.entries, ?_, ?_⟩
      · show (entryColumns.row s.1.entries job.id).any entryColumns.unfinished = true
        rw [hk, Option.any_some]
        exact decide_eq_true (halive v hv hvid)
      · exact h.inv.lost_iff hclaim s.2
      · rw [AttemptLedger.overrule, ← funext (h.inv.isEntry_cell hclaim), ← hlapse, entryLedger, hatWork, hentries, hbook, hfound]
        rfl

theorem EntryGood.of_step {s t : BookedConnectors} (h : EntryGood s) (hinv : EntryInv t.1)
    (hstep : AttemptLedger.Step True (entryLedger s) (entryLedger t)) : EntryGood t where
  inv := hinv
  sound := h.sound.step hstep
  counted := (AttemptLedger.counted_step_iff h.counted h.sound hstep).mpr trivial
  behind := h.behind.step h.sound hstep

theorem entry_dies (h : EntryInv s) (hmove : EntryMove (P := P) s a t)
    {e e' : IngestionEntry} (he : e ∈ s.entries) (halive : e.status ≠ .dead) (he' : e' ∈ t.entries) (hid : e'.id = e.id)
    (hdead : e'.status = .dead) :
    ∃ call job claimId, entryClaim s call = some (job, claimId) ∧ e.id = job.id ∧
      maxWorkOrderAttempts ≤ job.attempts ∧ entryNote P s a = entryReported s call .failed ∧
      ∀ B, EntryStepInTime (s, B) a → ReportsEntryInTime (s, B) call .failed := by
  have hfound : ∀ {p : IngestionEntry → Bool} {f : IngestionEntry → IngestionEntry},
      t.entries = Table.update p f s.entries → (∀ r, (f r).id = r.id) → p e = true ∧ (f e).status = .dead := by
    intro p f hentries hkey
    rw [hentries] at he'
    exact Table.found_of_update (q := fun r => r.status = .dead) h.ids hkey he he' hid halive hdead
  cases hmove with
  | quiet hentries hcalls hnote =>
    exact absurd (hfound (hentries.trans (Table.update_self (fun _ => false) _).symm) fun _ => rfl).1 nofun
  | accept entry hentries hnew hrow hcalls hnote =>
    have hnd : (t.entries.map (·.id)).Nodup := hentries ▸ Table.nodup_insert h.ids hnew
    have hstays : e ∈ t.entries := hentries ▸ List.mem_append_left _ he
    have hsame : e' = e := Table.eq_of_key hnd he' hstays hid
    exact absurd (hsame ▸ hdead) halive
  | claim call orgId entryId claimId dbNow expires hfree hentries hcall hcalls hnote =>
    exact nomatch (hfound hentries fun _ => rfl).2
  | report call job claimId ending f hlapsed hclaim hentries hrow hopen hlast hcalls hnote htime =>
    obtain ⟨hp, hafter⟩ := hfound hentries fun r => (hrow r).1
    obtain ⟨rfl, hattempts⟩ := hlast e hafter
    exact ⟨call, job, claimId, hclaim, (h.isEntry_iff hclaim he).mp hp, hattempts, hnote, fun B => (htime B).mp⟩
  | reinject entryId p f hentries hp hrow hcalls hnote =>
    have hafter := (hfound hentries fun r => (hrow r).1).2
    rw [(hrow e).2.2.2.2] at hafter
    cases hafter
  | recover dbNow hentries hcalls hnote => exact nomatch (hfound hentries fun _ => rfl).2

theorem EntryGood.exhausted {s t : BookedConnectors} (h : EntryGood s)
    (hmove : EntryMove (P := P) s.1 a t.1) (hbook : t.2 = s.2.note (entryNote P s.1 a)) (htime : EntryStepInTime s a) :
    ∀ e ∈ s.1.entries, e.status ≠ .dead → ∀ e' ∈ t.1.entries, e'.id = e.id → e'.status = .dead →
      maxWorkOrderAttempts ≤ (t.2.wasted e.id).length := by
  intro e he halive e' he' hid hdead
  obtain ⟨call, job, claimId, hcall, hrow, hlast, hnote, hreports⟩ := entry_dies h.inv hmove he halive he' hid hdead
  have hwork : (entryLedger s).calls call = some ⟨job.id, claimId, job.attempts⟩ := by
    show entryAtWork s.1 call = _
    rw [entryAtWork, hcall]
    rfl
  have hk : entryColumns.row s.1.entries job.id = some e :=
    hrow ▸ ClaimColumns.row_of_mem (C := entryColumns) h.inv.ids he
  refine Nat.le_trans hlast ?_
  rw [hbook, hnote, entryReported, hcall, hrow]
  simp only
  cases hfound : s.1.entries.any (heldEntry job claimId) with
  | true =>
    obtain ⟨v, hv, hheld⟩ := List.any_eq_true.mp hfound
    simp only [heldEntry, Bool.and_eq_true, h.inv.isEntry_iff hcall hv, decide_eq_true_eq] at hheld
    have hve : v = e := Table.eq_of_key h.inv.ids hv he (hheld.1.trans hrow.symm)
    have hholder : (entryLedger s).holder job.id = some claimId := by
      show (entryColumns.row s.1.entries job.id).bind entryColumns.holder = _
      rw [hk, Option.bind_some, ← hheld.2, hve]
      rfl
    exact (h.sound.wasted_failed h.counted hwork hholder).ge
  | false =>
    rw [if_pos ⟨rfl, nofun⟩]
    rcases hreports s.2 htime job claimId hcall with hin | ⟨hshed, -⟩ | ⟨-, hmem, hopen⟩
    · exact absurd (hfound.symm.trans hin) nofun
    · cases hshed
    · have hunfinished : (entryLedger s).unfinished job.id = true := by
        show (entryColumns.row s.1.entries job.id).any entryColumns.unfinished = true
        rw [hk, Option.any_some]
        exact decide_eq_true (hopen e he hrow)
      exact h.behind.wasted_overruled h.sound h.counted (h.inv.lost_iff hcall s.2) hwork hmem hunfinished

theorem EntryGood.move {s t : BookedConnectors} (h : EntryGood s)
    (hnew : ∀ c, (entryNote P s.1 a).draws = some c → c ∉ s.2.drawn) (hmove : EntryMove (P := P) s.1 a t.1)
    (hbook : t.2 = s.2.note (entryNote P s.1 a)) (htime : EntryStepInTime s a) : EntryGood t := by
  have hinv : EntryInv t.1 := h.inv.move hmove
  have hsame : (∀ c, entryClaim t.1 c = entryClaim s.1 c) →
      entryLedger t = entryColumns.ledger t.1.entries (entryAtWork s.1) (s.2.note (entryNote P s.1 a)) := by
    intro hcalls
    rw [entryLedger, entryAtWork_of_claims hcalls, hbook]
  cases hmove with
  | quiet hentries hcalls hnote =>
    refine h.of_step hinv (.move trivial ?_)
    rw [hsame hcalls, hentries, hnote]
    exact .stay
  | accept entry hentries hnew hrow hcalls hnote =>
    refine h.of_step hinv (.move trivial ?_)
    rw [hsame hcalls, hentries, hnote]
    refine ClaimColumns.move_append (C := entryColumns) hnew hrow.1 hrow.2.1 ?_
    simp [entryColumns, hrow.2.2]
  | claim call orgId entryId claimId dbNow expires hfree hentries hcall hcalls hnote =>
    refine h.of_step hinv (.move trivial ?_)
    have hidle : entryAtWork s.1 call = none := by rw [entryAtWork, hfree, Option.map_none]
    have hatWork : entryAtWork t.1 = setAt (entryAtWork s.1) call
        ((s.1.entries.find? (entryClaimable orgId entryId dbNow)).map fun e => ⟨e.id, claimId, e.attempts + 1⟩) := by
      funext c
      by_cases hc : c = call
      · rw [hc, setAt_same, entryAtWork, hcall, Option.map_map]
        rfl
      · rw [setAt_other _ _ hc, entryAtWork, entryAtWork, hcalls c hc]
    have honly : ∀ e, entryClaimable orgId entryId dbNow e = true → e.id = entryId := by
      intro e he
      simp only [entryClaimable, Bool.and_eq_true, decide_eq_true_eq] at he
      exact he.1.1
    have hledger : entryLedger t = entryColumns.ledger (Table.update (entryClaimable orgId entryId dbNow)
        (claimEntry claimId expires) s.1.entries) (entryAtWork t.1) (s.2.note (entryNote P s.1 a)) := by
      rw [entryLedger, hentries, hbook]
    rw [hledger, hatWork]
    rw [hnote] at hnew ⊢
    cases hfind : s.1.entries.find? (entryClaimable orgId entryId dbNow) with
    | none =>
      simp only [Option.map_none]
      rw [← hidle, setAt_self]
      exact ClaimColumns.move_drawn hfind
    | some e =>
      rw [hfind] at hnew
      have he : entryClaimable orgId entryId dbNow e = true := List.find?_some hfind
      have hopen : entryColumns.unfinished e = true := by
        simp only [entryClaimable, Bool.and_eq_true, Bool.or_eq_true, decide_eq_true_eq] at he
        rcases he.2 with (hs | hs) | ⟨hs, -⟩ <;> simp [entryColumns, hs]
      exact ClaimColumns.move_claim h.inv.ids (fun _ => rfl) hfind
        (fun q _ hq => (honly q hq).trans (honly e he).symm) hidle (hnew claimId rfl) hopen rfl rfl rfl
  | report call job claimId e f he hclaim hentries hrow hopen hdead hcalls hnote hreports =>
    rcases h.report he hclaim hentries hrow hopen hcalls (hnote ▸ hbook) ((hreports s.2).mp htime) with
      ⟨-, hstep⟩ | ⟨-, -, -, lost, hlost, hover⟩
    · exact h.of_step hinv hstep
    · refine ⟨hinv, ?_, ?_, ?_⟩ <;> rw [hover]
      · exact h.sound.overrule hlost
      · exact h.counted.overrule h.sound hlost
      · exact h.behind.overrule
  | reinject entryId p f hentries hp hrow hcalls hnote =>
    refine h.of_step hinv (.move trivial ?_)
    rw [hsame hcalls, hentries, hnote]
    refine ClaimColumns.move_reset h.inv.ids (fun r => (hrow r).1) ?_ (fun r => (hrow r).2.2.2.1) ?_ ?_
    · intro r hr hpr
      refine ⟨(hp r hpr).1, h.inv.unclaimed r hr ?_⟩
      rw [(hp r hpr).2]
      rintro ⟨⟩
    · intro r hpr hr
      refine ((hrow r).2.2.1).trans (h.inv.unclaimed r hr ?_)
      rw [(hp r hpr).2]
      rintro ⟨⟩
    · intro r
      simp [entryColumns, (hrow r).2.2.2.2]
  | recover dbNow hentries hcalls hnote =>
    refine h.of_step hinv (.move trivial ?_)
    rw [hsame hcalls, hentries, hnote]
    refine ClaimColumns.move_lapse h.inv.ids (fun _ => rfl) (fun _ => rfl) (fun _ => rfl) ?_
    intro e _ hp
    simp only [Bool.and_eq_true, decide_eq_true_eq] at hp
    simp [entryColumns, IngestionEntry.release, hp.1]

def newConnectors (tables : IngestState) : BookedConnectors := (idleConnectors tables, ClaimBook.empty)

theorem entryGood_new (tables : IngestState) : EntryGood (newConnectors tables) where
  inv := entryInv_idle tables
  sound := ClaimColumns.sound_empty
  counted := ClaimColumns.counted_empty
  behind _ _ h := nomatch h

theorem entry_retries_kept (tables : IngestState) (as : List ConnectorAction)
    (htime : (bookedConnectors P).Along EntryStepInTime (newConnectors tables) as) :
    (bookedConnectors P).Along (fun s a => ∀ t, (bookedConnectors P).step s a = some t → EntryRetriesKept s t)
      (newConnectors tables) as := by
  have hstep : ∀ {s a t}, EntryGood s → EntryStepInTime s a → (bookedConnectors P).step s a = some t →
      EntryGood t ∧ EntryRetriesKept s t := by
    intro s a t h htime hst
    obtain ⟨hnew, hq, hbook⟩ := ClaimBook.keep_step hst
    have hmove : EntryMove (P := P) s.1 a t.1 := connectorStep_move hq
    have ht : EntryGood t := h.move hnew hmove hbook htime
    exact ⟨ht, ht.counted, h.exhausted hmove hbook htime⟩
  refine (bookedConnectors P).along_mono (P := EntryGood) (fun h htime hst => (hstep h htime hst).1) ?_
    (entryGood_new tables) htime
  intro s a h htime t hst
  exact (hstep h htime hst).2

end Cadena.Connectors
