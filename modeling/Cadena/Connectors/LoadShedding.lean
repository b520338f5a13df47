import Cadena.Connectors.RateGovernor

/-!
# The load-shedding protocol

While an episode is open the stored probe owner is the one call that may
end it. A report of renewed pressure clears the owner when it moves
`shed_until`, so a stored owner was always admitted after the latest
`shed_until`, whatever the order of the reports and whatever the clocks
of the workers say.
-/

namespace Cadena.Connectors

open Cadena.Base

/-- An episode is open. -/
def GovernanceRow.Open (row : GovernanceRow) : Prop := row.sheddingSince.isSome = true

instance (row : GovernanceRow) : Decidable row.Open := inferInstanceAs (Decidable (_ = _))

/-- The row has an `until` while an episode is open. -/
def GovernanceRow.Timed (row : GovernanceRow) : Prop :=
  row.Open → ∃ u, row.shedUntil = some u

/-! ## What a transaction does to the episode -/

/-- The transaction gives nobody the probe lease: it leaves the lease with
its owner and the window alone, or takes the lease away. -/
structure GrantsNothing (row row' : GovernanceRow) : Prop where
  timed : row.Timed → row'.Timed
  owner : row'.probeOwner = none ∨
    (row'.probeOwner = row.probeOwner ∧ row'.shedUntil = row.shedUntil)

variable {row : GovernanceRow} {nowMs : Millis} {s t : GovernorState} {call : Nat}
  {policy : RateGovernancePolicy}

theorem GrantsNothing.of_same {row' : GovernanceRow}
    (hsince : row'.sheddingSince = row.sheddingSince) (huntil : row'.shedUntil = row.shedUntil)
    (howner : row'.probeOwner = row.probeOwner) : GrantsNothing row row' where
  timed h hopen := by
    rw [GovernanceRow.Open, hsince] at hopen
    rw [huntil]
    exact h hopen
  owner := .inr ⟨howner, huntil⟩

theorem countSuccess_grants (nowMs : Millis) (row : GovernanceRow) :
    GrantsNothing row (countSuccess nowMs row) := .of_same rfl rfl rfl

theorem countSuccess_since (nowMs : Millis) (row : GovernanceRow) :
    (countSuccess nowMs row).sheddingSince = row.sheddingSince := rfl

theorem registerPolicy_grants (policy : RateGovernancePolicy) (nowMs : Millis)
    (row : GovernanceRow) : GrantsNothing row (registerPolicy policy nowMs (some row)) :=
  .of_same rfl rfl rfl

theorem releaseProbe_grants (probe : Option Uuid) (row : GovernanceRow) :
    GrantsNothing row (releaseProbe probe row) := by
  unfold releaseProbe
  split
  · split
    · exact ⟨id, .inl rfl⟩
    · exact .of_same rfl rfl rfl
  · exact .of_same rfl rfl rfl

@[simp] theorem releaseProbe_since (probe : Option Uuid) (row : GovernanceRow) :
    (releaseProbe probe row).sheddingSince = row.sheddingSince := by
  unfold releaseProbe
  split
  · split <;> rfl
  · rfl

theorem GrantsNothing.trans {a b c : GovernanceRow} (hab : GrantsNothing a b)
    (hbc : GrantsNothing b c) : GrantsNothing a c where
  timed h := hbc.timed (hab.timed h)
  owner := by
    rcases hbc.owner with h | ⟨howner, huntil⟩
    · exact .inl h
    · rcases hab.owner with h | ⟨howner', huntil'⟩
      · exact .inl (howner.trans h)
      · exact .inr ⟨howner.trans howner', huntil.trans huntil'⟩

theorem recordFailure_spec (policy : RateGovernancePolicy) (error : Option RemoteFailure)
    (probe : Option Uuid) (nowMs : Millis) (random : ℚ) (row : GovernanceRow) :
    GrantsNothing row (recordFailure policy error probe nowMs random row).1 ∧
      (row.Open → (recordFailure policy error probe nowMs random row).1.Open) := by
  unfold recordFailure
  simp only
  split
  · refine ⟨GrantsNothing.trans ?_ (releaseProbe_grants probe _), fun hopen => ?_⟩
    · exact .of_same rfl rfl rfl
    · rw [GovernanceRow.Open, releaseProbe_since]
      exact hopen
  · exact ⟨⟨fun _ _ => ⟨_, rfl⟩, .inl rfl⟩, fun _ => rfl⟩

theorem closeEpisode_grants (probe : Uuid) (nowMs : Millis) (row : GovernanceRow) :
    GrantsNothing row (closeEpisode probe nowMs row).1 := by
  unfold closeEpisode
  split
  · split
    · exact ⟨fun _ hopen => (nomatch hopen), .inl rfl⟩
    · exact .of_same rfl rfl rfl
  · exact .of_same rfl rfl rfl

theorem closeEpisode_closes {probe : Uuid} (hopen : row.Open) (hclosed : ¬ (closeEpisode probe nowMs row).1.Open) :
    row.probeOwner = some probe := by
  unfold closeEpisode at hclosed
  split at hclosed
  · split at hclosed
    · rename_i howner
      exact howner
    · exact absurd hopen hclosed
  · exact absurd hopen hclosed

theorem not_shedding {u : Millis} (hstate : sheddingState row nowMs ≠ .shedding) (hopen : row.Open)
    (huntil : row.shedUntil = some u) : u ≤ nowMs := by
  obtain ⟨since, hsince⟩ := Option.isSome_iff_exists.mp hopen
  rw [sheddingState, hsince, huntil] at hstate
  simp only at hstate
  split at hstate
  · exact absurd rfl hstate
  · rename_i hnot
    exact Int.not_lt.mp hnot

theorem open_of_probing (h : sheddingState row nowMs = .probing) : row.Open := by
  unfold sheddingState at h
  split at h
  · cases h
  · rename_i hsince _
    rw [GovernanceRow.Open, hsince]
    rfl
  · rename_i hsince _
    rw [GovernanceRow.Open, hsince]
    rfl

theorem acquireQuota_cases (policy : RateGovernancePolicy) (nowMs : Millis) (probe : Uuid)
    (row : GovernanceRow) :
    ((acquireQuota policy nowMs probe row).1.sheddingSince = row.sheddingSince ∧
      (acquireQuota policy nowMs probe row).1.shedUntil = row.shedUntil) ∧
    (((acquireQuota policy nowMs probe row).1.probeOwner = row.probeOwner ∧
        ∀ p, (acquireQuota policy nowMs probe row).2 ≠ .admitted (some p)) ∨
      ((acquireQuota policy nowMs probe row).2 = .admitted (some probe) ∧
        (acquireQuota policy nowMs probe row).1.probeOwner = some probe ∧
        row.Open ∧ probeHeld row nowMs = false)) ∧
    (∀ p, (acquireQuota policy nowMs probe row).2 = .admitted p →
      sheddingState row nowMs ≠ .shedding) := by
  unfold acquireQuota
  simp only
  split
  · refine ⟨⟨rfl, rfl⟩, .inl ⟨rfl, fun _ h => nomatch h⟩, fun _ h => nomatch h⟩
  · rename_i hopen
    have hstate : sheddingState row nowMs ≠ .shedding := fun h => hopen (.inl h)
    split
    · exact ⟨⟨rfl, rfl⟩, .inl ⟨rfl, fun _ h => nomatch h⟩, fun _ h => nomatch h⟩
    · split
      · rename_i hprobing
        have hfree : probeHeld row nowMs = false :=
          Bool.eq_false_iff.mpr fun h => hopen (.inr ⟨hprobing, h⟩)
        exact ⟨⟨rfl, rfl⟩, .inr ⟨rfl, rfl, open_of_probing hprobing, hfree⟩, fun _ _ => hstate⟩
      · exact ⟨⟨rfl, rfl⟩, .inl ⟨rfl, fun _ h => nomatch h⟩, fun _ _ => hstate⟩

/-! ## The invariant -/

/-- The probe token and the admission reading of a call at work. -/
def GovernorState.probe (s : GovernorState) (c : Nat) : Option (Uuid × Millis) :=
  (s.calls c).bind GovernedCall.probe?

/-- The stored owner, if it is a call at work, was admitted after the
stored window. -/
structure RowOk (s : GovernorState) (row : GovernanceRow) : Prop where
  timed : row.Timed
  after : ∀ c p admittedAt, s.probe c = some (p, admittedAt) → row.probeOwner = some p →
    ∀ u, row.shedUntil = some u → u ≤ admittedAt

structure ShedInv (s : GovernorState) : Prop where
  row : ∀ row, s.row = some row → RowOk s row
  drawn : ∀ c p admittedAt, s.probe c = some (p, admittedAt) → p ∈ s.drawn
  unique : ∀ c d p i j, s.probe c = some (p, i) → s.probe d = some (p, j) → c = d

theorem shedInv_idle : ShedInv idleGovernor where
  row _ h := nomatch h
  drawn _ _ _ h := nomatch h
  unique _ _ _ _ _ h := nomatch h

theorem ShedInv.rowOk (h : ShedInv s) (policy : RateGovernancePolicy)
    (nowMs : Millis) : RowOk s (s.row.getD (newGovernanceRow policy nowMs)) := by
  cases hrow : s.row with
  | none =>
    refine ⟨fun hopen => ?_, fun _ _ _ _ howner => ?_⟩
    · cases hopen
    · cases howner
  | some row => exact h.row row hrow

theorem ShedInv.report {row' : GovernanceRow} (h : ShedInv s)
    (hok : RowOk s row) (hgrants : GrantsNothing row row') (hrow : t.row = some row')
    (hdrawn : t.drawn = s.drawn) (hprobe : ∀ c x, t.probe c = some x → s.probe c = some x) :
    ShedInv t where
  row r hr := by
    rw [hrow] at hr
    obtain rfl := Option.some.inj hr
    refine ⟨hgrants.timed hok.timed, fun c p admittedAt hc howner u hu => ?_⟩
    rcases hgrants.owner with hnone | ⟨hsame, huntil⟩
    · rw [hnone] at howner
      cases howner
    · exact hok.after c p admittedAt (hprobe c _ hc) (hsame ▸ howner) u (huntil ▸ hu)
  drawn c p admittedAt hc := by
    rw [hdrawn]
    exact h.drawn c p admittedAt (hprobe c _ hc)
  unique c d p i j hc hd := h.unique c d p i j (hprobe c _ hc) (hprobe d _ hd)

theorem probe_advance {stage : GovernedCall} {event : Option SheddingEvent}
    (hstage : ∀ x, stage.probe? = some x → s.probe call = some x) (c : Nat)
    (x : Uuid × Millis) (hc : (s.advance row call stage event).probe c = some x) :
    s.probe c = some x := by
  by_cases hcall : c = call
  · subst hcall
    simp only [GovernorState.probe, GovernorState.advance, setAt_same, Option.bind_some] at hc
    exact hstage x hc
  · simpa only [GovernorState.probe, GovernorState.advance, setAt_other _ _ hcall] using hc

/-- The transaction of `acquireQuota`: the one that grants the lease grants
it to a token that no call has, at a reading after the window. -/
theorem ShedInv.acquire {probe : Uuid} (h : ShedInv s)
    (hstep : acquireStep s call policy nowMs probe = some t) : ShedInv t := by
  unfold acquireStep at hstep
  split at hstep
  · cases hstep
  rename_i hfresh
  split at hstep
  case h_3 => cases hstep
  all_goals
    rename_i hcall
    have hidle : s.probe call = none := by simp [GovernorState.probe, hcall, GovernedCall.probe?]
    have hok := h.rowOk policy nowMs
    generalize hbefore : s.row.getD (newGovernanceRow policy nowMs) = row at hstep hok
    obtain ⟨⟨hsince, huntil⟩, hgrant, hshed⟩ := acquireQuota_cases policy nowMs probe row
    generalize acquireQuota policy nowMs probe row = result at hstep hsince huntil hgrant hshed
    cases hstep
    rcases hgrant with ⟨howner, hnone⟩ | ⟨hadmitted, howner, hopen, -⟩
    · -- no lease is granted: the call gets no token
      have hprobe : ∀ c x, (s.advance result.1 call (admittedStage nowMs result.2) none).probe c
          = some x → s.probe c = some x := probe_advance (fun x hx => by
          cases hresult : result.2 with
          | shed => rw [hresult] at hx; cases hx
          | wait => rw [hresult] at hx; cases hx
          | admitted p =>
            cases p with
            | none => rw [hresult] at hx; cases hx
            | some p => exact absurd hresult (hnone p))
      have hinv := h.report hok (.of_same hsince huntil howner)
        (t := s.advance result.1 call (admittedStage nowMs result.2) none) rfl rfl hprobe
      exact ⟨fun r hr => ⟨(hinv.row r hr).timed, (hinv.row r hr).after⟩,
        fun c p i hc => List.mem_cons_of_mem _ (hinv.drawn c p i hc), hinv.unique⟩
    · -- the call is the probe: its token is new and its reading is after the window
      rw [hadmitted]
      have hcases : ∀ c p i, (s.advance result.1 call
          (admittedStage nowMs (.admitted (some probe))) none).probe c = some (p, i) →
          (c = call ∧ p = probe ∧ i = nowMs) ∨ (c ≠ call ∧ s.probe c = some (p, i)) := by
        intro c p i hc
        by_cases hcc : c = call
        · subst hcc
          simp only [GovernorState.probe, GovernorState.advance, setAt_same, Option.bind_some,
            admittedStage, GovernedCall.probe?, Option.some.injEq, Prod.mk.injEq] at hc
          exact .inl ⟨rfl, hc.1.symm, hc.2.symm⟩
        · refine .inr ⟨hcc, ?_⟩
          simpa only [GovernorState.probe, GovernorState.advance, setAt_other _ _ hcc] using hc
      refine ⟨?_, ?_, ?_⟩
      · intro r hr
        obtain rfl : result.1 = r := Option.some.inj hr
        refine ⟨fun hopen => ?_, fun c p i hc hp u hu => ?_⟩
        · rw [GovernanceRow.Open, hsince] at hopen
          rw [huntil]
          exact hok.timed hopen
        · obtain rfl : probe = p := Option.some.inj (howner.symm.trans hp)
          rcases hcases c probe i hc with ⟨-, -, rfl⟩ | ⟨-, hold⟩
          · exact not_shedding (hshed _ hadmitted) hopen (huntil ▸ hu)
          · exact absurd (h.drawn c probe i hold) hfresh
      · intro c p i hc
        rcases hcases c p i hc with ⟨-, rfl, -⟩ | ⟨-, hold⟩
        · exact List.mem_cons_self
        · exact List.mem_cons_of_mem _ (h.drawn c p i hold)
      · intro c d p i j hc hd
        rcases hcases c p i hc with ⟨rfl, rfl, -⟩ | ⟨-, hcold⟩
        · rcases hcases d p j hd with ⟨rfl, -, -⟩ | ⟨-, hdold⟩
          · rfl
          · exact absurd (h.drawn d p j hdold) hfresh
        · rcases hcases d p j hd with ⟨rfl, rfl, -⟩ | ⟨-, hdold⟩
          · exact absurd (h.drawn c p i hcold) hfresh
          · exact h.unique c d p i j hcold hdold

theorem ShedInv.succeed (h : ShedInv s) (hstep : succeedStep s call nowMs = some t) : ShedInv t := by
  unfold succeedStep at hstep
  split at hstep
  · rename_i row admittedAt hrow hcall
    cases hstep
    exact h.report (h.row row hrow) (countSuccess_grants nowMs row) rfl rfl
      (probe_advance fun x hx => nomatch hx)
  · rename_i row probe admittedAt hrow hcall
    cases hstep
    refine h.report (h.row row hrow) (countSuccess_grants nowMs row) rfl rfl
      (probe_advance fun x hx => ?_)
    rw [GovernorState.probe, hcall]
    exact hx
  · cases hstep

theorem ShedInv.close (h : ShedInv s) (hstep : closeStep s call = some t) : ShedInv t := by
  unfold closeStep at hstep
  split at hstep
  · rename_i row probe admittedAt recoveredAt hrow hcall
    cases hstep
    refine h.report (h.row row hrow) (closeEpisode_grants probe recoveredAt row) rfl rfl
      (probe_advance fun x hx => ?_)
    rw [GovernorState.probe, hcall]
    exact hx
  · cases hstep

theorem ShedInv.fail {error : Option RemoteFailure} {random : ℚ} (h : ShedInv s)
    (hstep : failCallStep s call policy error nowMs random = some t) : ShedInv t := by
  unfold failCallStep at hstep
  split at hstep
  · rename_i row probe hrow hcall
    cases hstep
    exact h.report (h.row row hrow) (recordFailure_spec policy error probe nowMs random row).1
      rfl rfl (probe_advance fun x hx => nomatch hx)
  · cases hstep

theorem ShedInv.register (h : ShedInv s) (policy : RateGovernancePolicy)
    (nowMs : Millis) : ShedInv { s with row := some (registerPolicy policy nowMs s.row) } :=
  h.report (h.rowOk policy nowMs) (registerPolicy_grants policy nowMs _) rfl rfl
    (fun _ _ hc => hc)

theorem ShedInv.step {a : GovernorAction} (h : ShedInv s) (hstep : governorStep s a = some t) : ShedInv t := by
  cases a with
  | register policy nowMs =>
    cases hstep
    exact h.register policy nowMs
  | acquire => exact h.acquire hstep
  | succeed => exact h.succeed hstep
  | close => exact h.close hstep
  | fail => exact h.fail hstep

theorem shedInv_reachable (h : governor.Reachable idleGovernor s) : ShedInv s :=
  governor.reachable_invariant shedInv_idle (fun hs hstep => hs.step hstep) h

/-! ## The protocol -/

/-- The call's token is the stored owner and its lease has not run out at
the reading. -/
def HoldsLease (s : GovernorState) (c : Nat) (nowMs : Millis) : Prop :=
  ∃ row p admittedAt expires, s.row = some row ∧ s.probe c = some (p, admittedAt) ∧
    row.probeOwner = some p ∧ row.probeExpiresAt = some expires ∧ nowMs < expires

def GovernorState.Shedding (s : GovernorState) : Prop :=
  ∃ row, s.row = some row ∧ row.Open

theorem ShedInv.one_lease (h : ShedInv s) {c d : Nat}
    (hc : HoldsLease s c nowMs) (hd : HoldsLease s d nowMs) : c = d := by
  obtain ⟨row, p, i, _, hrow, hcp, howner, -, -⟩ := hc
  obtain ⟨row', q, j, _, hrow', hdq, howner', -, -⟩ := hd
  obtain rfl : row = row' := Option.some.inj (hrow.symm.trans hrow')
  obtain rfl : p = q := Option.some.inj (howner.symm.trans howner')
  exact h.unique c d p i j hcp hdq

theorem HoldsLease.probeHeld {c : Nat} (h : HoldsLease s c nowMs) (hrow : s.row = some row) :
    probeHeld row nowMs = true := by
  obtain ⟨row', p, i, expires, hrow', -, howner, hexpires, hlt⟩ := h
  obtain rfl : row = row' := Option.some.inj (hrow.symm.trans hrow')
  simpa [Connectors.probeHeld, howner, hexpires] using hlt

theorem acquireStep_admits {probe : Uuid} {p : Option Uuid} (hstep : acquireStep s call policy nowMs probe = some t)
    (hcall : t.calls call = some (.running p nowMs)) :
    sheddingState (s.row.getD (newGovernanceRow policy nowMs)) nowMs ≠ .shedding ∧
      (p.isSome = true →
        probeHeld (s.row.getD (newGovernanceRow policy nowMs)) nowMs = false) := by
  unfold acquireStep at hstep
  split at hstep
  · cases hstep
  split at hstep
  case h_3 => cases hstep
  all_goals
    obtain ⟨-, hgrant, hshed⟩ := acquireQuota_cases policy nowMs probe
      (s.row.getD (newGovernanceRow policy nowMs))
    cases hstep
    simp only [GovernorState.advance, setAt_same, Option.some.injEq] at hcall
    have hadmitted : (acquireQuota policy nowMs probe
        (s.row.getD (newGovernanceRow policy nowMs))).2 = .admitted p := by
      revert hcall
      cases (acquireQuota policy nowMs probe (s.row.getD (newGovernanceRow policy nowMs))).2 with
      | shed => exact fun h => nomatch h
      | wait => exact fun h => nomatch h
      | admitted q => intro h; cases h; rfl
    refine ⟨hshed p hadmitted, fun hsome => ?_⟩
    rcases hgrant with ⟨-, hnone⟩ | ⟨-, -, -, hfree⟩
    · obtain ⟨q, rfl⟩ := Option.isSome_iff_exists.mp hsome
      exact absurd hadmitted (hnone q)
    · exact hfree

theorem governorStep_closes {a : GovernorAction}
    (hstep : governorStep s a = some t) (hrow : s.row = some row) (hopen : row.Open)
    (hclosed : ¬ t.Shedding) :
    ∃ call probe admittedAt recoveredAt, a = .close call ∧
      s.calls call = some (.counted probe admittedAt recoveredAt) ∧
      row.probeOwner = some probe := by
  have hstill : ∀ row', t.row = some row' → row'.Open → False := fun row' hr ho =>
    hclosed ⟨row', hr, ho⟩
  cases a with
  | register policy nowMs =>
    cases hstep
    refine (hstill _ rfl ?_).elim
    rw [hrow]
    exact hopen
  | acquire call policy nowMs probe =>
    simp only [governorStep, acquireStep] at hstep
    split at hstep
    · cases hstep
    split at hstep
    case h_3 => cases hstep
    all_goals
      cases hstep
      refine (hstill _ rfl ?_).elim
      rw [GovernanceRow.Open, (acquireQuota_cases _ _ _ _).1.1, hrow]
      exact hopen
  | succeed call nowMs =>
    simp only [governorStep, succeedStep, hrow] at hstep
    split at hstep
    · rename_i hr _
      cases hr
      cases hstep
      exact (hstill _ rfl hopen).elim
    · rename_i hr _
      cases hr
      cases hstep
      exact (hstill _ rfl hopen).elim
    · cases hstep
  | close call =>
    simp only [governorStep, closeStep, hrow] at hstep
    split at hstep
    · rename_i row' probe admittedAt recoveredAt hr hcall
      cases hr
      cases hstep
      refine ⟨call, probe, admittedAt, recoveredAt, rfl, hcall, ?_⟩
      exact closeEpisode_closes hopen fun ho => hstill _ rfl ho
    · cases hstep
  | fail call policy error nowMs random =>
    simp only [governorStep, failCallStep, hrow] at hstep
    split at hstep
    · rename_i row' probe hr _
      cases hr
      cases hstep
      exact (hstill _ rfl
        ((recordFailure_spec policy error probe nowMs random row).2 hopen)).elim
    · cases hstep

/-- **The load-shedding protocol**, in every reachable state and whatever
the clocks of the workers say: a call is admitted only by a transaction
whose reading is not before the window of an open episode; at most one call
holds an unexpired lease, and a transaction that admits a probe finds none;
and an open episode ends only by the counted success of the call whose token
is the stored owner, admitted after the stored window. -/
theorem load_shedding_protocol (s : GovernorState)
    (h : governor.Reachable idleGovernor s) :
    (∀ call policy nowMs probe t p row,
      governorStep s (.acquire call policy nowMs probe) = some t →
      t.calls call = some (.running p nowMs) → s.row = some row → row.Open →
      ∃ u, row.shedUntil = some u ∧ u ≤ nowMs) ∧
    (∀ nowMs c d, HoldsLease s c nowMs → HoldsLease s d nowMs → c = d) ∧
    (∀ call policy nowMs probe t p,
      governorStep s (.acquire call policy nowMs probe) = some t →
      t.calls call = some (.running (some p) nowMs) → ∀ c, ¬ HoldsLease s c nowMs) ∧
    (∀ a t row, governorStep s a = some t → s.row = some row → row.Open → ¬ t.Shedding →
      ∃ call probe admittedAt recoveredAt u, a = .close call ∧
        s.calls call = some (.counted probe admittedAt recoveredAt) ∧
        row.probeOwner = some probe ∧ row.shedUntil = some u ∧ u ≤ admittedAt) := by
  have hinv := shedInv_reachable h
  refine ⟨?_, ?_, ?_, ?_⟩
  · intro call policy nowMs probe t p row hstep hcall hrow hopen
    have hstate := (acquireStep_admits hstep hcall).1
    rw [hrow] at hstate
    obtain ⟨u, hu⟩ := (hinv.row row hrow).timed hopen
    exact ⟨u, hu, not_shedding hstate hopen hu⟩
  · intro nowMs c d hc hd
    exact hinv.one_lease hc hd
  · intro call policy nowMs probe t p hstep hcall c hc
    have hfree := (acquireStep_admits hstep hcall).2 rfl
    have hlease := hc
    obtain ⟨row, _, _, _, hrow, -⟩ := hlease
    rw [hrow, Option.getD_some, hc.probeHeld hrow] at hfree
    cases hfree
  · intro a t row hstep hrow hopen hclosed
    obtain ⟨call, probe, admittedAt, recoveredAt, ha, hcall, howner⟩ :=
      governorStep_closes hstep hrow hopen hclosed
    have hok := hinv.row row hrow
    obtain ⟨u, hu⟩ := hok.timed hopen
    have hprobe : s.probe call = some (probe, admittedAt) := by
      rw [GovernorState.probe, hcall]
      rfl
    exact ⟨call, probe, admittedAt, recoveredAt, u, ha, hcall, howner, hu,
      hok.after call probe admittedAt hprobe howner u hu⟩

/-- A busy target: two answers under pressure open an episode until 3000; a
call that was in flight reports late and moves it to 5000 while a probe is
out. -/
def pressure : RemoteFailure := ⟨"semaphore", some 503, true, some 2000⟩

def busyRun : List GovernorAction :=
  [.acquire 0 defaultRateGovernance 0 1, .acquire 1 defaultRateGovernance 0 2,
   .acquire 2 defaultRateGovernance 0 3, .fail 0 defaultRateGovernance (some pressure) 500 0,
   .fail 1 defaultRateGovernance (some pressure) 1000 0,
   .acquire 3 defaultRateGovernance 3000 4,
   .fail 2 defaultRateGovernance (some pressure) 3000 0,
   .acquire 4 defaultRateGovernance 5000 5, .succeed 3 5001, .close 3, .succeed 4 5002]

def busyState : GovernorState := (governor.run idleGovernor busyRun).getD idleGovernor

/-- The probe from before the move does not end the episode; the one from
after it does. -/
theorem load_shedding_protocol_busy :
    busyState.Shedding ∧
      ∃ t, governorStep busyState (.close 4) = some t ∧ ¬ t.Shedding ∧
        ∃ call probe admittedAt recoveredAt u, GovernorAction.close 4 = .close call ∧
          busyState.calls call = some (.counted probe admittedAt recoveredAt) ∧
          u ≤ admittedAt := by
  have hrun : governor.run idleGovernor busyRun = some busyState := rfl
  have hclosed : ∀ row, (governorStep busyState (.close 4)).bind (·.row) = some row →
      ¬ row.Open := by
    intro row hrow
    cases hrow
    exact fun h => nomatch h
  refine ⟨⟨_, rfl, rfl⟩, _, rfl, ?_, ?_⟩
  · rintro ⟨row, hrow, hopen⟩
    exact hclosed row hrow hopen
  · obtain ⟨call, probe, admittedAt, recoveredAt, u, ha, hcall, -, -, hle⟩ :=
      (load_shedding_protocol busyState ⟨busyRun, hrun⟩).2.2.2 (.close 4) _ _ rfl rfl rfl
        (by rintro ⟨row, hrow, hopen⟩; exact hclosed row hrow hopen)
    exact ⟨call, probe, admittedAt, recoveredAt, u, ha, hcall, hle⟩

end Cadena.Connectors
