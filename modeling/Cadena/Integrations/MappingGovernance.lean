import Cadena.Integrations.MappingPublication

/-!
# One published mapping for a pair

At most one published definition matches an unordered pair of endpoints, and
the look-ups find the one that was published last: in every run in which a
publication commits only when no definition of the pair is published in the
other orientation, and none in its own that its first update did not find.
-/

namespace Cadena.Integrations

open Cadena.Base
open Cadena.Connectors (FieldMappingEndpoint FieldMappingStatus)

/-- The publications that go wrong are not committed. -/
def Exclusive (s : MappingState) : MappingAction → Prop
  | .commit i => ∀ id found, s.publishers i = .published id found →
      ∀ r ∈ s.rows, r.id = id → ∀ q ∈ s.rows, q.status = .published → q.id ≠ id →
        q.sameOrientation r.target r.source = false ∧
          (q.sameOrientation r.source r.target = true → q.id ∈ found)
  | _ => True

structure Governed (s : MappingState) : Prop where
  one : ∀ a b, ∀ q ∈ s.rows, ∀ r ∈ s.rows, q.status = .published → r.status = .published →
    q.matchesPair a b = true → r.matchesPair a b = true → q = r
  translation : ∀ a b r,
    FindsPublished s.rows a b r ↔ r ∈ s.rows ∧ lastPublished s.log a b = some r.id

def MappingRow.pair (r : MappingRow) : Sym2 FieldMappingEndpoint := s(r.source, r.target)

def Publication.pair (p : Publication) : Sym2 FieldMappingEndpoint := s(p.source, p.target)

variable {r : MappingRow}

@[simp] theorem sameOrientation_iff {a b : FieldMappingEndpoint} :
    r.sameOrientation a b = true ↔ r.source = a ∧ r.target = b := by
  simp [MappingRow.sameOrientation]

@[simp] theorem matchesPair_iff {a b : FieldMappingEndpoint} : r.matchesPair a b = true ↔ r.pair = s(a, b) := by
  rw [MappingRow.pair, Sym2.eq_iff]
  simp [MappingRow.matchesPair]

theorem lastPublished_nil (a b : FieldMappingEndpoint) : lastPublished [] a b = none := rfl

theorem lastPublished_cons {p : Publication} {log : List Publication} {a b : FieldMappingEndpoint} :
    lastPublished (p :: log) a b =
      if p.pair = s(a, b) then some p.id else lastPublished log a b := by
  have hmatch : (p.source = a && p.target = b || p.source = b && p.target = a) = true ↔
      p.pair = s(a, b) := by
    rw [Publication.pair, Sym2.eq_iff]
    simp
  unfold lastPublished
  rw [List.find?_cons]
  by_cases hp : p.pair = s(a, b)
  · rw [hmatch.mpr hp, if_pos hp]
    rfl
  · rw [if_neg hp]
    have hfalse : (p.source = a && p.target = b || p.source = b && p.target = a) = false := by
      simpa [hp] using hmatch
    rw [hfalse]

theorem pair_eq_iff {q : MappingRow} : q.pair = r.pair ↔
    q.sameOrientation r.source r.target = true ∨ q.sameOrientation r.target r.source = true := by
  rw [MappingRow.pair, MappingRow.pair, Sym2.eq_iff, sameOrientation_iff, sameOrientation_iff]

/-! ## What a step can do -/

/-- The definition that a call publishes, and the rows its first update has
found. -/
def PublishPhase.job : PublishPhase → Option (Uuid × List Uuid)
  | .idle => none
  | .looked id | .opened id | .guarded id => some (id, [])
  | .matched id found | .superseded id found | .published id found => some (id, found)

/-- How a call comes to its next phase. -/
inductive PublishMove (s : MappingState) (i : Nat) : PublishPhase → Prop where
  | stopped : PublishMove s i .idle
  | started {phase : PublishPhase} {r : MappingRow} : r ∈ s.rows → phase.job = some (r.id, []) →
      PublishMove s i phase
  | found {r : MappingRow} : r ∈ s.rows →
      PublishMove s i (.matched r.id ((s.rows.filter fun q =>
        q.status = .published && q.sameOrientation r.source r.target).map (·.id)))
  | kept {phase : PublishPhase} {id : Uuid} {old new : List Uuid} :
      (s.publishers i).job = some (id, old) → (∀ x ∈ new, x ∈ old) →
      phase.job = some (id, new) → PublishMove s i phase

variable {service : MappingService} {s t : MappingState} {a : MappingAction}

theorem mem_of_row {id : Uuid} (h : s.row id = some r) : r ∈ s.rows ∧ r.id = id :=
  ⟨List.mem_of_find?_eq_some h, by simpa using List.find?_some h⟩

theorem publishers_step (h : mappingStep service s a = some t) :
    t.publishers = s.publishers ∨ ∃ i phase, t.publishers = setAt s.publishers i phase ∧
      PublishMove s i phase := by
  cases a with
  | readVersion =>
    simp only [mappingStep, readVersionStep] at h
    split at h
    · split at h <;> cases h
      exact .inl rfl
    · cases h
  | insertDraft =>
    simp only [mappingStep, insertDraftStep] at h
    split at h
    · split at h
      · cases h
      · split at h <;> cases h <;> exact .inl rfl
    · cases h
  | begin i id =>
    simp only [mappingStep, beginStep] at h
    split at h
    · split at h
      · cases h
      · rename_i r hrow
        obtain ⟨hr, rfl⟩ := mem_of_row hrow
        split at h
        · cases service with
          | state | field =>
            cases h
            exact .inr ⟨i, _, rfl, .started hr rfl⟩
        · cases h
    · cases h
  | verify i complete =>
    simp only [mappingStep, verifyStep] at h
    split at h <;> cases h
    rename_i id hphase
    cases complete with
    | true => exact .inr ⟨i, _, rfl, .kept (by rw [hphase]; rfl) (fun _ hx => hx) rfl⟩
    | false => exact .inr ⟨i, _, rfl, .stopped⟩
  | guard i =>
    simp only [mappingStep, guardStep] at h
    split at h
    · split at h
      · cases h
      · rename_i r hrow
        obtain ⟨hr, rfl⟩ := mem_of_row hrow
        cases h
        by_cases hdraft : r.status = .draft
        · exact .inr ⟨i, _, by rw [if_pos hdraft]; rfl, .started hr rfl⟩
        · exact .inr ⟨i, _, by rw [if_neg hdraft]; rfl, .stopped⟩
    · cases h
  | find i =>
    simp only [mappingStep, matchStep] at h
    split at h
    · split at h
      · cases h
      · rename_i r hrow
        obtain ⟨hr, rfl⟩ := mem_of_row hrow
        cases h
        exact .inr ⟨i, _, rfl, .found hr⟩
    · cases h
  | supersede i =>
    simp only [mappingStep, supersedeStep] at h
    split at h
    · rename_i id found hphase
      split at h <;> cases h
      exact .inr ⟨i, _, rfl, .kept (by rw [hphase]; rfl)
        (fun _ hx => List.mem_of_mem_filter hx) rfl⟩
    · cases h
  | publish i =>
    simp only [mappingStep, publishStep] at h
    split at h
    · rename_i id found hphase
      split at h <;> cases h
      exact .inr ⟨i, _, rfl, .kept (by rw [hphase]; rfl) (fun _ hx => hx) rfl⟩
    · cases h
  | commit i =>
    simp only [mappingStep, commitStep] at h
    split at h
    · split at h <;> cases h
      exact .inr ⟨i, _, rfl, .stopped⟩
    · cases h
  | abort i =>
    cases h
    exact .inr ⟨i, _, rfl, .stopped⟩

theorem rows_step (h : mappingStep service s a = some t) :
    (t.rows = s.rows ∧ t.log = s.log) ∨
      (∃ r, s.rows.any (·.id == r.id) = false ∧ r.status = .draft ∧ t.rows = s.rows ++ [r] ∧
        t.log = s.log) ∨
      ∃ i found r, a = .commit i ∧ s.publishers i = .published r.id found ∧ r ∈ s.rows ∧
        t.rows = publishRows r.id found s.rows ∧ t.log = ⟨r.id, r.source, r.target⟩ :: s.log := by
  cases a with
  | insertDraft =>
    simp only [mappingStep, insertDraftStep] at h
    split at h
    · split at h
      · cases h
      · rename_i hfresh
        split at h <;> cases h
        · exact .inl ⟨rfl, rfl⟩
        · exact .inr (.inl ⟨_, by simpa using hfresh, rfl, rfl, rfl⟩)
    · cases h
  | commit i =>
    simp only [mappingStep, commitStep] at h
    split at h
    · rename_i id found hphase
      split at h <;> cases h
      rename_i r hrow
      obtain ⟨hr, rfl⟩ := mem_of_row hrow
      exact .inr (.inr ⟨i, found, r, rfl, hphase, hr, rfl, rfl⟩)
    · cases h
  | readVersion | supersede | publish =>
    simp only [mappingStep, readVersionStep, supersedeStep, publishStep] at h
    split at h
    · split at h
      · cases h
      · cases h
        exact .inl ⟨rfl, rfl⟩
    · cases h
  | begin =>
    simp only [mappingStep, beginStep] at h
    split at h
    · split at h
      · cases h
      · split at h
        · cases service with
          | state | field =>
            cases h
            exact .inl ⟨rfl, rfl⟩
        · cases h
    · cases h
  | guard | find =>
    simp only [mappingStep, guardStep, matchStep] at h
    split at h
    · split at h
      · cases h
      · cases h
        exact .inl ⟨rfl, rfl⟩
    · cases h
  | verify =>
    simp only [mappingStep, verifyStep] at h
    split at h <;> cases h
    exact .inl ⟨rfl, rfl⟩
  | abort =>
    cases h
    exact .inl ⟨rfl, rfl⟩

/-- What a publication makes of a row. -/
def settle (id : Uuid) (found : List Uuid) (r : MappingRow) : MappingRow :=
  if r.id = id then { r with status := .published }
  else if r.id ∈ found then { r with status := .superseded } else r

theorem publishRows_eq (id : Uuid) (found : List Uuid) (rows : List MappingRow) :
    publishRows id found rows = rows.map (settle id found) := by
  rw [publishRows, Table.update, Table.update, List.map_map]
  refine List.map_congr_left fun r _ => ?_
  by_cases hfound : r.id ∈ found
  · rcases eq_or_ne r.id id with rfl | hid
    · simp [settle, hfound]
    · simp [settle, hfound, hid]
  · rcases eq_or_ne r.id id with rfl | hid
    · simp [settle, hfound]
    · simp [settle, hfound, hid]

/-- The columns that say what a definition is. -/
structure SameDefinition (r r' : MappingRow) : Prop where
  id : r'.id = r.id
  source : r'.source = r.source
  target : r'.target = r.target

theorem SameDefinition.settle (id : Uuid) (found : List Uuid) (r : MappingRow) :
    SameDefinition r (settle id found r) := by
  unfold Integrations.settle
  split
  · exact ⟨rfl, rfl, rfl⟩
  · split <;> exact ⟨rfl, rfl, rfl⟩

theorem SameDefinition.pair_eq {r' : MappingRow} (h : SameDefinition r r') : r'.pair = r.pair := by
  rw [MappingRow.pair, MappingRow.pair, h.source, h.target]

/-- A row that is published afterwards is the one of the publication, or was
published and not found by its first update. -/
theorem settle_published {id : Uuid} {found : List Uuid} (h : (settle id found r).status = .published) :
    r.id = id ∨ (r.id ≠ id ∧ r.id ∉ found ∧ r.status = .published ∧ settle id found r = r) := by
  unfold settle at h ⊢
  split at h
  · exact .inl ‹_›
  · rename_i hid
    split at h
    · cases h
    · rename_i hfound
      rw [if_neg hid, if_neg hfound]
      exact .inr ⟨hid, hfound, h, rfl⟩

/-! ## The invariant of a run -/

/-- The rows that a publication has found have its orientation. -/
def JobOk (rows : List MappingRow) (id : Uuid) (found : List Uuid) : Prop :=
  ∃ r ∈ rows, r.id = id ∧ ∀ x ∈ found, ∃ q ∈ rows, q.id = x ∧ q.source = r.source ∧
    q.target = r.target

theorem JobOk.keep {rows rows' : List MappingRow} {id : Uuid} {found : List Uuid}
    (h : JobOk rows id found) (hrows : ∀ r ∈ rows, ∃ r' ∈ rows', SameDefinition r r') :
    JobOk rows' id found := by
  obtain ⟨r, hr, hid, hfound⟩ := h
  obtain ⟨r', hr', hsame⟩ := hrows r hr
  refine ⟨r', hr', hsame.id.trans hid, fun x hx => ?_⟩
  obtain ⟨q, hq, hqid, hsource, htarget⟩ := hfound x hx
  obtain ⟨q', hq', hqsame⟩ := hrows q hq
  refine ⟨q', hq', hqsame.id.trans hqid, ?_, ?_⟩
  · rw [hqsame.source, hsource, hsame.source]
  · rw [hqsame.target, htarget, hsame.target]

structure MappingInv (s : MappingState) : Prop where
  ids : (s.rows.map (·.id)).Nodup
  jobs : ∀ i id found, (s.publishers i).job = some (id, found) → JobOk s.rows id found
  last : ∀ r ∈ s.rows, r.status = .published → ∀ a b, r.pair = s(a, b) →
    lastPublished s.log a b = some r.id
  logged : ∀ a b id, lastPublished s.log a b = some id →
    ∃ r ∈ s.rows, r.id = id ∧ r.status = .published ∧ r.pair = s(a, b)

theorem MappingInv.start : MappingInv .start where
  ids := List.nodup_nil
  jobs i id found h := by cases h
  last r hr := by cases hr
  logged a b id h := by cases h

theorem MappingInv.governed (h : MappingInv s) : Governed s where
  one a b q hq r hr hqp hrp hqm hrm := by
    have hqlast := h.last q hq hqp a b (matchesPair_iff.mp hqm)
    have hrlast := h.last r hr hrp a b (matchesPair_iff.mp hrm)
    rw [hqlast] at hrlast
    exact Table.eq_of_key h.ids hq hr (Option.some.inj hrlast)
  translation a b r := by
    constructor
    · intro hfinds
      exact ⟨hfinds.mem, h.last r hfinds.mem hfinds.published a b (matchesPair_iff.mp hfinds.pair)⟩
    · rintro ⟨hr, hlast⟩
      obtain ⟨r', hr', hid, hpub, hpair⟩ := h.logged a b r.id hlast
      have hsame : r' = r := Table.eq_of_key h.ids hr' hr hid
      subst hsame
      refine ⟨hr, hpub, matchesPair_iff.mpr hpair, fun q hq hqp hqm => ?_⟩
      have hqlast := h.last q hq hqp a b (matchesPair_iff.mp hqm)
      rw [hlast] at hqlast
      exact le_of_eq (congrArg _ (Table.eq_of_key h.ids hq hr (Option.some.inj hqlast).symm))

theorem definitions_stay (hstep : mappingStep service s a = some t) :
    ∀ r ∈ s.rows, ∃ r' ∈ t.rows, SameDefinition r r' := by
  intro r hr
  rcases rows_step hstep with ⟨hrows, -⟩ | ⟨_, -, -, hrows, -⟩ | ⟨_, found, d, -, -, -, hrows, -⟩
  · exact ⟨r, hrows ▸ hr, rfl, rfl, rfl⟩
  · exact ⟨r, hrows ▸ List.mem_append_left _ hr, rfl, rfl, rfl⟩
  · rw [hrows, publishRows_eq]
    exact ⟨_, List.mem_map_of_mem hr, .settle _ _ r⟩

theorem MappingInv.ids_step (h : MappingInv s) (hstep : mappingStep service s a = some t) :
    (t.rows.map (·.id)).Nodup := by
  rcases rows_step hstep with ⟨hrows, -⟩ | ⟨r, hfresh, -, hrows, -⟩ | ⟨_, found, d, -, -, -, hrows, -⟩
  · exact hrows ▸ h.ids
  · rw [hrows]
    exact Table.nodup_insert_unless h.ids hfresh
  · rw [hrows, publishRows_eq, List.map_map]
    have hids : (fun r : MappingRow => r.id) ∘ settle d.id found = fun r => r.id :=
      funext fun r => (SameDefinition.settle d.id found r).id
    rw [hids]
    exact h.ids

theorem MappingInv.jobs_step (h : MappingInv s) (hstep : mappingStep service s a = some t) :
    ∀ i id found, (t.publishers i).job = some (id, found) → JobOk t.rows id found := by
  intro i id found hjob
  refine JobOk.keep ?_ (definitions_stay hstep)
  rcases publishers_step hstep with hsame | ⟨k, phase, hset, hmove⟩
  · exact h.jobs i id found (hsame ▸ hjob)
  · rw [hset] at hjob
    by_cases hik : i = k
    · rw [hik, setAt_same] at hjob
      cases hmove with
      | stopped => cases hjob
      | started hr hphase =>
        rw [hphase] at hjob
        cases hjob
        exact ⟨_, hr, rfl, by simp⟩
      | @found r hr =>
        cases hjob
        refine ⟨r, hr, rfl, fun x hx => ?_⟩
        obtain ⟨q, hq, rfl⟩ := List.mem_map.mp hx
        obtain ⟨hq, hmatch⟩ := List.mem_filter.mp hq
        simp only [Bool.and_eq_true, sameOrientation_iff] at hmatch
        exact ⟨q, hq, rfl, hmatch.2⟩
      | kept hold hsub hphase =>
        rw [hphase] at hjob
        cases hjob
        obtain ⟨r, hr, hid, hfound⟩ := h.jobs k _ _ hold
        exact ⟨r, hr, hid, fun x hx => hfound x (hsub x hx)⟩
    · rw [setAt_other _ _ hik] at hjob
      exact h.jobs i id found hjob

theorem Exclusive.others {i : Nat} {found : List Uuid}
    (hC : Exclusive s (.commit i)) (hphase : s.publishers i = .published r.id found)
    (hr : r ∈ s.rows) {q : MappingRow} (hq : q ∈ s.rows) (hpub : q.status = .published)
    (hne : q.id ≠ r.id) (hfound : q.id ∉ found) : q.pair ≠ r.pair := by
  obtain ⟨hopposite, hsame⟩ := hC r.id found hphase r hr rfl q hq hpub hne
  intro hpair
  rcases pair_eq_iff.mp hpair with horient | horient
  · exact hfound (hsame horient)
  · rw [hopposite] at horient
    cases horient

theorem MappingInv.last_step (h : MappingInv s) (hC : Exclusive s a)
    (hstep : mappingStep service s a = some t) : ∀ r ∈ t.rows, r.status = .published →
      ∀ x y, r.pair = s(x, y) → lastPublished t.log x y = some r.id := by
  intro q hq hpub x y hpair
  rcases rows_step hstep with
    ⟨hrows, hlog⟩ | ⟨r, -, hdraft, hrows, hlog⟩ | ⟨i, found, r, rfl, hphase, hr, hrows, hlog⟩
  · rw [hlog]
    exact h.last q (hrows ▸ hq) hpub x y hpair
  · rw [hlog]
    rw [hrows] at hq
    rcases List.mem_append.mp hq with hq | hq
    · exact h.last q hq hpub x y hpair
    · rw [List.mem_singleton.mp hq, hdraft] at hpub
      cases hpub
  · rw [hrows, publishRows_eq] at hq
    obtain ⟨p, hp, rfl⟩ := List.mem_map.mp hq
    have hkeep := SameDefinition.settle r.id found p
    rw [hkeep.pair_eq] at hpair
    rw [hlog, lastPublished_cons, hkeep.id]
    rcases settle_published hpub with hid | ⟨hne, hfound, hold, -⟩
    · have hsame : p = r := Table.eq_of_key h.ids hp hr hid
      rw [if_pos (by rw [← hpair, hsame]; rfl), hid]
    · have hother : p.pair ≠ r.pair := hC.others hphase hr hp hold hne hfound
      have hskip : (⟨r.id, r.source, r.target⟩ : Publication).pair ≠ s(x, y) :=
        fun heq => hother (hpair.trans heq.symm)
      rw [if_neg hskip]
      exact h.last p hp hold x y hpair

theorem MappingInv.logged_step (h : MappingInv s) (hstep : mappingStep service s a = some t) :
    ∀ x y id, lastPublished t.log x y = some id →
      ∃ r ∈ t.rows, r.id = id ∧ r.status = .published ∧ r.pair = s(x, y) := by
  intro x y id hlast
  rcases rows_step hstep with
    ⟨hrows, hlog⟩ | ⟨r, -, hdraft, hrows, hlog⟩ | ⟨i, found, r, rfl, hphase, hr, hrows, hlog⟩
  · rw [hrows]
    exact h.logged x y id (hlog ▸ hlast)
  · obtain ⟨q, hq, hqid⟩ := h.logged x y id (hlog ▸ hlast)
    exact ⟨q, hrows ▸ List.mem_append_left _ hq, hqid⟩
  · rw [hlog, lastPublished_cons] at hlast
    rw [hrows, publishRows_eq]
    split at hlast
    · rename_i hpair
      cases hlast
      refine ⟨_, List.mem_map_of_mem hr, ?_⟩
      rw [settle, if_pos rfl]
      exact ⟨rfl, rfl, hpair⟩
    · rename_i hpair
      obtain ⟨q, hq, hid, hpub, hqpair⟩ := h.logged x y id hlast
      have hother : q.pair ≠ r.pair := fun heq => hpair (heq.symm.trans hqpair)
      have hne : q.id ≠ r.id := by
        intro heq
        exact hother (congrArg _ (Table.eq_of_key h.ids hq hr heq))
      -- the rows that the publication has found are of its own pair
      have hfound : q.id ∉ found := by
        intro hmem
        obtain ⟨d, hd, hdid, hjob⟩ := h.jobs i r.id found (by rw [hphase]; rfl)
        obtain ⟨q', hq', hqid', hsource, htarget⟩ := hjob q.id hmem
        have hqq : q' = q := Table.eq_of_key h.ids hq' hq hqid'
        have hdr : d = r := Table.eq_of_key h.ids hd hr hdid
        subst hqq hdr
        exact hother (by rw [MappingRow.pair, MappingRow.pair, hsource, htarget])
      refine ⟨_, List.mem_map_of_mem hq, ?_⟩
      rw [settle, if_neg hne, if_neg hfound]
      exact ⟨hid, hpub, hqpair⟩

theorem MappingInv.step (h : MappingInv s) (hC : Exclusive s a)
    (hstep : mappingStep service s a = some t) : MappingInv t where
  ids := h.ids_step hstep
  jobs := h.jobs_step hstep
  last := h.last_step hC hstep
  logged := h.logged_step hstep

def jiraIssue : FieldMappingEndpoint := ⟨"jira", "issue"⟩

def serviceNowIncident : FieldMappingEndpoint := ⟨"servicenow", "incident"⟩

def draftOf (id : Uuid) (source target : FieldMappingEndpoint) : List MappingAction :=
  [.readVersion 0 source target, .insertDraft 0 id]

/-- The steps of a publication up to its first update. -/
def opens : MappingService → Nat → Uuid → List MappingAction
  | .state, i, id => [.begin i id]
  | .field, i, id => [.begin i id, .verify i true, .guard i]

def closes (i : Nat) : List MappingAction := [.supersede i, .publish i, .commit i]

def publication (service : MappingService) (i : Nat) (id : Uuid) : List MappingAction :=
  opens service i id ++ [.find i] ++ closes i

/-- Two versions of one orientation and one of the other; the second version
is published, then the other orientation. -/
def bothOrientations (service : MappingService) : List MappingAction :=
  draftOf 1 jiraIssue serviceNowIncident ++ draftOf 2 jiraIssue serviceNowIncident ++
    draftOf 3 serviceNowIncident jiraIssue ++ publication service 0 2 ++ publication service 0 3

/-- Two versions are published at the same time, and neither transaction
finds a published row. -/
def atOnce (service : MappingService) : List MappingAction :=
  draftOf 1 jiraIssue serviceNowIncident ++ draftOf 2 jiraIssue serviceNowIncident ++
    opens service 0 2 ++ opens service 1 1 ++ [.find 0, .find 1] ++ closes 0 ++ closes 1

/-- Two published definitions match the pair, and the look-ups find the one
that was not published last. -/
def Ungoverned (s : MappingState) (stale newest : Uuid) : Prop :=
  (s.rows.filter fun r => r.status = .published &&
      r.matchesPair jiraIssue serviceNowIncident).length = 2 ∧
    lastPublished s.log jiraIssue serviceNowIncident = some newest ∧ stale ≠ newest ∧
    ∃ r ∈ s.rows, r.id = stale ∧ FindsPublished s.rows jiraIssue serviceNowIncident r

end Cadena.Integrations
