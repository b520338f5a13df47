import Mathlib.Data.List.Chain
import Cadena.Connectors.BackfillSteps

/-!
# The lease of a backfill job

Only the execution that claimed the job last changes its chunks, a chunk that
is done stays as it is, and its counters count every page once: in every run
in which no statement on the chunks of an earlier execution is left to run
after the takeover. Of these statements only the look at the job and the
check inside the transaction are fenced by the lease, and neither holds the
lease until the chunk is written.
-/

namespace Cadena.Connectors.Backfill

open Cadena.Base

/-- The steps that go wrong are not taken: of an execution that has been
taken over, no update reaches a chunk. -/
def Fenced (s : BackfillState) : BackfillAction → Prop
  | .reset j => s.latest = some j ∨ ∀ c ∈ s.chunks, c.status ≠ .running
  | .cleanup j id => s.latest = some j ∨ ∀ c ∈ s.chunks, c.id = id → c.status ≠ .running
  | .mark j | .commit j _ | .recordFailure j _ => s.latest = some j
  | _ => True

/-- Another execution has claimed the job since. -/
def TakenOver (s : BackfillState) (j : Nat) : Prop := ∃ k, s.latest = some k ∧ k ≠ j

/-! ## Pages and counters -/

def commitsOf (commits : List PageCommit) (id : Uuid) : List PageCommit :=
  commits.filter (·.chunk == id)

/-- The page was read with the token that the one before it named. -/
def Follows (p q : PageCommit) : Prop :=
  hasMore p.page.nextPageToken = true ∧ q.token = p.page.nextPageToken

structure Counted (commits : List PageCommit) (c : BackfillChunk) : Prop where
  first : ∀ p ∈ commits.head?, p.token = none
  chain : commits.IsChain Follows
  token : c.pageToken = commits.getLast?.bind (·.page.nextPageToken)
  complete : c.status = .done ↔ ∃ p ∈ commits.getLast?, hasMore p.page.nextPageToken = false
  pages : c.pages = commits.length
  fetched : c.fetched = (commits.map (·.page.records.length)).sum
  enqueued : c.enqueued = (commits.map (insertedCount ·.outcomes)).sum
  duplicates : c.duplicates =
    (commits.map fun p => p.outcomes.length - insertedCount p.outcomes).sum

theorem Counted.planned (plan : ChunkPlan) (seq : Nat) (id : Uuid) :
    Counted [] (plannedChunk plan seq id) where
  first := by simp
  chain := List.IsChain.nil
  token := rfl
  complete := by simp [plannedChunk]
  pages := rfl
  fetched := rfl
  enqueued := rfl
  duplicates := rfl

/-- A statement that counts nothing. -/
structure SameProgress (c c' : BackfillChunk) : Prop where
  id : c'.id = c.id
  token : c'.pageToken = c.pageToken
  pages : c'.pages = c.pages
  fetched : c'.fetched = c.fetched
  enqueued : c'.enqueued = c.enqueued
  duplicates : c'.duplicates = c.duplicates

theorem Counted.keep {commits : List PageCommit} {c c' : BackfillChunk} (h : Counted commits c)
    (hsame : SameProgress c c') (hopen : c.status ≠ .done) (hopen' : c'.status ≠ .done) :
    Counted commits c' where
  first := h.first
  chain := h.chain
  token := hsame.token.trans h.token
  complete := by
    constructor
    · intro hd
      exact absurd hd hopen'
    · intro hlast
      exact absurd (h.complete.mpr hlast) hopen
  pages := hsame.pages.trans h.pages
  fetched := hsame.fetched.trans h.fetched
  enqueued := hsame.enqueued.trans h.enqueued
  duplicates := hsame.duplicates.trans h.duplicates

theorem Counted.advance {commits : List PageCommit} {c : BackfillChunk} (h : Counted commits c)
    (hopen : c.status ≠ .done) {p : PageCommit} (htoken : p.token = c.pageToken) :
    Counted (commits ++ [p]) (c.advance p.page p.outcomes) where
  first q hq := by
    cases commits with
    | nil =>
      simp only [List.nil_append, List.head?_cons, Option.mem_some_iff] at hq
      rw [← hq, htoken, h.token]
      rfl
    | cons r rest => exact h.first q hq
  chain := by
    rw [List.isChain_append]
    refine ⟨h.chain, List.isChain_singleton p, ?_⟩
    intro x hx y hy
    simp only [List.head?_cons, Option.mem_some_iff] at hy
    have hlast : commits.getLast? = some x := hx
    refine ⟨?_, ?_⟩
    · by_contra hmore
      exact hopen (h.complete.mpr ⟨x, hx, by simpa using hmore⟩)
    · rw [← hy, htoken, h.token, hlast]
      rfl
  token := by simp [BackfillChunk.advance]
  complete := by
    cases hmore : hasMore p.page.nextPageToken <;> simp [BackfillChunk.advance, hmore]
  pages := by simp [BackfillChunk.advance, h.pages]
  fetched := by simp [BackfillChunk.advance, h.fetched]
  enqueued := by simp [BackfillChunk.advance, h.enqueued]
  duplicates := by simp [BackfillChunk.advance, h.duplicates]

/-! ## The chunks of a round -/

def Owned (chunks : List BackfillChunk) (status : BackfillChunkStatus) (chunk : ChunkRow) : Prop :=
  ∃ c ∈ chunks, c.id = chunk.id ∧ c.status = status ∧ c.pageToken = chunk.pageToken

variable {chunk : ChunkRow} {chunks : List BackfillChunk}

theorem Owned.row {status : BackfillChunkStatus}
    (h : Owned chunks status chunk) (hids : (chunks.map (·.id)).Nodup) {c : BackfillChunk}
    (hc : c ∈ chunks) (hid : c.id = chunk.id) :
    c.status = status ∧ c.pageToken = chunk.pageToken := by
  obtain ⟨q, hq, hqid, hstatus, htoken⟩ := h
  have hsame : q = c := Table.eq_of_key hids hq hc (hqid.trans hid.symm)
  rw [← hsame]
  exact ⟨hstatus, htoken⟩

theorem Owned.update {status : BackfillChunkStatus} {p : BackfillChunk → Bool} {f : BackfillChunk → BackfillChunk}
    (h : Owned chunks status chunk)
    (hp : ∀ c, c.id = chunk.id → c.status = status → p c = false) :
    Owned (Table.update p f chunks) status chunk := by
  obtain ⟨c, hc, hid, hstatus, htoken⟩ := h
  exact ⟨c, Table.mem_update_of_not hc (hp c hid hstatus), hid, hstatus, htoken⟩

theorem Owned.mark {ids : List Uuid} (h : Owned chunks .pending chunk) (hid : chunk.id ∈ ids) :
    Owned (markRunning ids chunks) .running chunk := by
  obtain ⟨c, hc, hcid, -, htoken⟩ := h
  exact ⟨_, Table.mem_update.mpr (.inl ⟨c, hc, by simpa [hcid] using hid, rfl⟩), hcid, rfl, htoken⟩

theorem owned_due {now : Millis} {limit : Nat}
    (h : chunk ∈ dueChunks chunks now limit) : Owned chunks .pending chunk := by
  obtain ⟨c, hc, rfl⟩ := List.mem_map.mp h
  have hdue : c ∈ chunks.filter (·.due now) := by
    rcases List.mem_append.mp (List.mem_of_mem_take hc) with hc | hc <;>
      exact List.mem_of_mem_filter hc
  obtain ⟨hmem, hpending⟩ := List.mem_filter.mp hdue
  simp only [BackfillChunk.due, Bool.and_eq_true, beq_iff_eq] at hpending
  exact ⟨c, hmem, rfl, hpending.1, rfl⟩

/-- The phases in which an execution has no step under way. -/
def ExecutionPhase.quiet : ExecutionPhase → Bool
  | .marking _ => true
  | phase => phase.preparing

/-- The steps of an execution are those of the round it is in. -/
structure Shape (phase : ExecutionPhase) (steps : Uuid → Option StepPhase) : Prop where
  named : ∀ id st, steps id = some st → st.chunk.id = id
  quiet : phase.quiet = true → ∀ id, steps id = none
  within : ∀ ids, phase = .inRound ids → ∀ id st, steps id = some st → id ∈ ids

/-- The rows of the chunks that an execution works on. -/
structure RoundOk (chunks : List BackfillChunk) (phase : ExecutionPhase)
    (steps : Uuid → Option StepPhase) : Prop where
  due : ∀ due, phase = .marking due → ∀ chunk ∈ due, Owned chunks .pending chunk
  inFlight : ∀ id st, steps id = some st → Owned chunks .running st.chunk

structure LeaseInv (s : BackfillState) : Prop where
  ids : (s.chunks.map (·.id)).Nodup
  shape : ∀ j, Shape (s.executions j) (s.steps j)
  holder : ∀ j, s.latest = some j → RoundOk s.chunks (s.executions j) (s.steps j)
  counted : ∀ c ∈ s.chunks, Counted (commitsOf s.commits c.id) c

/-! ## What a step keeps -/

section
variable {s t : BackfillState} {a : BackfillAction}

theorem Shape.none_of_prepared {j : Nat} (h : Shape (s.executions j) (s.steps j))
    (hp : (s.executions j).preparing = true ∨
      (∃ ids, s.executions j = .inRound ids ∧ ∀ id ∈ ids, s.steps j id = none)) (id : Uuid) :
    s.steps j id = none := by
  rcases hp with hp | ⟨ids, hphase, hnone⟩
  · refine h.quiet ?_ id
    cases hphase : s.executions j <;> simp_all [ExecutionPhase.quiet, ExecutionPhase.preparing]
  · cases hst : s.steps j id with
    | none => rfl
    | some st => rw [← hst, hnone id (h.within ids hphase id st hst)]

variable {steps : Uuid → Option StepPhase} {phase : ExecutionPhase} {commits : List PageCommit}
  {rows : List BackfillChunk}

theorem Shape.move {j : Nat} (h : Shape (s.executions j) (s.steps j)) (hmove : ExecutionMove s t a j phase steps) :
    Shape phase steps := by
  cases hmove with
  | prepared hp hphase =>
    have hnone := h.none_of_prepared hp
    refine ⟨h.named, fun _ => hnone, ?_⟩
    intro ids _ id st hst
    rw [hnone id] at hst
    cases hst
  | selected hphase _ =>
    refine ⟨h.named, fun _ => h.quiet (hphase ▸ rfl), ?_⟩
    intro ids hids
    cases hids
  | @marked due hphase _ =>
    refine ⟨?_, nofun, ?_⟩
    · intro id st hst
      obtain ⟨chunk, hchunk, rfl⟩ := Option.map_eq_some_iff.mp hst
      show chunk.id = id
      simpa using List.find?_some hchunk
    · intro ids hids id st hst
      cases hids
      obtain ⟨chunk, hchunk, rfl⟩ := Option.map_eq_some_iff.mp hst
      have hid : chunk.id = id := by simpa using List.find?_some hchunk
      exact List.mem_map.mpr ⟨chunk, List.mem_of_find?_eq_some hchunk, hid⟩
  | @stepped id old new hold hnew _ =>
    refine ⟨?_, ?_, ?_⟩
    · intro id' st hst
      by_cases hid : id' = id
      · rw [hid, setAt_same] at hst
        cases hst
        rw [hid, hnew]
        exact h.named id old hold
      · rw [setAt_other _ _ hid] at hst
        exact h.named id' st hst
    · intro hq
      rw [h.quiet hq id] at hold
      cases hold
    · intro ids hids id' st hst
      by_cases hid : id' = id
      · exact hid ▸ h.within ids hids id old hold
      · rw [setAt_other _ _ hid] at hst
        exact h.within ids hids id' st hst
  | @ended id old hold _ =>
    have hsub : ∀ id' st, setAt (s.steps j) id none id' = some st → s.steps j id' = some st := by
      intro id' st hst
      by_cases hid : id' = id
      · rw [hid, setAt_same] at hst
        cases hst
      · rwa [setAt_other _ _ hid] at hst
    refine ⟨fun id' st hst => h.named id' st (hsub id' st hst), ?_,
      fun ids hids id' st hst => h.within ids hids id' st (hsub id' st hst)⟩
    intro hq
    rw [h.quiet hq id] at hold
    cases hold
  | closing hm hr hp _ =>
    refine ⟨h.named, ?_, fun ids hids => absurd hids (hr ids)⟩
    intro hq
    cases phase <;> simp_all [ExecutionPhase.quiet]
  | crashed => exact ⟨nofun, fun _ _ => rfl, nofun⟩

theorem ChunksChange.foreign (h : LeaseInv s) (hC : Fenced s a) (hc : ChunksChange s a rows commits)
    (hother : ∀ j, a.execution = some j → s.latest ≠ some j) :
    rows = s.chunks ∨ a = .retryFailed ∧ rows = retryFailed s.chunks := by
  cases hc with
  | same => exact .inl rfl
  | retried => exact .inr ⟨rfl, rfl⟩
  | @reset j _ =>
    rcases hC with hlatest | hnone
    · exact absurd hlatest (hother j rfl)
    · exact .inl (Table.update_none fun c hc => by simpa using hnone c hc)
  | @marked j => exact absurd hC (hother j rfl)
  | @committed j => exact absurd hC (hother j rfl)
  | @failed j => exact absurd hC (hother j rfl)
  | @cleaned j id chunk hst =>
    rcases hC with hlatest | hnone
    · exact absurd hlatest (hother j rfl)
    · refine .inl (Table.update_none fun c hc => ?_)
      have hid : chunk.id = id := (h.shape j).named id _ hst
      by_cases hcid : c.id = id
      · simp [hnone c hc hcid]
      · simp [hid, hcid]

theorem RoundOk.foreign (h : RoundOk s.chunks phase steps)
    (hrows : rows = s.chunks ∨ a = .retryFailed ∧ rows = retryFailed s.chunks) :
    RoundOk rows phase steps := by
  rcases hrows with rfl | ⟨-, rfl⟩
  · exact h
  · constructor
    · intro due hphase chunk hchunk
      exact (h.due due hphase chunk hchunk).update fun c _ hs => by simp [hs]
    · intro id st hst
      exact (h.inFlight id st hst).update fun c _ hs => by simp [hs]

theorem ChunksChange.ended {j : Nat}
    {id : Uuid} (h : Shape (s.executions j) (s.steps j)) (hc : ChunksChange s a rows commits)
    (ha : a = .commit j id ∨ a = .cleanup j id ∨ a = .recordFailure j id) {chunk : ChunkRow}
    (hid : chunk.id ≠ id) (howned : Owned s.chunks .running chunk) :
    Owned rows .running chunk := by
  cases hc with
  | same => exact howned
  | @committed j' id' chunk' page outcomes hst =>
    rcases ha with ha | ha | ha <;> cases ha
    have hnamed : chunk'.id = id := h.named id _ hst
    exact howned.update fun c hcid _ => by simp [hcid, hnamed, hid]
  | @cleaned j' id' chunk' hst =>
    rcases ha with ha | ha | ha <;> cases ha
    have hnamed : chunk'.id = id := h.named id _ hst
    exact howned.update fun c hcid _ => by simp [hcid, hnamed, hid]
  | @failed j' id' chunk' error hst =>
    rcases ha with ha | ha | ha <;> cases ha
    have hnamed : chunk'.id = id := h.named id _ hst
    exact howned.update fun c hcid _ => by simp [hcid, hnamed, hid]
  | _ => rcases ha with ha | ha | ha <;> cases ha

theorem RoundOk.move {j : Nat} (hshape : Shape (s.executions j) (s.steps j))
    (h : RoundOk s.chunks (s.executions j) (s.steps j))
    (hc : ChunksChange s a t.chunks t.commits) (hmove : ExecutionMove s t a j phase steps) :
    RoundOk t.chunks phase steps := by
  cases hmove with
  | prepared hp hphase =>
    constructor
    · intro due hdue
      rw [hdue] at hphase
      cases hphase
    · intro id st hst
      rw [hshape.none_of_prepared hp id] at hst
      cases hst
  | selected hphase hrows =>
    constructor
    · intro due hdue chunk hchunk
      cases hdue
      rw [hrows]
      exact owned_due hchunk
    · intro id st hst
      rw [hshape.quiet (hphase ▸ rfl) id] at hst
      cases hst
  | @marked due hphase hrows =>
    constructor
    · intro due' hdue
      cases hdue
    · intro id st hst
      obtain ⟨chunk, hfind, rfl⟩ := Option.map_eq_some_iff.mp hst
      have hchunk := List.mem_of_find?_eq_some hfind
      rw [hrows]
      exact (h.due due hphase chunk hchunk).mark (List.mem_map.mpr ⟨chunk, hchunk, rfl⟩)
  | @stepped id old new hold hnew hrows =>
    rw [hrows]
    refine ⟨h.due, fun id' st hst => ?_⟩
    by_cases hid : id' = id
    · rw [hid, setAt_same] at hst
      cases hst
      exact hnew ▸ h.inFlight id old hold
    · rw [setAt_other _ _ hid] at hst
      exact h.inFlight id' st hst
  | @ended id old hold ha =>
    constructor
    · intro due hdue
      rw [hshape.quiet (hdue ▸ rfl) id] at hold
      cases hold
    · intro id' st hst
      by_cases hid : id' = id
      · rw [hid, setAt_same] at hst
        cases hst
      · rw [setAt_other _ _ hid] at hst
        have hne : st.chunk.id ≠ id := by rw [hshape.named id' st hst]; exact hid
        exact hc.ended hshape ha hne (h.inFlight id' st hst)
  | closing hm _ _ hrows =>
    rw [hrows]
    exact ⟨fun due hdue => absurd hdue (hm due), h.inFlight⟩
  | crashed => exact ⟨nofun, nofun⟩

/-- A statement that counts nothing, on chunks that are not done. -/
structure Uncounted (p : BackfillChunk → Bool) (f : BackfillChunk → BackfillChunk)
    (chunks : List BackfillChunk) : Prop where
  progress : ∀ c, SameProgress c (f c)
  before : ∀ c ∈ chunks, p c = true → c.status ≠ .done
  after : ∀ c, (f c).status ≠ .done

/-- What a statement may do to the chunks and the log. -/
structure ChunksKept (s : BackfillState) (rows : List BackfillChunk) (commits : List PageCommit) :
    Prop where
  ids : (rows.map (·.id)).Nodup
  done_stays : ∀ c ∈ s.chunks, c.status = .done → c ∈ rows
  counted : ∀ c ∈ rows, Counted (commitsOf commits c.id) c

theorem ChunksKept.uncounted (h : LeaseInv s) {p : BackfillChunk → Bool}
    {f : BackfillChunk → BackfillChunk} (hf : Uncounted p f s.chunks) :
    ChunksKept s (Table.update p f s.chunks) s.commits where
  ids := by
    have hmap := Table.update_column (p := p) (fun c : BackfillChunk => c.id)
      (fun c => (hf.progress c).id) s.chunks
    rw [hmap]
    exact h.ids
  done_stays c hc hdone := by
    refine Table.mem_update_of_not hc ?_
    by_contra hp
    exact hf.before c hc (by simpa using hp) hdone
  counted c hc := by
    rcases Table.mem_update.mp hc with ⟨q, hq, hp, rfl⟩ | ⟨hc, -⟩
    · rw [(hf.progress q).id]
      exact (h.counted q hq).keep (hf.progress q) (hf.before q hq hp) (hf.after q)
    · exact h.counted c hc

theorem SameProgress.fail (now : Millis) (chunk : ChunkRow) (error : ChunkError)
    (c : BackfillChunk) : SameProgress c (c.fail now chunk error) := by
  cases error with
  | remote message retryable retryAfterMs =>
    cases retryable with
    | true =>
      simp only [BackfillChunk.fail]
      split <;> exact ⟨rfl, rfl, rfl, rfl, rfl, rfl⟩
    | false => exact ⟨rfl, rfl, rfl, rfl, rfl, rfl⟩
  | _ => exact ⟨rfl, rfl, rfl, rfl, rfl, rfl⟩

theorem fail_not_done (now : Millis) (chunk : ChunkRow) (error : ChunkError) (c : BackfillChunk) :
    (c.fail now chunk error).status ≠ .done := by
  cases error with
  | remote message retryable retryAfterMs =>
    cases retryable with
    | true =>
      simp only [BackfillChunk.fail]
      split <;> simp
    | false => simp [BackfillChunk.fail]
  | _ => simp [BackfillChunk.fail]

theorem ChunksKept.committed (h : LeaseInv s) {chunk : ChunkRow} {page : BackfillPage}
    {outcomes : List RecordOutcome} (howned : Owned s.chunks .running chunk) :
    ChunksKept s (Table.update (·.id == chunk.id) (·.advance page outcomes) s.chunks)
      (s.commits ++ [⟨chunk.id, chunk.pageToken, page, outcomes⟩]) where
  ids := by
    have hmap := Table.update_column (p := (·.id == chunk.id)) (fun c : BackfillChunk => c.id)
      (f := (·.advance page outcomes)) (fun c => rfl) s.chunks
    rw [hmap]
    exact h.ids
  done_stays c hc hdone := by
    refine Table.mem_update_of_not hc ?_
    by_contra hp
    have hrow := howned.row h.ids hc (by simpa using hp)
    rw [hdone] at hrow
    cases hrow.1
  counted c hc := by
    rcases Table.mem_update.mp hc with ⟨q, hq, hp, rfl⟩ | ⟨hc, hp⟩
    · have hid : q.id = chunk.id := by simpa using hp
      obtain ⟨hstatus, htoken⟩ := howned.row h.ids hq hid
      have hlog : commitsOf (s.commits ++ [⟨chunk.id, chunk.pageToken, page, outcomes⟩])
          (q.advance page outcomes).id =
          commitsOf s.commits q.id ++ [⟨chunk.id, chunk.pageToken, page, outcomes⟩] := by
        simp [commitsOf, BackfillChunk.advance, hid]
      rw [hlog]
      refine (h.counted q hq).advance ?_ htoken.symm
      rw [hstatus]
      simp
    · have hid : chunk.id ≠ c.id := fun heq => by simp [heq] at hp
      have hlog : commitsOf (s.commits ++ [⟨chunk.id, chunk.pageToken, page, outcomes⟩]) c.id =
          commitsOf s.commits c.id := by
        simp [commitsOf, hid]
      rw [hlog]
      exact h.counted c hc

theorem ChunksKept.change (h : LeaseInv s) (hC : Fenced s a) (hc : ChunksChange s a rows commits) :
    ChunksKept s rows commits := by
  cases hc with
  | same => exact ⟨h.ids, fun c hc _ => hc, h.counted⟩
  | retried =>
    refine .uncounted h ⟨fun c => ⟨rfl, rfl, rfl, rfl, rfl, rfl⟩, fun c _ hp => ?_, nofun⟩
    have hs : c.status = .failed := by simpa using hp
    simp [hs]
  | reset =>
    refine .uncounted h ⟨fun c => ⟨rfl, rfl, rfl, rfl, rfl, rfl⟩, fun c _ hp => ?_, nofun⟩
    have hs : c.status = .running := by simpa using hp
    simp [hs]
  | @marked j due hphase =>
    refine .uncounted h ⟨fun c => ⟨rfl, rfl, rfl, rfl, rfl, rfl⟩, fun c hc hp => ?_, nofun⟩
    obtain ⟨chunk, hchunk, hid⟩ := List.mem_map.mp (List.contains_iff_mem.mp hp)
    have howned := (h.holder j hC).due due hphase chunk hchunk
    simp [(howned.row h.ids hc hid.symm).1]
  | @committed j id chunk page outcomes hst =>
    exact .committed h ((h.holder j hC).inFlight id _ hst)
  | cleaned =>
    refine .uncounted h ⟨fun c => ⟨rfl, rfl, rfl, rfl, rfl, rfl⟩, fun c _ hp => ?_, nofun⟩
    have hs : c.status = .running := by
      simp only [Bool.and_eq_true, beq_iff_eq] at hp
      exact hp.2
    simp [hs]
  | @failed j id chunk error hst =>
    refine .uncounted h ⟨SameProgress.fail _ _ _, fun c hc hp => ?_, fail_not_done _ _ _⟩
    have howned : Owned s.chunks .running chunk := (h.holder j hC).inFlight id _ hst
    simp [(howned.row h.ids hc (by simpa using hp)).1]

theorem LeaseInv.start (now : Millis) (plan : ChunkPlan) : LeaseInv (.start now plan) where
  ids := by
    have hids : ((plan.ids.mapIdx (plannedChunk plan)).map (·.id)) = plan.ids := by
      refine List.ext_getElem (by simp) fun i _ _ => ?_
      simp [plannedChunk]
    exact hids ▸ plan.distinct
  shape j := ⟨nofun, fun _ _ => rfl, nofun⟩
  holder j h := by cases h
  counted c hc := by
    obtain ⟨i, hi, rfl⟩ := List.mem_mapIdx.mp hc
    exact Counted.planned plan i _

theorem LeaseInv.step (h : LeaseInv s) (hC : Fenced s a) (hstep : backfillStep s a = some t) :
    LeaseInv t where
  ids := (ChunksKept.change h hC (chunks_step hstep)).ids
  counted := (ChunksKept.change h hC (chunks_step hstep)).counted
  shape j := by
    rcases moves_step hstep with ⟨-, he, hs⟩ | ⟨k, phase, steps, -, he, hs, hmove⟩
    · rw [he, hs]
      exact h.shape j
    · rw [he, hs]
      by_cases hjk : j = k
      · rw [hjk, setAt_same, setAt_same]
        exact (h.shape k).move hmove
      · rw [setAt_other _ _ hjk, setAt_other _ _ hjk]
        exact h.shape j
  holder j hj := by
    -- an execution that has just claimed the job has no step under way
    have hbefore : RoundOk s.chunks (s.executions j) (s.steps j) := by
      rcases latest_step hstep with hsame | ⟨k, -, hk, hidle⟩
      · exact h.holder j (hsame ▸ hj)
      · have hjk : j = k := by
          rw [hk] at hj
          exact (Option.some.inj hj).symm
        subst hjk
        constructor
        · intro due hdue
          rw [hidle] at hdue
          cases hdue
        · intro id st hst
          rw [(h.shape j).quiet (hidle ▸ rfl) id] at hst
          cases hst
    have hforeign : (∀ k, a.execution = some k → s.latest ≠ some k) →
        t.executions j = s.executions j → t.steps j = s.steps j →
        RoundOk t.chunks (t.executions j) (t.steps j) := by
      intro hother he hs
      rw [he, hs]
      exact hbefore.foreign ((chunks_step hstep).foreign h hC hother)
    rcases moves_step hstep with ⟨hnone, he, hs⟩ | ⟨k, phase, steps, hk, he, hs, hmove⟩
    · refine hforeign ?_ (he ▸ rfl) (hs ▸ rfl)
      intro k hk
      rw [hnone] at hk
      cases hk
    · by_cases hjk : j = k
      · subst hjk
        rw [he, hs, setAt_same, setAt_same]
        exact hbefore.move (h.shape j) (chunks_step hstep) hmove
      · refine hforeign ?_ (by rw [he, setAt_other _ _ hjk]) (by rw [hs, setAt_other _ _ hjk])
        intro k' hk' hlatest
        rw [hk] at hk'
        cases hk'
        rcases latest_step hstep with hsame | ⟨i, rfl, hi, -⟩
        · rw [hj, hlatest] at hsame
          exact hjk (Option.some.inj hsame)
        · rw [hj] at hi
          exact hjk ((Option.some.inj hi).trans (Option.some.inj hk))

end

/-- What the lease is for. -/
structure OnlyHolderChanges (s : BackfillState) (a : BackfillAction) (t : BackfillState) : Prop where
  taken_over : ∀ j, a.execution = some j → TakenOver s j → t.chunks = s.chunks
  done_stays : ∀ c ∈ s.chunks, c.status = .done → c ∈ t.chunks
  counted : ∀ c ∈ t.chunks, Counted (commitsOf t.commits c.id) c

theorem LeaseInv.onlyHolder {s t : BackfillState} {a : BackfillAction} (h : LeaseInv s)
    (hC : Fenced s a) (hstep : backfillStep s a = some t) : OnlyHolderChanges s a t where
  taken_over j ha htaken := by
    obtain ⟨k, hk, hkj⟩ := htaken
    have hother : ∀ i, a.execution = some i → s.latest ≠ some i := by
      intro i hi hlatest
      rw [ha] at hi
      rw [hk] at hlatest
      exact hkj ((Option.some.inj hlatest).trans (Option.some.inj hi).symm)
    rcases (chunks_step hstep).foreign h hC hother with hsame | ⟨rfl, -⟩
    · exact hsame
    · cases ha
  done_stays := (ChunksKept.change h hC (chunks_step hstep)).done_stays
  counted := (ChunksKept.change h hC (chunks_step hstep)).counted

def examplePlan : ChunkPlan where
  ids := [1]
  window _ := (0, 60000)
  distinct := List.nodup_singleton 1

def takesChunk (j : Nat) : List BackfillAction :=
  [.claim j, .connect j true, .reset j, .look j, .extend j, .select j 1 false, .mark j]

def lastPage : BackfillPage := ⟨[⟨"A-1", "2024-01-01"⟩], none⟩

def readsPage (j : Nat) (outcome : RecordOutcome) : List BackfillAction :=
  [.fetch j 1 lastPage, .hold j 1 [outcome]]

/-- The request of worker 0 takes longer than its lease, and fails when
worker 1 has read the chunk. -/
def slowRequest : List BackfillAction :=
  [.command .start] ++ takesChunk 0 ++ [.tick 120000] ++ takesChunk 1 ++ readsPage 1 .enqueued ++
    [.commit 1 1, .fetchFailed 0 1 (.remote "timed out after 15000ms" true none)]

/-- The lease of worker 0 runs out between the check and the update of its
transaction. -/
def slowTransaction : List BackfillAction :=
  [.command .start] ++ takesChunk 0 ++ readsPage 0 .enqueued ++ [.tick 120000] ++ takesChunk 1 ++
    readsPage 1 .duplicate ++ [.commit 1 1, .commit 0 1]

end Cadena.Connectors.Backfill
