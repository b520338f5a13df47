import Cadena.NativeQuery.PublishedQuery

/-!
# The watermark of a scheduled query

A run reads a page from the watermark that its claim returned, and stores the
watermark after the page under the lease of that claim. The invariant says
that whoever holds the lease has read the watermark that is stored.
-/

namespace Cadena.NativeQuery.Scheduled

open Cadena.Base
open Cadena.Connectors (ExternalRecordPayload ConnectorRecord IngestionEntry)

variable {P : Platform} {orgId : Uuid} {connector : ConnectorRecord} {s t : QueryState P}
  {a : QueryAction}

/-! ## What a step may do to the watermark -/

/-- No watermark yet, or one that is not later. -/
def NotLater : Option Micros → Option Micros → Prop
  | none, _ => True
  | some _, none => False
  | some w, some w' => w ≤ w'

theorem NotLater.refl (w : Option Micros) : NotLater w w := by
  cases w with
  | none => trivial
  | some w => exact Int.le_refl w

theorem NotLater.trans {u v w : Option Micros} (huv : NotLater u v) (hvw : NotLater v w) :
    NotLater u w := by
  cases u with
  | none => trivial
  | some u =>
    cases v with
    | none => exact huv.elim
    | some v =>
      cases w with
      | none => exact hvw.elim
      | some w => exact Int.le_trans huv hvw

/-- The action is the `UPDATE` of a publication. -/
def QueryAction.Publishes : QueryAction → Prop
  | .publish .. => True
  | _ => False

/-- The run that acts, once it has claimed the query. -/
def QueryAction.run? : QueryAction → Option Nat
  | .connect k .. | .fetch k .. | .commit k .. | .rollback k .. => some k
  | _ => none

/-- The record is in the queue, put there now or before. -/
def Enqueued (P : Platform) (connector : ConnectorRecord) (entityType : String)
    (queue : IngestionTable) (record : ExternalRecordPayload) : Prop :=
  ∃ e ∈ queue.entries, e.connectorId = connector.id ∧
    e.dedupeKey = dedupeKey P connector.provider entityType record

/-- The action is the transaction of a run that read its page from the
watermark that is stored, and every record of the page is enqueued by it. -/
def AdvancesWithPage (connector : ConnectorRecord) (s : QueryState P) (a : QueryAction)
    (t : QueryState P) : Prop :=
  ∃ k definition prior page, s.runs k = some (.fetched definition prior page) ∧
    (∃ ids now workerNow, a = .commit k ids now workerNow) ∧
    s.row.watermark.map toMillis = some prior ∧
    ∀ record ∈ page.records, Enqueued P connector definition.entityType t.queue record

structure WatermarkSafe (connector : ConnectorRecord) (s : QueryState P) (a : QueryAction)
    (t : QueryState P) : Prop where
  /-- Between two publications the watermark never decreases, -/
  monotone : ¬ a.Publishes → NotLater s.row.watermark t.row.watermark
  /-- and changes with the page that was read from it. -/
  advances : ¬ a.Publishes → t.row.watermark ≠ s.row.watermark →
    AdvancesWithPage connector s a t
  /-- A run without the lease changes nothing. -/
  lost : ∀ k, a.run? = some k → s.row.leaseOwner ≠ some k →
    t.row = s.row ∧ t.queue = s.queue

/-- A publication that moves the watermark finds no run under the lease, and a
page reaches past the part of a millisecond that the runtime does not read. -/
def Fenced (s : QueryState P) : QueryAction → Prop
  | .publish i _ _ =>
    ∀ plan keep, s.requests i = some (.guarded plan keep) →
      keep = true ∨ s.row.leaseOwner = none
  | .commit k _ _ _ =>
    ∀ definition prior page w, s.runs k = some (.fetched definition prior page) →
      mayCommit s.row k = true → s.row.watermark = some w →
      ofMillis (toMillis w) = w ∨ toMillis w < page.nextCursor
  | _ => True

theorem acceptRecord_keeps {entityType : String} {id : Uuid} {record : ExternalRecordPayload}
    {table : IngestionTable} {e : IngestionEntry} (h : e ∈ table.entries) :
    e ∈ (acceptRecord P orgId connector entityType id record table).1.entries := by
  unfold acceptRecord
  simp only
  split
  · exact h
  · exact List.mem_append_left _ h

theorem acceptRecord_enqueued (entityType : String) (id : Uuid) (record : ExternalRecordPayload)
    (table : IngestionTable) :
    Enqueued P connector entityType
      (acceptRecord P orgId connector entityType id record table).1 record := by
  unfold acceptRecord
  simp only
  split
  · rename_i htaken
    obtain ⟨e, he, hkey⟩ := List.any_eq_true.mp htaken
    simp only [Bool.and_eq_true, decide_eq_true_eq] at hkey
    exact ⟨e, he, hkey.1, hkey.2⟩
  · exact ⟨_, List.mem_append_right _ (List.mem_singleton.mpr rfl), rfl, rfl⟩

theorem acceptRecords_keeps {entityType : String} {ids : Nat → Uuid}
    {records : List ExternalRecordPayload} {e : IngestionEntry} :
    ∀ {i : Nat} {table : IngestionTable}, e ∈ table.entries →
      e ∈ (acceptRecords P orgId connector entityType ids i records table).1.entries := by
  induction records with
  | nil => exact fun h => h
  | cons record rest ih =>
    intro i table h
    exact ih (acceptRecord_keeps h)

theorem acceptRecords_enqueued {entityType : String} {ids : Nat → Uuid}
    {records : List ExternalRecordPayload} :
    ∀ {i : Nat} {table : IngestionTable}, ∀ record ∈ records,
      Enqueued P connector entityType
        (acceptRecords P orgId connector entityType ids i records table).1 record := by
  induction records with
  | nil => nofun
  | cons first rest ih =>
    intro i table record hrecord
    rcases List.mem_cons.mp hrecord with rfl | hrest
    · obtain ⟨e, he, hconnector, hkey⟩ : Enqueued P connector entityType
          (acceptRecord P orgId connector entityType (ids i) record table).1 record :=
        acceptRecord_enqueued entityType (ids i) record table
      have hkept : e ∈ (acceptRecords P orgId connector entityType ids (i + 1) rest
          (acceptRecord P orgId connector entityType (ids i) record table).1).1.entries :=
        acceptRecords_keeps he
      exact ⟨e, hkept, hconnector, hkey⟩
    · exact ih record hrest

/-- What the run has read, if it still has something to write. -/
def Run.HasRead (w : Option Micros) : Run → Prop
  | .found => False
  | .leased definition => definition.watermark = w
  | .fetching _ prior => w.map toMillis = some prior
  | .fetched _ prior _ => w.map toMillis = some prior
  | .ended => True

def LeaseInv (s : QueryState P) : Prop :=
  ∀ k, s.row.leaseOwner = some k → ∃ run, s.runs k = some run ∧ run.HasRead s.row.watermark

theorem LeaseInv.start {row : NativeQueryDefinition} (queue : IngestionTable)
    (hdraft : row.IsDraft) : LeaseInv (QueryState.start P row queue) := by
  intro k hk
  have hlease : row.leaseOwner = some k := hk
  rw [hdraft.lease] at hlease
  cases hlease

theorem LeaseInv.keeps (h : LeaseInv s) (hlease : t.row.leaseOwner = s.row.leaseOwner)
    (hwatermark : t.row.watermark = s.row.watermark) (hruns : t.runs = s.runs) : LeaseInv t := by
  intro k hk
  rw [hwatermark, hruns]
  exact h k (hlease ▸ hk)

theorem LeaseInv.setRun (h : LeaseInv s) (k : Nat) (run : Run)
    (hrun : s.row.leaseOwner = some k → run.HasRead s.row.watermark) :
    LeaseInv (s.setRun k run) := by
  intro j hj
  by_cases hjk : j = k
  · subst hjk
    exact ⟨run, setAt_same _ _ _, hrun hj⟩
  · obtain ⟨old, hold, hread⟩ := h j hj
    exact ⟨old, (setAt_other _ _ hjk).trans hold, hread⟩

theorem LeaseInv.free (hfree : t.row.leaseOwner = none) : LeaseInv t := by
  intro k hk
  rw [hfree] at hk
  cases hk

theorem LeaseInv.updateLeased (h : LeaseInv s) (k : Nat)
    {set : NativeQueryDefinition → NativeQueryDefinition} (hset : ∀ r, (set r).leaseOwner = none) :
    LeaseInv ((s.updateLeased k set).setRun k .ended) := by
  unfold QueryState.updateLeased
  split
  · exact .free (hset s.row)
  · exact h.setRun k .ended fun _ => trivial

variable {target : Option QueryTarget} {i k : Nat} {now : Micros} {workerNow : Millis}

theorem LeaseInv.edit {dto : UpdateNativeQueryDto}
    {now : Millis} (h : LeaseInv s) (hstep : editStep s i dto target now = some t) :
    LeaseInv t ∧ t.row.watermark = s.row.watermark := by
  unfold editStep at hstep
  split at hstep
  · split at hstep
    · cases hstep
      exact ⟨h.keeps rfl rfl rfl, rfl⟩
    · rename_i set hset
      cases hstep
      obtain ⟨-, -, -, hwatermark, hlease⟩ := editOf_row hset s.row
      exact ⟨h.keeps hlease hwatermark rfl, hwatermark⟩
  · cases hstep

theorem LeaseInv.guard (h : LeaseInv s) (hstep : guardStep s i target = some t) :
    LeaseInv t ∧ t.row.watermark = s.row.watermark := by
  unfold guardStep at hstep
  split at hstep
  · split at hstep <;> cases hstep <;> exact ⟨h.keeps rfl rfl rfl, rfl⟩
  · cases hstep

theorem LeaseInv.publish {actorId : String} (h : LeaseInv s)
    (hC : Fenced s (.publish i actorId now)) (hstep : publishStep s i actorId now = some t) :
    LeaseInv t := by
  unfold publishStep at hstep
  split at hstep
  · rename_i plan keep hrequest
    cases hstep
    rcases hC plan keep hrequest with hkeep | hfree
    · refine h.keeps rfl ?_ rfl
      simp [QueryState.setRequest, publishRow, hkeep]
    · exact .free hfree
  · cases hstep

theorem LeaseInv.disable (hstep : disableStep s i = some t) : LeaseInv t ∧ t.row.watermark = s.row.watermark := by
  unfold disableStep at hstep
  split at hstep
  · cases hstep
    exact ⟨.free rfl, rfl⟩
  · cases hstep

/-! ## Steps of the runs -/

/-- A step of a run other than its transaction: the watermark and the queue
stay, and so does the row when the lease is lost. -/
structure Idle (s t : QueryState P) (k : Nat) : Prop where
  inv : LeaseInv t
  watermark : t.row.watermark = s.row.watermark
  queue : t.queue = s.queue
  lost : s.row.leaseOwner ≠ some k → t.row = s.row

theorem Idle.setRun (h : LeaseInv s) (k : Nat) (run : Run)
    (hrun : s.row.leaseOwner = some k → run.HasRead s.row.watermark) : Idle s (s.setRun k run) k :=
  ⟨h.setRun k run hrun, rfl, rfl, fun _ => rfl⟩

theorem Idle.updateLeased (h : LeaseInv s) (k : Nat)
    {set : NativeQueryDefinition → NativeQueryDefinition} (hlease : ∀ r, (set r).leaseOwner = none)
    (hwatermark : ∀ r, (set r).watermark = r.watermark) :
    Idle s ((s.updateLeased k set).setRun k .ended) k where
  inv := h.updateLeased k hlease
  watermark := by
    unfold QueryState.updateLeased
    split
    · exact hwatermark s.row
    · rfl
  queue := by
    unfold QueryState.updateLeased
    split <;> rfl
  lost hlost := by
    unfold QueryState.updateLeased
    rw [if_neg hlost]
    rfl

theorem Idle.fail (h : LeaseInv s) (k : Nat) (definition : NativeQueryDefinition)
    (message : String) (retryAfterSeconds : Nat) (now : Micros) (workerNow : Millis) :
    Idle s (failRun s k definition message retryAfterSeconds now workerNow) k :=
  .updateLeased h k (fun _ => rfl) (fun _ => rfl)

theorem Idle.connect {unavailable : String} (h : LeaseInv s)
    (hstep : connectStep s k target unavailable now workerNow = some t) : Idle s t k := by
  unfold connectStep at hstep
  split at hstep
  · rename_i definition hphase
    split at hstep
    · cases hstep
      exact .fail h ..
    · split at hstep
      · cases hstep
        exact .updateLeased h k (fun _ => rfl) (fun _ => rfl)
      · simp only at hstep
        split at hstep
        · cases hstep
          exact .fail h ..
        · split at hstep
          · cases hstep
            exact .fail h ..
          · rename_i watermark hread
            cases hstep
            refine .setRun h k _ fun hlease => ?_
            obtain ⟨run, hrun, hhas⟩ := h k hlease
            rw [hphase, Option.some.injEq] at hrun
            rw [← hrun] at hhas
            -- the row still has the watermark of the claim
            have hw : definition.watermark = s.row.watermark := hhas
            simp [Run.HasRead, ← hw, hread]
  · cases hstep

theorem Idle.fetch {outcome : FetchOutcome}
    (h : LeaseInv s) (hstep : fetchStep s k outcome now workerNow = some t) : Idle s t k := by
  unfold fetchStep at hstep
  split at hstep
  · rename_i definition prior hphase
    split at hstep
    · cases hstep
      refine .setRun h k _ fun hlease => ?_
      obtain ⟨run, hrun, hhas⟩ := h k hlease
      rw [hphase, Option.some.injEq] at hrun
      rw [← hrun] at hhas
      exact hhas
    · cases hstep
      exact .updateLeased h k (fun _ => rfl) (fun _ => rfl)
    · cases hstep
      exact .fail h ..
  · cases hstep

theorem Idle.rollback {message : String}
    (h : LeaseInv s) (hstep : rollbackStep s k message now workerNow = some t) : Idle s t k := by
  unfold rollbackStep at hstep
  split at hstep
  · cases hstep
    exact .fail h ..
  · cases hstep

theorem le_of_millis {w : Int} {read next : Int} (hfloor : w < (read + 1) * 1000)
    (hle : read ≤ next) (h : read * 1000 = w ∨ read < next) : w ≤ next * 1000 := by
  omega

theorem notLater_nextWatermark {w : Micros} {prior : Millis} {page : QueryPage}
    (hprior : toMillis w = prior) (h : ofMillis (toMillis w) = w ∨ toMillis w < page.nextCursor) :
    w ≤ ofMillis (nextWatermark prior page) := by
  refine le_of_millis (Int.lt_ediv_add_one_mul_self w (by decide)) ?_ (h.imp id fun hlater => ?_)
  · exact hprior ▸ Int.le_max_left _ _
  · exact Int.lt_of_lt_of_le hlater (Int.le_max_right _ _)

/-- The transaction of a run: it keeps everything without the lease, and
stores the watermark after its page with it. -/
theorem LeaseInv.commit {ids : Nat → Uuid} (h : LeaseInv s) (hC : Fenced s (.commit k ids now workerNow))
    (hstep : commitStep orgId connector s k ids now workerNow = some t) :
    LeaseInv t ∧ WatermarkSafe connector s (.commit k ids now workerNow) t := by
  unfold commitStep at hstep
  split at hstep
  · rename_i definition prior page hphase
    split at hstep
    · rename_i hmay
      cases hstep
      have hlease : s.row.leaseOwner = some k := by
        simp only [mayCommit, Bool.and_eq_true, decide_eq_true_eq] at hmay
        exact hmay.1
      obtain ⟨run, hrun, hhas⟩ := h k hlease
      rw [hphase, Option.some.injEq] at hrun
      rw [← hrun] at hhas
      have hread : s.row.watermark.map toMillis = some prior := hhas
      obtain ⟨w, hw, hprior⟩ := Option.map_eq_some_iff.mp hread
      refine ⟨.free rfl, fun _ => ?_, fun _ _ => ?_, fun j hj hlost => ?_⟩
      · rw [hw]
        exact notLater_nextWatermark hprior (hC definition prior page w hphase hmay hw)
      · exact ⟨k, definition, prior, page, hphase, ⟨ids, now, workerNow, rfl⟩, hread,
          acceptRecords_enqueued⟩
      · cases hj
        exact absurd hlease hlost
    · cases hstep
      exact ⟨h.setRun k .ended fun _ => trivial, fun _ => .refl _, fun _ hne => absurd rfl hne,
        fun _ _ _ => ⟨rfl, rfl⟩⟩
  · cases hstep

/-! ## The claim -/

theorem WatermarkSafe.same (hwatermark : t.row.watermark = s.row.watermark)
    (hrun : a.run? = none) : WatermarkSafe connector s a t where
  monotone _ := hwatermark ▸ .refl _
  advances _ hne := absurd hwatermark hne
  lost k hk := by
    rw [hrun] at hk
    cases hk

theorem Idle.safe (h : Idle s t k) (hrun : a.run? = some k) : WatermarkSafe connector s a t where
  monotone _ := h.watermark ▸ .refl _
  advances _ hne := absurd h.watermark hne
  lost j hj hlost := by
    rw [hrun, Option.some.injEq] at hj
    subst hj
    exact ⟨h.lost hlost, h.queue⟩

theorem LeaseInv.step (h : LeaseInv s) (hC : Fenced s a)
    (hstep : queryStep P orgId connector s a = some t) :
    LeaseInv t ∧ WatermarkSafe connector s a t := by
  cases a with
  | read i kind =>
    simp only [queryStep, readStep] at hstep
    split at hstep
    · cases hstep
      exact ⟨h.keeps rfl rfl rfl, .same rfl rfl⟩
    · cases hstep
  | edit =>
    obtain ⟨hinv, hwatermark⟩ := h.edit hstep
    exact ⟨hinv, .same hwatermark rfl⟩
  | guard =>
    obtain ⟨hinv, hwatermark⟩ := h.guard hstep
    exact ⟨hinv, .same hwatermark rfl⟩
  | publish =>
    refine ⟨h.publish hC hstep, fun hnot => absurd trivial hnot, fun hnot => absurd trivial hnot,
      fun _ hk => ?_⟩
    cases hk
  | disable =>
    obtain ⟨hinv, hwatermark⟩ := LeaseInv.disable hstep
    exact ⟨hinv, .same hwatermark rfl⟩
  | find k manual now =>
    simp only [queryStep, findStep] at hstep
    split at hstep
    · rename_i hnone
      split at hstep
      · cases hstep
        refine ⟨h.setRun k .found fun hlease => ?_, .same rfl rfl⟩
        obtain ⟨run, hrun, -⟩ := h k hlease
        rw [hnone] at hrun
        cases hrun
      · cases hstep
    · cases hstep
  | lease k now =>
    simp only [queryStep, leaseStep] at hstep
    split at hstep
    · cases hstep
      refine ⟨fun j hj => ?_, .same rfl rfl⟩
      obtain rfl : k = j := Option.some.inj hj
      exact ⟨_, setAt_same _ _ _, rfl⟩
    · cases hstep
  | connect =>
    have hidle := Idle.connect h hstep
    exact ⟨hidle.inv, hidle.safe rfl⟩
  | fetch =>
    have hidle := Idle.fetch h hstep
    exact ⟨hidle.inv, hidle.safe rfl⟩
  | commit => exact h.commit hC hstep
  | rollback =>
    have hidle := Idle.rollback h hstep
    exact ⟨hidle.inv, hidle.safe rfl⟩
  | others =>
    cases hstep
    exact ⟨h.keeps rfl rfl rfl, .same rfl rfl⟩

theorem LeaseInv.run {row : NativeQueryDefinition} {queue : IngestionTable}
    {actions : List QueryAction} (hdraft : row.IsDraft)
    (hrun : (scheduledQuery P orgId connector).run (.start P row queue) actions = some s)
    (hall : (scheduledQuery P orgId connector).Along Fenced (.start P row queue) actions) :
    LeaseInv s :=
  (scheduledQuery P orgId connector).along_invariant
    (fun h hC hs => (LeaseInv.step h hC hs).1) (LeaseInv.start queue hdraft) hall hrun

/-- Run 7 claims the published query and reads a page. -/
def readsQuery (page : QueryPage) : List QueryAction :=
  [.find 7 true 2000000, .lease 7 2000, .connect 7 (some jiraTarget) "" 2000000 2000,
    .fetch 7 (.page page) 2000000 2000]

def storesPage : QueryAction := .commit 7 (fun i => BitVec.ofNat 128 (100 + i)) 2000000 2000

/-- Published between two milliseconds, and nothing has changed since. -/
def emptyFirstRun : List QueryAction :=
  [.read 0 .publish, .guard 0 (some jiraTarget), .publish 0 "ann" 1000123] ++
    readsQuery ⟨[], 1000, false⟩

/-- Both publications have looked at the draft when the first one is made; the
second one is made while run 7 reads its page. -/
def publishedTwice : List QueryAction :=
  [.read 0 .publish, .read 1 .publish, .guard 0 (some jiraTarget), .guard 1 (some jiraTarget),
    .publish 0 "ann" 1000000] ++ readsQuery ⟨[], 1500, false⟩ ++ [.publish 1 "bob" 9000000]

/-- The watermark before and after the transaction of run 7. -/
def watermarks (actions : List QueryAction) : Option (Option Micros × Option Micros) :=
  let M := scheduledQuery .ascii 1 jiraConnector
  (M.run draftState actions).bind fun s =>
    (M.step s storesPage).map fun t => (s.row.watermark, t.row.watermark)

theorem decreases_of_watermarks {actions : List QueryAction} {w w' : Micros} (hlt : w' < w)
    (h : watermarks actions = some (some w, some w')) :
    ∃ s t, (scheduledQuery .ascii 1 jiraConnector).run draftState actions = some s ∧
      (scheduledQuery .ascii 1 jiraConnector).step s storesPage = some t ∧
      s.row.watermark = some w ∧ t.row.watermark = some w' ∧
      ¬ WatermarkSafe jiraConnector s storesPage t := by
  obtain ⟨s, hrun, hs⟩ := Option.bind_eq_some_iff.mp h
  obtain ⟨t, hstep, ht⟩ := Option.map_eq_some_iff.mp hs
  simp only [Prod.mk.injEq] at ht
  obtain ⟨hw, hw'⟩ := ht
  refine ⟨s, t, hrun, hstep, hw, hw', fun hsafe => ?_⟩
  have hle := hsafe.monotone (fun h => h)
  rw [hw, hw'] at hle
  exact absurd hlt (Int.not_lt.mpr hle)

end Cadena.NativeQuery.Scheduled
