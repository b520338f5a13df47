import Cadena.Monitoring.AlertView
import Cadena.Monitoring.OpenIncident

/-!
# Alerts that are tried again

Deliveries of the inbound queue, handled one attempt at a time. An attempt
claims its delivery, makes the statements of the handler, completes the delivery
and publishes its result; it may stop or throw after any of them, and a delivery
that has not been completed is handled from the beginning. A resolution may be
repeated from anywhere. A fired alert may not, once a statement of it has been
made, and no delivery may overtake an earlier one of its key (`Careful`).
-/

namespace Cadena.Monitoring

open Cadena.Base Cadena.Connectors Cadena.WorkItems

inductive DeliveryStatus where
  | queued | processing | completed | failed
  deriving DecidableEq

/-- What `integration_deliveries` holds on the progress of a delivery. -/
structure DeliveryRow where
  status : DeliveryStatus
  attempts : Nat
  deriving DecidableEq

/-- `started` are the deliveries in the order of their first attempts, and
`opened` the incidents with the deliveries that opened them. -/
structure AlertRetryState where
  db : AlertDb
  delivery : Nat → DeliveryRow
  started : List Nat
  opened : List (Nat × Uuid)

/-- How an attempt ends: after all its statements, or after some of them with
the process or with an exception. -/
inductive Ending where
  | completes
  | stops (n : Nat)
  | throws (n : Nat)
  deriving DecidableEq

def Ending.isStop : Ending → Bool
  | .stops _ => true
  | _ => false

def Ending.isThrow : Ending → Bool
  | .throws _ => true
  | _ => false

inductive AlertRetryAction where
  | attempt (d : Nat) (ctx : AlertContext) (ending : Ending)
  | restart

def maxProcessingAttempts : Nat := 3

/-- The status that the queue gives a delivery whose attempt has thrown. -/
def rejectedStatus (attempts : Nat) : DeliveryStatus :=
  if maxProcessingAttempts ≤ attempts then .failed else .queued

/-- The statements of a handling are followed by `completeDelivery` and by an
event. -/
def Handling.statements (handling : Handling) : Nat := handling.writes.length + 2

def Ending.executed (handling : Handling) : Ending → Nat
  | .completes => handling.statements
  | .stops n | .throws n => n

/-- The rows written by the first statements. -/
def Handling.written (handling : Handling) (n : Nat) : List AlertWrite :=
  handling.writes.take n ++
    (if handling.writes.length + 1 < n then [.publish "MonitoringAlertReceived"] else [])

def Handling.statusAfter (handling : Handling) (attempts : Nat) (ending : Ending) : DeliveryStatus :=
  match ending with
  | .throws _ => rejectedStatus attempts
  | .completes | .stops _ =>
    if handling.writes.length < ending.executed handling then .completed else .processing

section
variable (T : MonitoringTenant) (body : Nat → MonitoringDelivery)

def attemptAlert (s : AlertRetryState) (d : Nat) (ctx : AlertContext) (ending : Ending) :
    Option AlertRetryState :=
  -- `status IN ('queued', 'processing', 'failed')`: otherwise no row is claimed
  if (s.delivery d).status = .completed then some s
  else
    let attempts := (s.delivery d).attempts + 1
    let started := if s.started.contains d then s.started else s.started ++ [d]
    match handleDelivery T s.db (body d) ctx with
    | .error _ =>
      let status := if ending.isStop then .processing else rejectedStatus attempts
      some { s with delivery := setAt s.delivery d ⟨status, attempts⟩, started := started }
    | .ok handling =>
      if ending.isThrow ∧ handling.statements ≤ ending.executed handling then none
      else
        let written := handling.written (ending.executed handling)
        some
          { db := applyWrites s.db written
            delivery := setAt s.delivery d ⟨handling.statusAfter attempts ending, attempts⟩
            started := started
            opened := s.opened ++ (written.filterMap AlertWrite.opened).map fun id => (d, id) }

def alertRetryStep (s : AlertRetryState) : AlertRetryAction → Option AlertRetryState
  | .attempt d ctx ending => attemptAlert T body s d ctx ending
  | .restart =>
    some { s with delivery := fun d =>
      if (s.delivery d).status = .processing then { s.delivery d with status := .queued }
      else s.delivery d }

def alertRetries : System AlertRetryState AlertRetryAction := ⟨alertRetryStep T body⟩

/-- A tenant with items and no alerts, and its deliveries. -/
def accepted (item : Uuid → Option WorkItem) : AlertRetryState :=
  ⟨⟨fun _ => none, item, [], [], []⟩, fun _ => ⟨.queued, 0⟩, [], []⟩

/-- The key of a delivery. -/
def keyOf (d : Nat) : AlertKey := (body d).key T.platform

/-- The deliveries that have opened the incidents of a key, in order. -/
def openingsOf (s : AlertRetryState) (key : AlertKey) : List Nat :=
  (s.opened.map (·.1)).filter fun d => keyOf T body d == key

def occurrencesOf (s : AlertRetryState) (key : AlertKey) : Option Nat :=
  (s.db.artifact key).map (·.payload.occurrences)

def AllCompleted (s : AlertRetryState) (key : AlertKey) : Prop :=
  ∀ d ∈ s.started, keyOf T body d = key → (s.delivery d).status = .completed

/-- Nothing of a fired alert has been written, or all of it has and the delivery
has been completed. -/
def Ending.harmless (handling : Handling) : Ending → Prop
  | .completes => True
  | .stops n => n = 0 ∨ handling.writes.length < n
  | .throws n => n = 0

/-- An attempt that is made comes after the end of all other deliveries of its
key that have been started, and that of a fired alert ends harmlessly. -/
def Careful (s : AlertRetryState) : AlertRetryAction → Prop
  | .attempt d ctx ending =>
    (s.delivery d).status = .completed ∨
      ((∀ e ∈ s.started, keyOf T body e = keyOf T body d → e ≠ d →
          (s.delivery e).status = .completed) ∧
        ((body d).eventType = .alertFired → ∀ handling,
          handleDelivery T s.db (body d) ctx = .ok handling → ending.harmless handling))
  | .restart => True

instance (handling : Handling) : (ending : Ending) → Decidable (ending.harmless handling)
  | .completes => isTrue trivial
  | .stops n => inferInstanceAs (Decidable (n = 0 ∨ handling.writes.length < n))
  | .throws n => inferInstanceAs (Decidable (n = 0))

instance (s : AlertRetryState) (d : Nat) (ctx : AlertContext) (ending : Ending) :
    Decidable (∀ handling, handleDelivery T s.db (body d) ctx = .ok handling →
      ending.harmless handling) :=
  match h : handleDelivery T s.db (body d) ctx with
  | .error _ => isTrue fun handling hok => by cases hok
  | .ok handling => decidable_of_iff (ending.harmless handling)
      ⟨fun hharmless _ hok => Except.ok.inj hok ▸ hharmless, fun hall => hall handling rfl⟩

instance (s : AlertRetryState) : (a : AlertRetryAction) → Decidable (Careful T body s a)
  | .attempt d ctx ending => inferInstanceAs (Decidable ((s.delivery d).status = .completed ∨
      ((∀ e ∈ s.started, keyOf T body e = keyOf T body d → e ≠ d →
          (s.delivery e).status = .completed) ∧
        ((body d).eventType = .alertFired → ∀ handling,
          handleDelivery T s.db (body d) ctx = .ok handling → ending.harmless handling))))
  | .restart => isTrue trivial

/-- A delivery is attempted for the first time, and the attempt succeeds. -/
def FirstTime (s : AlertRetryState) : AlertRetryAction → Prop
  | .attempt d ctx ending =>
    d ∉ s.started ∧ ending = .completes ∧ (handleDelivery T s.db (body d) ctx).isOk = true
  | .restart => False

instance (s : AlertRetryState) : (a : AlertRetryAction) → Decidable (FirstTime T body s a)
  | .attempt d ctx ending => inferInstanceAs (Decidable (d ∉ s.started ∧ ending = .completes ∧
      (handleDelivery T s.db (body d) ctx).isOk = true))
  | .restart => isFalse id

/-- The time that a delivery carries. -/
def timeOf (d : Nat) : Millis := (body d).time.getD 0

/-- What handling a delivery of the key once makes of its view and of the
openings. -/
def keyStep (key : AlertKey) (acc : AlertView × List Nat) (d : Nat) : AlertView × List Nat :=
  if keyOf T body d = key then
    (acc.1.after T (body d) (timeOf body d),
      acc.2 ++ if acc.1.opens T (body d) (timeOf body d) then [d] else [])
  else acc

def keyRun (key : AlertKey) (ds : List Nat) : AlertView × List Nat :=
  ds.foldl (keyStep T body key) (⟨0, none, none⟩, [])

def progress (s : AlertRetryState) (key : AlertKey) : AlertView × List Nat :=
  (s.db.view key, openingsOf T body s key)

/-- A delivery of the key has been started and not been completed. -/
def Unfinished (s : AlertRetryState) (key : AlertKey) (d : Nat) : Prop :=
  d ∈ s.started ∧ keyOf T body d = key ∧ (s.delivery d).status ≠ .completed

/-- The key is as the deliveries started would have it, or it will be once the
one unfinished has been handled. -/
structure OnTrack (s : AlertRetryState) (key : AlertKey) : Prop where
  one : ∀ d e, Unfinished T body s key d → Unfinished T body s key e → d = e
  finished : AllCompleted T body s key → progress T body s key = keyRun T body key s.started
  unfinished : ∀ d, Unfinished T body s key d →
    keyStep T body key (progress T body s key) d = keyRun T body key s.started

structure RetryInv (s : AlertRetryState) : Prop where
  tracked : Tracked T s.db
  started : s.started.Nodup
  keys : ∀ key, OnTrack T body s key

end

section
variable {T : MonitoringTenant} {body : Nat → MonitoringDelivery} {s t : AlertRetryState} {d : Nat}
  {ctx : AlertContext} {ending : Ending}

/-! ## One attempt -/

theorem rejectedStatus_ne (attempts : Nat) : rejectedStatus attempts ≠ .completed := by
  unfold rejectedStatus
  split <;> decide

theorem Handling.written_view (handling : Handling) (n : Nat) (db : AlertDb) (key : AlertKey) :
    (applyWrites db (handling.written n)).view key =
      (applyWrites db (handling.writes.take n)).view key := by
  rw [Handling.written, applyWrites_append]
  split <;> rfl

theorem Handling.written_tracked {handling : Handling} {n : Nat} {db : AlertDb}
    (h : Tracked T (applyWrites db (handling.writes.take n))) :
    Tracked T (applyWrites db (handling.written n)) := by
  rw [Handling.written, applyWrites_append]
  split
  · exact ⟨h.rows, h.pointed, h.apart⟩
  · exact h

theorem Handling.written_opened (handling : Handling) (n : Nat) :
    (handling.written n).filterMap AlertWrite.opened =
      (handling.writes.take n).filterMap AlertWrite.opened := by
  rw [Handling.written, List.filterMap_append]
  split <;> exact List.append_nil _

/-- What a part of a handling does to its key, completed or not. -/
structure Partial (T : MonitoringTenant) (db db' : AlertDb) (d : MonitoringDelivery) (time : Millis)
    (opened : List Uuid) (completed : Prop) : Prop where
  tracked : Tracked T db'
  other : ∀ key, key ≠ d.key T.platform → db'.view key = db.view key
  done : completed → db'.view (d.key T.platform) = (db.view (d.key T.platform)).after T d time ∧
    opened.length = if (db.view (d.key T.platform)).opens T d time then 1 else 0
  again : ¬completed → (db'.view (d.key T.platform)).after T d time =
      (db.view (d.key T.platform)).after T d time ∧
    (db'.view (d.key T.platform)).opens T d time = (db.view (d.key T.platform)).opens T d time ∧
    opened = []

theorem Partial.nothing {db : AlertDb} (h : Tracked T db) (d : MonitoringDelivery) (time : Millis)
    {completed : Prop} (hnot : ¬completed) : Partial T db db d time [] completed :=
  ⟨h, fun _ _ => rfl, fun hdone => absurd hdone hnot, fun _ => ⟨rfl, rfl, rfl⟩⟩

theorem partial_fired {db : AlertDb} (h : Tracked T db) {d : MonitoringDelivery}
    (htype : d.eventType = .alertFired) {time : Millis} (htime : d.alert.triggeredAt = some time)
    {handling : Handling} (hhandled : handleAlertFired T db d ctx = .ok handling) (attempts : Nat)
    (hharmless : ending.harmless handling) :
    Partial T db (applyWrites db (handling.written (ending.executed handling))) d time
      ((handling.written (ending.executed handling)).filterMap AlertWrite.opened)
      (handling.statusAfter attempts ending = .completed) := by
  obtain ⟨hend, hopened⟩ := h.fired htype htime hhandled
  have hwhole : ∀ n, handling.writes.length < n → ∀ completed : Prop, completed →
      Partial T db (applyWrites db (handling.written n)) d time
        ((handling.written n).filterMap AlertWrite.opened) completed := by
    intro n hn completed hcompleted
    have htake : handling.writes.take n = handling.writes := List.take_of_length_le (Nat.le_of_lt hn)
    refine ⟨Handling.written_tracked (by rw [htake]; exact hend.tracked), fun key hne => ?_,
      fun _ => ⟨?_, ?_⟩, fun hnot => absurd hcompleted hnot⟩
    · rw [Handling.written_view, htake]
      exact hend.other key hne
    · rw [Handling.written_view, htake]
      exact hend.own
    · rw [Handling.written_opened, htake, hopened]
      split <;> rfl
  have hnothing : ∀ completed : Prop, ¬completed → Partial T db (applyWrites db (handling.written 0)) d
      time ((handling.written 0).filterMap AlertWrite.opened) completed := by
    intro completed hnot
    exact Partial.nothing h d time hnot
  cases ending with
  | completes =>
    refine hwhole _ ?_ _ ?_
    · exact Nat.lt_add_of_pos_right (by decide)
    · exact if_pos (Nat.lt_add_of_pos_right (by decide))
  | stops n =>
    rcases hharmless with rfl | hn
    · refine hnothing _ fun hdone => ?_
      rw [Handling.statusAfter, Ending.executed, if_neg (Nat.not_lt_zero _)] at hdone
      cases hdone
    · exact hwhole n hn _ (if_pos hn)
  | throws n =>
    obtain rfl : n = 0 := hharmless
    exact hnothing _ (rejectedStatus_ne attempts)

theorem partial_resolved {db : AlertDb} (h : Tracked T db) {d : MonitoringDelivery}
    (htype : d.eventType = .alertResolved) {time : Millis} (htime : d.alert.resolvedAt = some time)
    (attempts : Nat) :
    Partial T db (applyWrites db ((handleAlertResolved T db d ctx).written
        (ending.executed (handleAlertResolved T db d ctx)))) d time
      (((handleAlertResolved T db d ctx).written
        (ending.executed (handleAlertResolved T db d ctx))).filterMap AlertWrite.opened)
      ((handleAlertResolved T db d ctx).statusAfter attempts ending = .completed) := by
  obtain ⟨htracked, hother, hagain, hend⟩ :=
    @Tracked.resolved T db d ctx h htype time htime (ending.executed (handleAlertResolved T db d ctx))
  have hopens : ∀ v : AlertView, v.opens T d time = false := by
    intro v
    rw [AlertView.opens, htype]
    rfl
  have hopened : ((handleAlertResolved T db d ctx).written
      (ending.executed (handleAlertResolved T db d ctx))).filterMap AlertWrite.opened = [] := by
    obtain ⟨artifact, rest, hwrites, -, -, -, hrest⟩ := handleAlertResolved_writes ctx h htime
    rw [Handling.written_opened, List.filterMap_eq_nil_iff]
    intro w hw
    replace hw := List.mem_of_mem_take hw
    rw [hwrites] at hw
    rcases List.mem_cons.mp hw with rfl | hw
    · rfl
    · exact hrest.opensNothing w hw
  refine ⟨Handling.written_tracked htracked, fun key hne => ?_, fun hdone => ⟨?_, ?_⟩, fun _ => ?_⟩
  · rw [Handling.written_view]
    exact hother key hne
  · rw [Handling.written_view]
    refine hend ?_
    cases ending with
    | completes => exact Nat.le_add_right _ 2
    | stops n =>
      rw [Handling.statusAfter] at hdone
      split at hdone
      · rename_i hn
        exact Nat.le_of_lt hn
      · cases hdone
    | throws n => exact absurd hdone (rejectedStatus_ne attempts)
  · rw [hopened, hopens]
    rfl
  · rw [Handling.written_view, hopens, hopens]
    exact ⟨hagain, rfl, hopened⟩

/-- What an attempt that is made does. -/
structure Attempted (T : MonitoringTenant) (body : Nat → MonitoringDelivery) (s t : AlertRetryState)
    (d : Nat) (opened : List Uuid) : Prop where
  started : t.started = if s.started.contains d then s.started else s.started ++ [d]
  others : ∀ e, e ≠ d → t.delivery e = s.delivery e
  recorded : t.opened = s.opened ++ opened.map fun id => (d, id)
  part : Partial T s.db t.db (body d) (timeOf body d) opened ((t.delivery d).status = .completed)

theorem attempt_made (hdated : ∀ d, (body d).time.isSome = true) (htracked : Tracked T s.db)
    (hopen : (s.delivery d).status ≠ .completed)
    (hharmless : (body d).eventType = .alertFired → ∀ handling,
      handleDelivery T s.db (body d) ctx = .ok handling → ending.harmless handling)
    (hstep : attemptAlert T body s d ctx ending = some t) : ∃ opened, Attempted T body s t d opened := by
  unfold attemptAlert at hstep
  rw [if_neg hopen] at hstep
  dsimp only at hstep
  obtain ⟨time, htime⟩ := Option.isSome_iff_exists.mp (hdated d)
  have htimeOf : timeOf body d = time := by
    rw [timeOf, htime]
    rfl
  cases hhandled : handleDelivery T s.db (body d) ctx with
  | error e =>
    rw [hhandled] at hstep
    obtain rfl := Option.some.inj hstep
    refine ⟨[], rfl, fun e he => setAt_other _ _ he, (List.append_nil _).symm, ?_⟩
    refine Partial.nothing htracked _ _ fun hdone => ?_
    dsimp only at hdone
    rw [setAt_same] at hdone
    dsimp only at hdone
    split at hdone
    · cases hdone
    · exact rejectedStatus_ne _ hdone
  | ok handling =>
    rw [hhandled] at hstep
    dsimp only at hstep
    split at hstep
    · cases hstep
    · obtain rfl := Option.some.inj hstep
      refine ⟨_, rfl, fun e he => setAt_other _ _ he, rfl, ?_⟩
      dsimp only
      rw [htimeOf, setAt_same]
      cases htype : (body d).eventType with
      | alertFired =>
        have hfired : handleAlertFired T s.db (body d) ctx = .ok handling := by
          rw [← hhandled, handleDelivery, htype]
        rw [MonitoringDelivery.time, htype] at htime
        exact partial_fired htracked htype htime hfired _ (hharmless htype handling hhandled)
      | alertResolved =>
        have hresolved : handling = handleAlertResolved T s.db (body d) ctx := by
          rw [handleDelivery, htype] at hhandled
          exact (Except.ok.inj hhandled).symm
        subst hresolved
        rw [MonitoringDelivery.time, htype] at htime
        exact partial_resolved htracked htype htime _

variable {opened : List Uuid} {a : AlertRetryAction}

theorem Attempted.openings (h : Attempted T body s t d opened) (key : AlertKey) :
    openingsOf T body t key = openingsOf T body s key ++
      if keyOf T body d = key then List.replicate opened.length d else [] := by
  unfold openingsOf
  rw [h.recorded, List.map_append, List.filter_append, List.map_map]
  congr 1
  have hconst : opened.map (Prod.fst ∘ fun id => (d, id)) = List.replicate opened.length d :=
    List.map_const'
  rw [hconst]
  by_cases hkey : keyOf T body d = key
  · rw [if_pos hkey, List.filter_eq_self]
    intro e he
    rw [List.eq_of_mem_replicate he, hkey, beq_self_eq_true]
  · rw [if_neg hkey, List.filter_eq_nil_iff]
    intro e he
    rw [List.eq_of_mem_replicate he, beq_iff_eq]
    exact hkey

theorem Attempted.progress_done (h : Attempted T body s t d opened) (hdone : (t.delivery d).status = .completed) :
    progress T body t (keyOf T body d) =
      keyStep T body (keyOf T body d) (progress T body s (keyOf T body d)) d := by
  obtain ⟨hview, hlength⟩ := h.part.done hdone
  rw [progress, h.openings, if_pos rfl, keyStep, if_pos rfl]
  replace hlength : opened.length =
    if (s.db.view (keyOf T body d)).opens T (body d) (timeOf body d) then 1 else 0 := hlength
  refine Prod.ext hview ?_
  show openingsOf T body s (keyOf T body d) ++ List.replicate opened.length d =
    openingsOf T body s (keyOf T body d) ++
      if (s.db.view (keyOf T body d)).opens T (body d) (timeOf body d) then [d] else []
  rw [hlength]
  congr 1
  split <;> rfl

theorem Attempted.progress_again (h : Attempted T body s t d opened) (hnot : (t.delivery d).status ≠ .completed) :
    keyStep T body (keyOf T body d) (progress T body t (keyOf T body d)) d =
      keyStep T body (keyOf T body d) (progress T body s (keyOf T body d)) d := by
  obtain ⟨hview, hopens, hnil⟩ := h.part.again hnot
  have hopenings := h.openings (keyOf T body d)
  rw [hnil, if_pos rfl, List.length_nil, List.replicate_zero, List.append_nil] at hopenings
  rw [keyStep, if_pos rfl, keyStep, if_pos rfl, progress, progress, hopenings]
  refine Prod.ext hview ?_
  show _ ++ _ = _ ++ _
  congr 1
  show (if (t.db.view (keyOf T body d)).opens T (body d) (timeOf body d) then [d] else []) = _
  rw [show (t.db.view (keyOf T body d)).opens T (body d) (timeOf body d) =
    (s.db.view (keyOf T body d)).opens T (body d) (timeOf body d) from hopens]

theorem Attempted.progress_other (h : Attempted T body s t d opened)
    {key : AlertKey} (hne : key ≠ keyOf T body d) : progress T body t key = progress T body s key := by
  rw [progress, progress, h.openings, if_neg (Ne.symm hne), List.append_nil, h.part.other key hne]

theorem keyRun_append (key : AlertKey) (ds : List Nat) (d : Nat) :
    keyRun T body key (ds ++ [d]) = keyStep T body key (keyRun T body key ds) d :=
  List.foldl_append

theorem keyRun_other {key : AlertKey} (hne : keyOf T body d ≠ key) (ds : List Nat) :
    keyRun T body key (if ds.contains d then ds else ds ++ [d]) = keyRun T body key ds := by
  split
  · rfl
  · rw [keyRun_append, keyStep, if_neg hne]

/-! ## All attempts -/

theorem OnTrack.before (h : OnTrack T body s (keyOf T body d))
    (hothers : ∀ e ∈ s.started, keyOf T body e = keyOf T body d → e ≠ d →
      (s.delivery e).status = .completed) (hopen : (s.delivery d).status ≠ .completed) :
    keyStep T body (keyOf T body d) (progress T body s (keyOf T body d)) d =
      keyRun T body (keyOf T body d) (if s.started.contains d then s.started else s.started ++ [d]) := by
  by_cases hstarted : d ∈ s.started
  · rw [if_pos (by simpa using hstarted)]
    exact h.unfinished d ⟨hstarted, rfl, hopen⟩
  · rw [if_neg (by simpa using hstarted), keyRun_append, h.finished fun e he hkey =>
      hothers e he hkey fun heq => hstarted (heq ▸ he)]

theorem OnTrack.attempt (h : Attempted T body s t d opened)
    (hkeys : ∀ key, OnTrack T body s key) (hopen : (s.delivery d).status ≠ .completed)
    (hothers : ∀ e ∈ s.started, keyOf T body e = keyOf T body d → e ≠ d →
      (s.delivery e).status = .completed) (key : AlertKey) : OnTrack T body t key := by
  have hstarted : ∀ e ∈ t.started, e ∈ s.started ∨ e = d := by
    intro e he
    rw [h.started] at he
    split at he
    · exact .inl he
    · rcases List.mem_append.mp he with he | he
      · exact .inl he
      · exact .inr (List.mem_singleton.mp he)
  by_cases hkey : key = keyOf T body d
  · subst hkey
    have hbefore := (hkeys (keyOf T body d)).before hothers hopen
    rw [← h.started] at hbefore
    -- only the delivery itself can be unfinished
    have honly : ∀ e, Unfinished T body t (keyOf T body d) e → e = d := by
      rintro e ⟨hmem, hkey, hstatus⟩
      by_contra hne
      rw [h.others e hne] at hstatus
      exact hstatus (hothers e ((hstarted e hmem).resolve_right hne) hkey hne)
    refine ⟨fun e e' he he' => (honly e he).trans (honly e' he').symm, fun hall => ?_, fun e he => ?_⟩
    · have hmem : d ∈ t.started := by
        rw [h.started]
        split
        · rename_i hmem
          simpa using hmem
        · exact List.mem_append_right _ (List.mem_singleton_self d)
      rw [h.progress_done (hall d hmem rfl), hbefore]
    · obtain rfl := honly e he
      rw [h.progress_again he.2.2, hbefore]
  · have hsame := hkeys key
    have hback : ∀ e, Unfinished T body t key e → Unfinished T body s key e := by
      rintro e ⟨hmem, hkeyOf, hstatus⟩
      have hne : e ≠ d := fun heq => hkey (heq ▸ hkeyOf.symm)
      rw [h.others e hne] at hstatus
      exact ⟨(hstarted e hmem).resolve_right hne, hkeyOf, hstatus⟩
    refine ⟨fun e e' he he' => hsame.one e e' (hback e he) (hback e' he'), fun hall => ?_, fun e he => ?_⟩
    · rw [h.progress_other hkey, h.started, keyRun_other (Ne.symm hkey)]
      refine hsame.finished fun e he hkeyOf => ?_
      have hne : e ≠ d := fun heq => hkey (heq ▸ hkeyOf.symm)
      rw [← h.others e hne]
      refine hall e ?_ hkeyOf
      rw [h.started]
      split
      · exact he
      · exact List.mem_append_left _ he
    · rw [h.progress_other hkey, h.started, keyRun_other (Ne.symm hkey)]
      exact hsame.unfinished e (hback e he)

theorem RetryInv.restarted (h : RetryInv T body s) {delivery : Nat → DeliveryRow}
    (hstatus : ∀ d, (delivery d).status = .completed ↔ (s.delivery d).status = .completed) :
    RetryInv T body { s with delivery := delivery } := by
  refine ⟨h.tracked, h.started, fun key => ?_⟩
  have hback : ∀ e, Unfinished T body { s with delivery := delivery } key e →
      Unfinished T body s key e :=
    fun e he => ⟨he.1, he.2.1, fun hdone => he.2.2 ((hstatus e).mpr hdone)⟩
  exact ⟨fun e e' he he' => (h.keys key).one e e' (hback e he) (hback e' he'),
    fun hall => (h.keys key).finished fun e he hkey => (hstatus e).mp (hall e he hkey),
    fun e he => (h.keys key).unfinished e (hback e he)⟩

theorem RetryInv.step (hdated : ∀ d, (body d).time.isSome = true) (h : RetryInv T body s)
    (hcareful : Careful T body s a) (hstep : alertRetryStep T body s a = some t) :
    RetryInv T body t := by
  cases a with
  | attempt d ctx ending =>
    rcases hcareful with hdone | ⟨hothers, hharmless⟩
    · replace hstep : attemptAlert T body s d ctx ending = some t := hstep
      rw [attemptAlert, if_pos hdone] at hstep
      exact Option.some.inj hstep ▸ h
    · by_cases hopen : (s.delivery d).status = .completed
      · replace hstep : attemptAlert T body s d ctx ending = some t := hstep
        rw [attemptAlert, if_pos hopen] at hstep
        exact Option.some.inj hstep ▸ h
      · obtain ⟨opened, hattempted⟩ := attempt_made hdated h.tracked hopen hharmless hstep
        refine ⟨hattempted.part.tracked, ?_, OnTrack.attempt hattempted h.keys hopen hothers⟩
        rw [hattempted.started]
        split
        · exact h.started
        · rename_i hnew
          rw [List.nodup_append_comm]
          exact List.nodup_cons.mpr ⟨by simpa using hnew, h.started⟩
  | restart =>
    obtain rfl := Option.some.inj hstep
    refine h.restarted fun d => ?_
    split
    · rename_i hprocessing
      rw [hprocessing]
      exact ⟨fun h => (by cases h), fun h => (by cases h)⟩
    · exact Iff.rfl

theorem RetryInv.accepted {item : Uuid → Option WorkItem}
    (hrows : ∀ id row, item id = some row → row.id = id) : RetryInv T body (accepted item) := by
  refine ⟨⟨hrows, fun key id hid => (by cases hid), fun key key' id hid => (by cases hid)⟩,
    List.nodup_nil, fun key => ⟨?_, fun _ => rfl, ?_⟩⟩
  · exact fun d e hd => absurd hd.1 List.not_mem_nil
  · exact fun d hd => absurd hd.1 List.not_mem_nil

theorem keyRun_sublist (key : AlertKey) (ds : List Nat) : (keyRun T body key ds).2.Sublist ds := by
  induction ds using List.reverseRecOn with
  | nil => exact List.Sublist.refl []
  | append_singleton ds d ih =>
    rw [keyRun_append, keyStep]
    split
    · refine ih.append ?_
      split
      · exact List.Sublist.refl [d]
      · exact List.nil_sublist [d]
    · exact ih.trans (List.sublist_append_left ds [d])

theorem OnTrack.openings_nodup {key : AlertKey} (h : OnTrack T body s key) (hstarted : s.started.Nodup) :
    (openingsOf T body s key).Nodup := by
  have hrun := hstarted.sublist (@keyRun_sublist T body key s.started)
  by_cases hall : AllCompleted T body s key
  · have hfinished := congrArg Prod.snd (h.finished hall)
    rw [← hfinished] at hrun
    exact hrun
  · unfold AllCompleted at hall
    push Not at hall
    obtain ⟨d, hmem, hkey, hstatus⟩ := hall
    have hunfinished := congrArg Prod.snd (h.unfinished d ⟨hmem, hkey, hstatus⟩)
    rw [keyStep, if_pos hkey] at hunfinished
    rw [← hunfinished] at hrun
    exact hrun.sublist (List.sublist_append_left _ _)

theorem RetryInv.opened_once (h : RetryInv T body s) : (s.opened.map (·.1)).Nodup := by
  rw [List.nodup_iff_count_le_one]
  intro d
  have hnodup := (h.keys (keyOf T body d)).openings_nodup h.started
  have hcount := List.nodup_iff_count_le_one.mp hnodup d
  rwa [openingsOf, List.count_filter (by simp)] at hcount

theorem occurrencesOf_view (s : AlertRetryState) (key : AlertKey) :
    occurrencesOf s key = (s.db.view key).lastSeen.map fun _ => (s.db.view key).occurrences := by
  unfold occurrencesOf AlertDb.view
  cases s.db.artifact key <;> rfl

theorem firstTime_completed (hfirst : FirstTime T body s (.attempt d ctx ending))
    (hall : ∀ e ∈ s.started, (s.delivery e).status = .completed)
    (hstep : attemptAlert T body s d ctx ending = some t) :
    ∀ e ∈ t.started, (t.delivery e).status = .completed := by
  obtain ⟨hnew, rfl, hok⟩ := hfirst
  unfold attemptAlert at hstep
  split at hstep
  · exact Option.some.inj hstep ▸ hall
  · cases hhandled : handleDelivery T s.db (body d) ctx with
    | error e => rw [hhandled] at hok; cases hok
    | ok handling =>
      rw [hhandled] at hstep
      obtain rfl := Option.some.inj hstep
      have hcompleted : handling.statusAfter ((s.delivery d).attempts + 1) .completes = .completed :=
        if_pos (Nat.lt_add_of_pos_right (by decide))
      intro e he
      dsimp only at he ⊢
      rw [if_neg (by simpa using hnew)] at he
      by_cases hed : e = d
      · rw [hed, setAt_same]
        exact hcompleted
      · rw [setAt_other _ _ hed]
        refine hall e ((List.mem_append.mp he).resolve_right fun hmem => hed ?_)
        exact List.mem_singleton.mp hmem

theorem firstTime_careful (hall : ∀ e ∈ s.started, (s.delivery e).status = .completed)
    (hfirst : FirstTime T body s a) : Careful T body s a := by
  cases a with
  | restart => cases hfirst
  | attempt d ctx ending =>
    obtain ⟨-, rfl, -⟩ := hfirst
    exact .inr ⟨fun e he _ _ => hall e he, fun _ _ _ => trivial⟩

theorem firstTime_step (hall : ∀ e ∈ s.started, (s.delivery e).status = .completed)
    (hfirst : FirstTime T body s a) (hstep : alertRetryStep T body s a = some t) :
    ∀ e ∈ t.started, (t.delivery e).status = .completed := by
  cases a with
  | restart => cases hfirst
  | attempt d ctx ending => exact firstTime_completed hfirst hall hstep

theorem retryInv_run (hdated : ∀ d, (body d).time.isSome = true) {item : Uuid → Option WorkItem}
    (hrows : ∀ id row, item id = some row → row.id = id) {actions : List AlertRetryAction}
    (hrun : (alertRetries T body).run (accepted item) actions = some t)
    (hcareful : (alertRetries T body).Along (Careful T body) (accepted item) actions) :
    RetryInv T body t :=
  (alertRetries T body).along_invariant (fun h hC hstep => h.step hdated hC hstep)
    (RetryInv.accepted hrows) hcareful hrun

end

/-- Attempts in any order, of which each meets the condition, against the run in
which the deliveries started are handled once each. -/
theorem alerts_retry_safe (T : MonitoringTenant) (body : Nat → MonitoringDelivery)
    (hdated : ∀ d, (body d).time.isSome = true) (item : Uuid → Option WorkItem)
    (hrows : ∀ id row, item id = some row → row.id = id) (actions : List AlertRetryAction)
    (t : AlertRetryState) (hrun : (alertRetries T body).run (accepted item) actions = some t)
    (hcareful : (alertRetries T body).Along (Careful T body) (accepted item) actions) :
    (t.opened.map (·.1)).Nodup ∧
    ∀ firsts u, (alertRetries T body).run (accepted item) firsts = some u →
      (alertRetries T body).Along (FirstTime T body) (accepted item) firsts → u.started = t.started →
      ∀ key, AllCompleted T body t key →
        openingsOf T body t key = openingsOf T body u key ∧ occurrencesOf t key = occurrencesOf u key := by
  have ht := retryInv_run hdated hrows hrun hcareful
  refine ⟨ht.opened_once, fun firsts u hfirsts hfirst hstarted key hall => ?_⟩
  have hnone : ∀ e ∈ (accepted item).started, ((accepted item).delivery e).status = .completed :=
    fun e he => absurd he List.not_mem_nil
  have hcareful' := (alertRetries T body).along_mono
    (fun hall hC hstep => firstTime_step hall hC hstep)
    (fun hall hC => firstTime_careful hall hC) hnone hfirst
  have hu := retryInv_run hdated hrows hfirsts hcareful'
  have hcompleted := (alertRetries T body).along_invariant
    (fun hall hC hstep => firstTime_step hall hC hstep) hnone hfirst hfirsts
  -- both keys have come to what the deliveries started make of them
  have hsame : progress T body t key = progress T body u key := by
    rw [(ht.keys key).finished hall, (hu.keys key).finished fun e he _ => hcompleted e he, hstarted]
  refine ⟨congrArg Prod.snd hsame, ?_⟩
  have hview : t.db.view key = u.db.view key := congrArg Prod.fst hsame
  rw [occurrencesOf_view, occurrencesOf_view, hview]

/-! ## An incident opened twice -/

/-- Two alerts of the monitor and its resolution. -/
def checkoutDeliveries (d : Nat) : MonitoringDelivery :=
  if d = 0 then checkoutAlert .alertFired "critical" 100
  else if d = 1 then checkoutAlert .alertFired "critical" 120
  else checkoutAlert .alertResolved "critical" 140

theorem checkoutDeliveries_dated (d : Nat) : (checkoutDeliveries d).time.isSome = true := by
  unfold checkoutDeliveries
  split
  · rfl
  · split <;> rfl

def checkoutKey : AlertKey := ("datadog", "checkout-latency")

/-- What the runs below are compared by. -/
def summary (s : AlertRetryState) : List Nat × List Nat × Option Nat × List DeliveryStatus :=
  (s.started, s.opened.map (·.1), occurrencesOf s checkoutKey,
    (List.range 3).map fun d => (s.delivery d).status)

/-- The process stops between the incident and the artifact that points to it. -/
theorem incident_opened_twice : ∃ t u,
    (alertRetries checkoutTenant checkoutDeliveries).run (accepted fun _ => none)
      [.attempt 0 (meeting 10) (.stops 1), .restart, .attempt 0 (meeting 11) .completes] = some t ∧
    (alertRetries checkoutTenant checkoutDeliveries).run (accepted fun _ => none)
      [.attempt 0 (meeting 10) .completes] = some u ∧
    (alertRetries checkoutTenant checkoutDeliveries).Along (FirstTime checkoutTenant checkoutDeliveries)
      (accepted fun _ => none) [.attempt 0 (meeting 10) .completes] ∧
    t.started = [0] ∧ u.started = [0] ∧ (t.delivery 0).status = .completed ∧
    t.opened.map (·.1) = [0, 0] ∧ u.opened.map (·.1) = [0] := by
  have hrun : ((alertRetries checkoutTenant checkoutDeliveries).run (accepted fun _ => none)
      [.attempt 0 (meeting 10) (.stops 1), .restart, .attempt 0 (meeting 11) .completes]).map summary =
      some ([0], [0, 0], some 1, [.completed, .queued, .queued]) := by
    decide +kernel
  have hfirst : ((alertRetries checkoutTenant checkoutDeliveries).run (accepted fun _ => none)
      [.attempt 0 (meeting 10) .completes]).map summary =
      some ([0], [0], some 1, [.completed, .queued, .queued]) := by
    decide +kernel
  obtain ⟨t, ht, hsummary⟩ := Option.map_eq_some_iff.mp hrun
  obtain ⟨u, hu, hsummary'⟩ := Option.map_eq_some_iff.mp hfirst
  refine ⟨t, u, ht, hu, by decide +kernel, congrArg (·.1) hsummary, congrArg (·.1) hsummary', ?_,
    congrArg (·.2.1) hsummary, congrArg (·.2.1) hsummary'⟩
  have hstatus := congrArg (·.2.2.2) hsummary
  exact (List.cons.inj hstatus).1

/-- Attempts that fail before their first statement, and a resolution that fails
in the middle of its walk. -/
theorem alerts_retry_safe_checkout : ∃ t u,
    (alertRetries checkoutTenant checkoutDeliveries).run (accepted fun _ => none)
      [.attempt 0 (meeting 10) (.throws 0), .attempt 0 (meeting 11) .completes,
        .attempt 1 (meeting 12) (.stops 0), .restart, .attempt 1 (meeting 13) .completes,
        .attempt 2 (meeting 14) (.throws 3), .attempt 2 (meeting 15) .completes] = some t ∧
    (alertRetries checkoutTenant checkoutDeliveries).run (accepted fun _ => none)
      [.attempt 0 (meeting 10) .completes, .attempt 1 (meeting 11) .completes,
        .attempt 2 (meeting 12) .completes] = some u ∧
    (t.opened.map (·.1)).Nodup ∧
    openingsOf checkoutTenant checkoutDeliveries t checkoutKey =
      openingsOf checkoutTenant checkoutDeliveries u checkoutKey ∧
    occurrencesOf t checkoutKey = occurrencesOf u checkoutKey ∧ occurrencesOf t checkoutKey = some 2 := by
  have hrun : ((alertRetries checkoutTenant checkoutDeliveries).run (accepted fun _ => none)
      [.attempt 0 (meeting 10) (.throws 0), .attempt 0 (meeting 11) .completes,
        .attempt 1 (meeting 12) (.stops 0), .restart, .attempt 1 (meeting 13) .completes,
        .attempt 2 (meeting 14) (.throws 3), .attempt 2 (meeting 15) .completes]).map summary =
      some ([0, 1, 2], [0], some 2, [.completed, .completed, .completed]) := by
    decide +kernel
  have hfirsts : ((alertRetries checkoutTenant checkoutDeliveries).run (accepted fun _ => none)
      [.attempt 0 (meeting 10) .completes, .attempt 1 (meeting 11) .completes,
        .attempt 2 (meeting 12) .completes]).map summary =
      some ([0, 1, 2], [0], some 2, [.completed, .completed, .completed]) := by
    decide +kernel
  obtain ⟨t, ht, hsummary⟩ := Option.map_eq_some_iff.mp hrun
  obtain ⟨u, hu, hsummary'⟩ := Option.map_eq_some_iff.mp hfirsts
  have hsafe := alerts_retry_safe checkoutTenant checkoutDeliveries checkoutDeliveries_dated
    (fun _ => none) (fun id row h => by cases h) _ t ht (by decide +kernel)
  have hstarted : t.started = [0, 1, 2] := congrArg (·.1) hsummary
  have hall : AllCompleted checkoutTenant checkoutDeliveries t checkoutKey := by
    intro d hd _
    have hstatus : (List.range 3).map (fun d => (t.delivery d).status) =
        (List.range 3).map fun _ => DeliveryStatus.completed := congrArg (·.2.2.2) hsummary
    rw [List.map_inj_left] at hstatus
    refine hstatus d ?_
    rw [hstarted] at hd
    exact hd
  obtain ⟨hopenings, hoccurrences⟩ := hsafe.2 _ u hu (by decide +kernel)
    ((congrArg (·.1) hsummary').trans hstarted.symm) checkoutKey hall
  exact ⟨t, u, ht, hu, hsafe.1, hopenings, hoccurrences, congrArg (·.2.2.1) hsummary⟩

end Cadena.Monitoring
