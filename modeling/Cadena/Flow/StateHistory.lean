import Cadena.Auth.AuthGuard
import Cadena.Base.Timeline

/-!
# State intervals from recorded events

`buildIntervals` splits the life of an item into the visits to its states. The
events come in any order; an event before the creation changes the state and
takes no time; the time in terminal states is dropped.
-/

namespace Cadena.Flow

open Cadena.Base Timeline
open Cadena.Auth (WaitReason)

structure StateChange where
  time : Millis
  fromState : Option String
  toState : String
  reason : Option WaitReason
  deriving DecidableEq

structure StateInterval where
  state : String
  start : Millis
  stop : Millis
  isOpen : Bool
  reason : Option WaitReason
  deriving DecidableEq

structure BuiltHistory where
  intervals : List StateInterval
  anomalies : Nat

/-! ## `buildIntervals` -/

/-- By time, and at the same time by place. -/
def NotAfter (a b : StateChange × Nat) : Prop :=
  a.1.time < b.1.time ∨ a.1.time = b.1.time ∧ a.2 ≤ b.2

instance : DecidableRel NotAfter := fun a b =>
  inferInstanceAs (Decidable (a.1.time < b.1.time ∨ a.1.time = b.1.time ∧ a.2 ≤ b.2))

def indexedEvents (events : List StateChange) : List (StateChange × Nat) :=
  events.zipIdx.insertionSort NotAfter

def sortEvents (events : List StateChange) : List StateChange := (indexedEvents events).map (·.1)

/-- The variables of the loop. -/
structure HistoryLoop where
  intervals : List StateInterval
  anomalies : Nat
  cursor : Millis
  state : String
  entryReason : Option WaitReason

/-- The intervals with the one that ends. -/
def HistoryLoop.close (terminal : List String) (s : HistoryLoop) (stop : Millis) (isOpen : Bool) :
    List StateInterval :=
  if s.cursor < stop && !terminal.contains s.state then
    s.intervals ++ [⟨s.state, s.cursor, stop, isOpen, s.entryReason⟩]
  else s.intervals

/-- An event that does not leave the state the item is in. -/
def HistoryLoop.contradicts (s : HistoryLoop) (event : StateChange) : Bool :=
  event.fromState.any (· != s.state)

def HistoryLoop.next (terminal : List String) (s : HistoryLoop) (event : StateChange) : HistoryLoop :=
  let anomalies := if s.contradicts event then s.anomalies + 1 else s.anomalies
  if event.time < s.cursor then
    -- before the creation
    { s with anomalies := anomalies + 1, state := event.toState, entryReason := event.reason }
  else
    { intervals := s.close terminal event.time false
      anomalies := anomalies
      cursor := event.time
      state := event.toState
      entryReason := event.reason }

/-- `events[0]?.from ?? currentState`. -/
def firstState (currentState : String) (events : List StateChange) : String :=
  ((events.head?).bind (·.fromState)).getD currentState

def buildIntervals (createdAt : Millis) (currentState : String) (events : List StateChange) (now : Millis)
    (terminal : List String) : BuiltHistory :=
  let sorted := sortEvents events
  let s := sorted.foldl (HistoryLoop.next terminal) ⟨[], 0, createdAt, firstState currentState sorted, none⟩
  ⟨s.close terminal now true, s.anomalies⟩

def StateInterval.Contains (i : StateInterval) (t : Millis) : Prop := i.start ≤ t ∧ t < i.stop

/-- The state of an item at an instant and the reason of the event that entered
it. `initial` is the state before the first event. -/
inductive InForce (initial : StateChange → Option String) (currentState : String) (events : List StateChange)
    (t : Millis) : Option String → Option WaitReason → Prop where
  | entered {e : StateChange × Nat} (h : e ∈ events.zipIdx) (hpast : e.1.time ≤ t)
      (hlast : ∀ p ∈ events.zipIdx, p.1.time ≤ t → NotAfter p e) :
      InForce initial currentState events t (some e.1.toState) e.1.reason
  | before {e : StateChange × Nat} (h : e ∈ events.zipIdx) (hlater : ∀ p ∈ events.zipIdx, t < p.1.time)
      (hfirst : ∀ p ∈ events.zipIdx, NotAfter e p) :
      InForce initial currentState events t (initial e.1) none
  | never (h : events = []) : InForce initial currentState events t (some currentState) none

/-- The intervals are the timeline of the item. -/
structure Reconstructs (initial : StateChange → Option String) (createdAt : Millis) (currentState : String)
    (events : List StateChange) (now : Millis) (terminal : List String) (intervals : List StateInterval) :
    Prop where
  ordered : InOrder StateInterval.start StateInterval.stop intervals
  inForce : ∀ t, createdAt ≤ t → t < now →
    ∃! p : Option String × Option WaitReason, InForce initial currentState events t p.1 p.2
  covered : ∀ t, createdAt ≤ t → t < now → ∀ state reason, InForce initial currentState events t state reason →
    ((∃ i ∈ intervals, i.Contains t) ↔ ∀ s ∈ state, s ∉ terminal)
  carried : ∀ t, createdAt ≤ t → t < now → ∀ state reason, InForce initial currentState events t state reason →
    ∀ i ∈ intervals, i.Contains t → state = some i.state ∧ reason = i.reason

/-! ## The loop as a timeline -/

abbrev StateEntry := String × Option WaitReason

def entryOf (event : StateChange) : Millis × StateEntry := (event.time, event.toState, event.reason)

def intervalOf (v : Visit Millis StateEntry) : StateInterval :=
  ⟨v.value.1, v.start, v.stop, v.ongoing, v.value.2⟩

def kept (terminal : List String) (v : Visit Millis StateEntry) : Bool := !terminal.contains v.value.1

def keptVisits (terminal : List String) (visits : List (Visit Millis StateEntry)) : List StateInterval :=
  (visits.filter (kept terminal)).map intervalOf

theorem close_eq (terminal : List String) (s : HistoryLoop) (stop : Millis) (isOpen : Bool) :
    s.close terminal stop isOpen =
      s.intervals ++ keptVisits terminal (visit (s.state, s.entryReason) s.cursor stop isOpen) := by
  unfold HistoryLoop.close visit keptVisits
  by_cases hlength : s.cursor < stop
  · by_cases hterminal : s.state ∈ terminal
    · simp [hlength, hterminal, kept]
    · simp [hlength, hterminal, kept, intervalOf]
  · simp [hlength]

theorem loop_eq (terminal : List String) (now : Millis) (events : List StateChange) (s : HistoryLoop) :
    (events.foldl (HistoryLoop.next terminal) s).close terminal now true =
      s.intervals ++ keptVisits terminal
        (visits now s.cursor (s.state, s.entryReason) (events.map entryOf)) := by
  induction events generalizing s with
  | nil => exact close_eq terminal s now true
  | cons event events ih =>
    rw [List.foldl_cons, ih, List.map_cons, entryOf, visits, HistoryLoop.next]
    by_cases hpast : event.time < s.cursor
    · have hnone : visit (s.state, s.entryReason) s.cursor event.time false = [] :=
        if_neg (not_lt.mpr (le_of_lt hpast))
      rw [hnone, max_eq_left (le_of_lt hpast), if_pos hpast]
      rfl
    · rw [if_neg hpast, max_eq_right (not_lt.mp hpast)]
      dsimp only
      rw [close_eq, List.append_assoc]
      unfold keptVisits
      rw [List.filter_append, List.map_append]

theorem buildIntervals_eq (createdAt : Millis) (currentState : String) (events : List StateChange) (now : Millis)
    (terminal : List String) :
    (buildIntervals createdAt currentState events now terminal).intervals =
      keptVisits terminal (visits now createdAt (firstState currentState (sortEvents events), none)
        ((sortEvents events).map entryOf)) :=
  loop_eq terminal now (sortEvents events) _

theorem buildIntervals_inOrder (createdAt : Millis) (currentState : String) (events : List StateChange)
    (now : Millis) (terminal : List String) :
    InOrder StateInterval.start StateInterval.stop
      (buildIntervals createdAt currentState events now terminal).intervals := by
  rw [buildIntervals_eq]
  have h := (visits_inOrder now createdAt (firstState currentState (sortEvents events), none)
    ((sortEvents events).map entryOf)).filter (kept terminal)
  refine ⟨fun i hi => ?_, List.pairwise_map.mpr h.ordered⟩
  obtain ⟨v, hv, rfl⟩ := List.mem_map.mp hi
  exact h.positive v hv

theorem buildIntervals_from {createdAt : Millis} {currentState : String} {events : List StateChange}
    {now : Millis} {terminal : List String} {i : StateInterval}
    (h : i ∈ (buildIntervals createdAt currentState events now terminal).intervals) : createdAt ≤ i.start := by
  rw [buildIntervals_eq] at h
  obtain ⟨v, hv, rfl⟩ := List.mem_map.mp h
  exact (visits_from (List.mem_of_mem_filter hv)).1

section
variable {events : List StateChange}

theorem NotAfter.trans {a b c : StateChange × Nat} (h : NotAfter a b) (h' : NotAfter b c) : NotAfter a c := by
  simp only [NotAfter, Millis] at *
  omega

theorem NotAfter.total (a b : StateChange × Nat) : NotAfter a b ∨ NotAfter b a := by
  simp only [NotAfter, Millis]
  omega

theorem indexedEvents_sorted (events : List StateChange) : (indexedEvents events).Pairwise NotAfter := by
  have : Std.Total NotAfter := ⟨NotAfter.total⟩
  have : IsTrans (StateChange × Nat) NotAfter := ⟨fun _ _ _ => NotAfter.trans⟩
  exact List.pairwise_insertionSort NotAfter _

theorem mem_indexedEvents {p : StateChange × Nat} : p ∈ indexedEvents events ↔ p ∈ events.zipIdx :=
  (List.perm_insertionSort NotAfter events.zipIdx).mem_iff

theorem NotAfter.antisymm {a b : StateChange × Nat} (ha : a ∈ events.zipIdx) (hb : b ∈ events.zipIdx)
    (h : NotAfter a b) (h' : NotAfter b a) : a = b := by
  have hindex : a.2 = b.2 := by
    simp only [NotAfter, Millis] at h h'
    omega
  obtain ⟨ea, i⟩ := a
  obtain ⟨eb, j⟩ := b
  obtain rfl : i = j := hindex
  have hea := List.mk_mem_zipIdx_iff_getElem?.mp ha
  have heb := List.mk_mem_zipIdx_iff_getElem?.mp hb
  rw [Option.some.inj (hea.symm.trans heb)]

/-! ## The timeline of an item -/

theorem NotAfter.time_le {a b : StateChange × Nat} (h : NotAfter a b) : a.1.time ≤ b.1.time := by
  simp only [NotAfter, Millis] at *
  omega

theorem NotAfter.refl (a : StateChange × Nat) : NotAfter a a := .inr ⟨rfl, Nat.le_refl _⟩

theorem InForce.unique {initial : StateChange → Option String} {currentState : String} {t : Millis}
    {state state' : Option String} {reason reason' : Option WaitReason}
    (h : InForce initial currentState events t state reason)
    (h' : InForce initial currentState events t state' reason') : state = state' ∧ reason = reason' := by
  cases h with
  | entered he hpast hlast =>
    cases h' with
    | entered he' hpast' hlast' =>
      rw [NotAfter.antisymm he he' (hlast' _ he hpast) (hlast _ he' hpast')]
      exact ⟨rfl, rfl⟩
    | before _ hlater _ => exact absurd hpast (not_le.mpr (hlater _ he))
    | never hnil => rw [hnil] at he; cases he
  | before he hlater hfirst =>
    cases h' with
    | entered he' hpast' _ => exact absurd hpast' (not_le.mpr (hlater _ he'))
    | before he' _ hfirst' =>
      rw [NotAfter.antisymm he he' (hfirst _ he') (hfirst' _ he)]
      exact ⟨rfl, rfl⟩
    | never hnil => rw [hnil] at he; cases he
  | never hnil =>
    cases h' with
    | entered he' _ _ => rw [hnil] at he'; cases he'
    | before he' _ _ => rw [hnil] at he'; cases he'
    | never _ => exact ⟨rfl, rfl⟩

/-- The state before the first event, or the current one. -/
def initialState (currentState : String) (event : StateChange) : Option String :=
  some (event.fromState.getD currentState)

def timelineAt (currentState : String) (events : List StateChange) (t : Millis) : StateEntry :=
  valueAt t (firstState currentState (sortEvents events), none) ((sortEvents events).map entryOf)

theorem sortEvents_map (events : List StateChange) :
    (sortEvents events).map entryOf =
      (indexedEvents events).map fun p => (p.1.time, (p.1.toState, p.1.reason)) := by
  rw [sortEvents, List.map_map]
  rfl

theorem inForce_timelineAt (currentState : String) (events : List StateChange) (t : Millis) :
    InForce (initialState currentState) currentState events t
      (some (timelineAt currentState events t).1) (timelineAt currentState events t).2 := by
  rw [timelineAt, sortEvents_map]
  rcases valueAt_cases (fun p : StateChange × Nat => p.1.time)
      (fun p : StateChange × Nat => (p.1.toState, p.1.reason)) NotAfter.time_le
      (indexedEvents_sorted events) t (firstState currentState (sortEvents events), none) with
    ⟨e, he, hpast, hlast, hval⟩ | ⟨hlater, hval⟩
  · rw [hval]
    refine .entered (mem_indexedEvents.mp he) hpast fun p hp hpt => ?_
    rcases hlast p (mem_indexedEvents.mpr hp) hpt with rfl | hnot
    · exact NotAfter.refl p
    · exact hnot
  · rw [hval]
    cases hsorted : indexedEvents events with
    | nil =>
      have hnil : events.zipIdx = [] :=
        List.eq_nil_iff_forall_not_mem.mpr fun p hp => by
          rw [← mem_indexedEvents, hsorted] at hp
          cases hp
      have hfirst : firstState currentState (sortEvents events) = currentState := by
        rw [sortEvents, hsorted]
        rfl
      rw [hfirst]
      exact .never (List.zipIdx_eq_nil_iff.mp hnil)
    | cons p ps =>
      have hp : p ∈ events.zipIdx := by
        rw [← mem_indexedEvents, hsorted]
        exact List.mem_cons_self
      have hinitial : some (firstState currentState (sortEvents events)) = initialState currentState p.1 := by
        rw [sortEvents, hsorted]
        rfl
      rw [hinitial]
      refine .before hp (fun q hq => hlater q (mem_indexedEvents.mpr hq)) fun q hq => ?_
      have hpairwise := indexedEvents_sorted events
      rw [← mem_indexedEvents, hsorted] at hq
      rw [hsorted] at hpairwise
      rcases List.mem_cons.mp hq with rfl | hq
      · exact NotAfter.refl q
      · exact List.rel_of_pairwise_cons hpairwise hq

theorem inForce_iff {currentState : String} {t : Millis} {state : Option String} {reason : Option WaitReason} :
    InForce (initialState currentState) currentState events t state reason ↔
      state = some (timelineAt currentState events t).1 ∧ reason = (timelineAt currentState events t).2 := by
  constructor
  · exact fun h => h.unique (inForce_timelineAt currentState events t)
  · rintro ⟨rfl, rfl⟩
    exact inForce_timelineAt currentState events t

end

/-- The intervals are the timeline of the item, with the current state before a
first event that does not say what it leaves. -/
theorem buildIntervals_reconstructs (createdAt : Millis) (currentState : String) (events : List StateChange)
    (now : Millis) (terminal : List String) :
    Reconstructs (initialState currentState) createdAt currentState events now terminal
      (buildIntervals createdAt currentState events now terminal).intervals := by
  have hmem (t : Millis) (i : StateInterval)
      (hi : i ∈ (buildIntervals createdAt currentState events now terminal).intervals) (ht : i.Contains t) :
      (i.state, i.reason) = timelineAt currentState events t ∧ i.state ∉ terminal := by
    rw [buildIntervals_eq] at hi
    obtain ⟨v, hv, rfl⟩ := List.mem_map.mp hi
    obtain ⟨hv, hkept⟩ := List.mem_filter.mp hv
    have hnot : v.value.1 ∉ terminal := by simpa [kept] using hkept
    exact ⟨value_of_contains hv ht, hnot⟩
  refine ⟨buildIntervals_inOrder createdAt currentState events now terminal, fun t _ _ => ?_,
    fun t hcreated hnow state reason hforce => ?_, fun t hcreated hnow state reason hforce i hi ht => ?_⟩
  · refine ⟨(some (timelineAt currentState events t).1, (timelineAt currentState events t).2),
      inForce_timelineAt currentState events t, fun p hp => ?_⟩
    obtain ⟨hstate, hreason⟩ := inForce_iff.mp hp
    exact Prod.ext hstate hreason
  · obtain ⟨rfl, -⟩ := inForce_iff.mp hforce
    simp only [Option.mem_some_iff, forall_eq']
    constructor
    · rintro ⟨i, hi, ht⟩
      obtain ⟨heq, hnot⟩ := hmem t i hi ht
      rwa [← heq]
    · intro hnot
      obtain ⟨v, hv, ht⟩ : ∃ v ∈ visits now createdAt (firstState currentState (sortEvents events), none)
          ((sortEvents events).map entryOf), v.Contains t := exists_visit hcreated hnow
      have hvalue : v.value = timelineAt currentState events t := value_of_contains hv ht
      rw [buildIntervals_eq]
      refine ⟨intervalOf v, List.mem_map_of_mem (List.mem_filter.mpr ⟨hv, ?_⟩), ht⟩
      simpa [kept, hvalue] using hnot
  · obtain ⟨rfl, rfl⟩ := inForce_iff.mp hforce
    obtain ⟨heq, -⟩ := hmem t i hi ht
    rw [← heq]
    exact ⟨rfl, rfl⟩

/-- An event without `from_state` that closes an item again: nothing shows
before it. -/
theorem silent_first_event : ¬ ∀ (createdAt : Millis) (currentState : String) (events : List StateChange)
    (now : Millis) (terminal : List String), (∀ e ∈ events, createdAt ≤ e.time ∧ e.time ≤ now) →
      Reconstructs StateChange.fromState createdAt currentState events now terminal
        (buildIntervals createdAt currentState events now terminal).intervals := by
  intro h
  have hall := h 0 "Closed" [⟨10, none, "Closed", none⟩] 20 ["Closed"] (by decide)
  have hforce : InForce StateChange.fromState "Closed" [⟨10, none, "Closed", none⟩] 0 none none :=
    .before (e := (⟨10, none, "Closed", none⟩, 0)) (by decide) (by decide) (by decide)
  have hcovered := hall.covered 0 (by decide) (by decide) none none hforce
  obtain ⟨i, hi, -⟩ := hcovered.mpr (fun s hs => absurd hs (by simp))
  have hnone : (buildIntervals 0 "Closed" [⟨10, none, "Closed", none⟩] 20 ["Closed"]).intervals = [] := by
    decide
  rw [hnone] at hi
  cases hi

end Cadena.Flow
