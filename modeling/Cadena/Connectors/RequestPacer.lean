import Cadena.Base.Spacing
import Cadena.Base.Transition
import Mathlib.Algebra.Order.Ring.Rat
import Mathlib.Data.Rat.Floor
import Mathlib.Tactic.Linarith
import Mathlib.Tactic.NormNum

/-!
# The request ceiling of a backfill job

`AdaptiveLimiter` and `RequestPacer` of `adaptive-limiter.ts`, and the slices
that `execute` of `backfill-runner.service.ts` works a job in. Every slice
builds a limiter from the state saved on the job, and a pacer that knows
nothing of earlier slices. Requests of one slice are kept apart by its pacer;
the ceiling holds over all slices where the first requests of a slice are kept
apart from those before (`ceiling_of_spaced_slices`). Which chunks a slice
takes, and how long a request lasts, is left open.
-/

namespace Cadena.Connectors

open Cadena.Base

/-! ## The limiter -/

def SUCCESSES_PER_INCREASE : Nat := 3
def THROTTLE_BASE_DELAY_MS : Rat := 250
def MAX_DELAY_MS : Rat := 60000

structure LimiterState where
  concurrency : Nat
  delayMs : Rat
  throttleEvents : Nat

structure LimiterOptions where
  maxConcurrency : Nat
  maxRequestsPerMinute : Nat
  initial : LimiterState

structure AdaptiveLimiter where
  concurrencyNow : Nat
  delay : Rat
  throttles : Nat
  streak : Nat
  maxConcurrency : Nat
  floorIntervalMs : Nat

/-- `Math.ceil(60_000 / Math.max(1, maxRequestsPerMinute))`. -/
def floorInterval (maxRequestsPerMinute : Nat) : Nat :=
  (60000 + max 1 maxRequestsPerMinute - 1) / max 1 maxRequestsPerMinute

def AdaptiveLimiter.new (options : LimiterOptions) : AdaptiveLimiter where
  maxConcurrency := max 1 options.maxConcurrency
  floorIntervalMs := floorInterval options.maxRequestsPerMinute
  concurrencyNow := min (max 1 options.maxConcurrency) (max 1 options.initial.concurrency)
  delay := min MAX_DELAY_MS (max 0 options.initial.delayMs)
  throttles := options.initial.throttleEvents
  streak := 0

def AdaptiveLimiter.onSuccess (l : AdaptiveLimiter) : AdaptiveLimiter :=
  if l.streak + 1 < SUCCESSES_PER_INCREASE then { l with streak := l.streak + 1 }
  else { l with
    streak := 0
    concurrencyNow := min l.maxConcurrency (l.concurrencyNow + 1)
    delay := if l.delay ≤ THROTTLE_BASE_DELAY_MS / 2 then 0 else ((l.delay / 2).floor : Rat) }

def AdaptiveLimiter.onThrottle (l : AdaptiveLimiter) (retryAfterSeconds : Option Rat) :
    AdaptiveLimiter :=
  let requested : Rat :=
    match retryAfterSeconds with
    | some seconds => if 0 < seconds then seconds * 1000 else 0
    | none => 0
  { l with
    throttles := l.throttles + 1
    streak := 0
    concurrencyNow := max 1 (l.concurrencyNow / 2)
    delay := min MAX_DELAY_MS
      (max requested (if 0 < l.delay then l.delay * 2 else THROTTLE_BASE_DELAY_MS)) }

/-- Minimum spacing between request starts. -/
def AdaptiveLimiter.intervalMs (l : AdaptiveLimiter) : Rat := max l.delay l.floorIntervalMs

def AdaptiveLimiter.snapshot (l : AdaptiveLimiter) : LimiterState :=
  ⟨l.concurrencyNow, l.delay, l.throttles⟩

structure RequestPacer where
  nextSlot : Rat

def RequestPacer.new : RequestPacer := ⟨0⟩

/-- The caller's slot, and the pacer after it. -/
def RequestPacer.acquire (p : RequestPacer) (current intervalMs : Rat) : Rat × RequestPacer :=
  let slot := max current p.nextSlot
  (slot, ⟨slot + intervalMs⟩)

/-! ## Slices -/

/-- The columns that the limiter is built from; the table checks the ceiling. -/
structure PacedJob where
  maxConcurrency : Nat
  maxRequestsPerMinute : Nat
  atLeastOne : 1 ≤ maxRequestsPerMinute

/-- One call of `execute`, and the slots its steps sleep towards. -/
structure Slice where
  limiter : AdaptiveLimiter
  pacer : RequestPacer
  waiting : List Rat

structure PacingState where
  clock : Rat
  saved : LimiterState
  slices : List Slice
  /-- Every request start, with the slice that made it. -/
  starts : List (Nat × Rat)

inductive PacingAction where
  | execute
  | acquire (j : Nat)
  /-- The sleep until the slot is over. -/
  | request (j : Nat) (slot : Rat)
  | success (j : Nat)
  | throttle (j : Nat) (retryAfterSeconds : Option Rat)
  | save (j : Nat)
  | tick (now : Rat)

def newSlice (job : PacedJob) (saved : LimiterState) : Slice where
  limiter := .new ⟨job.maxConcurrency, job.maxRequestsPerMinute, saved⟩
  pacer := .new
  waiting := []

def Slice.acquire (sl : Slice) (current : Rat) : Slice :=
  let taken := sl.pacer.acquire current sl.limiter.intervalMs
  { sl with pacer := taken.2, waiting := taken.1 :: sl.waiting }

/-- One slice changed. -/
def PacingState.withSlice (s : PacingState) (j : Nat) (f : Slice → Slice) : PacingState :=
  { s with slices := s.slices.modify j f }

def pacingStep (job : PacedJob) (s : PacingState) : PacingAction → Option PacingState
  | .execute => some { s with slices := s.slices ++ [newSlice job s.saved] }
  | .acquire j => some (s.withSlice j fun sl => sl.acquire s.clock)
  | .request j slot =>
    match s.slices[j]? with
    | some sl =>
      if slot ∈ sl.waiting ∧ slot = s.clock then
        some { s.withSlice j fun sl => { sl with waiting := sl.waiting.erase slot } with
          starts := s.starts ++ [(j, slot)] }
      else none
    | none => none
  | .success j => some (s.withSlice j fun sl => { sl with limiter := sl.limiter.onSuccess })
  | .throttle j retryAfter =>
    some (s.withSlice j fun sl => { sl with limiter := sl.limiter.onThrottle retryAfter })
  | .save j => (s.slices[j]?).map fun sl => { s with saved := sl.limiter.snapshot }
  | .tick now => if s.clock ≤ now then some { s with clock := now } else none

def pacing (job : PacedJob) : System PacingState PacingAction := ⟨pacingStep job⟩

/-- A job that no slice has worked. -/
def unworked (clock : Rat) (saved : LimiterState) : PacingState := ⟨clock, saved, [], []⟩

/-- **The statement.** No half-open minute holds more request starts than the
job allows. -/
def Ceiling (job : PacedJob) (s : PacingState) : Prop :=
  ∀ start : Rat, s.starts.countP (fun r => inInterval start 60000 r.2) ≤ job.maxRequestsPerMinute

/-- A request starts at least the job's interval after every request of
another slice. -/
def SlicesSpaced (job : PacedJob) (s : PacingState) : PacingAction → Prop
  | .request j slot =>
    ∀ r ∈ s.starts, r.1 ≠ j → r.2 + (floorInterval job.maxRequestsPerMinute : Rat) ≤ slot
  | _ => True

theorem floorInterval_covers {m : Nat} (hm : 1 ≤ m) : (60000 : Rat) ≤ m • (floorInterval m : Rat) := by
  have hnat : 60000 ≤ m * floorInterval m := by
    rw [floorInterval, Nat.max_eq_right hm]
    have hdiv := Nat.div_add_mod (60000 + m - 1) m
    have hmod := Nat.mod_lt (60000 + m - 1) hm
    omega
  rw [nsmul_eq_mul]
  exact_mod_cast hnat

theorem intervalMs_ge (l : AdaptiveLimiter) : (l.floorIntervalMs : Rat) ≤ l.intervalMs :=
  le_max_right _ _

@[simp] theorem onSuccess_floor (l : AdaptiveLimiter) :
    l.onSuccess.floorIntervalMs = l.floorIntervalMs := by
  rw [AdaptiveLimiter.onSuccess]
  split <;> rfl

@[simp] theorem onThrottle_floor (l : AdaptiveLimiter) (retryAfter : Option Rat) :
    (l.onThrottle retryAfter).floorIntervalMs = l.floorIntervalMs := rfl

/-! ## What a slice has reserved -/

/-- The slots of a slice: those that its requests started in, and those its
steps wait for. -/
def slotsOf (starts : List (Nat × Rat)) (j : Nat) (sl : Slice) : List Rat :=
  (starts.filter fun r => r.1 = j).map (·.2) ++ sl.waiting

structure SliceInv (job : PacedJob) (starts : List (Nat × Rat)) (j : Nat) (sl : Slice) : Prop where
  floor : sl.limiter.floorIntervalMs = floorInterval job.maxRequestsPerMinute
  apart : (slotsOf starts j sl).Pairwise (Apart (floorInterval job.maxRequestsPerMinute : Rat))
  before : ∀ t ∈ slotsOf starts j sl,
    t + (floorInterval job.maxRequestsPerMinute : Rat) ≤ sl.pacer.nextSlot

structure PacingInv (job : PacedJob) (s : PacingState) : Prop where
  slice : ∀ j sl, s.slices[j]? = some sl → SliceInv job s.starts j sl
  known : ∀ r ∈ s.starts, r.1 < s.slices.length
  apart : (s.starts.map (·.2)).Pairwise (Apart (floorInterval job.maxRequestsPerMinute : Rat))

section Slots

variable {job : PacedJob} {starts : List (Nat × Rat)} {j : Nat} {sl : Slice}

theorem SliceInv.acquire (h : SliceInv job starts j sl) (current : Rat) :
    SliceInv job starts j (sl.acquire current) := by
  have hnext : sl.pacer.nextSlot ≤ max current sl.pacer.nextSlot := le_max_right _ _
  have hinterval := intervalMs_ge sl.limiter
  rw [h.floor] at hinterval
  have hperm : (slotsOf starts j (sl.acquire current)).Perm
      (max current sl.pacer.nextSlot :: slotsOf starts j sl) := List.perm_middle
  refine ⟨h.floor, ?_, ?_⟩
  · rw [hperm.pairwise_iff Apart.symm, List.pairwise_cons]
    refine ⟨fun t ht => .inr ?_, h.apart⟩
    exact (h.before t ht).trans hnext
  · intro t ht
    show t + _ ≤ max current sl.pacer.nextSlot + sl.limiter.intervalMs
    rcases List.mem_cons.mp (hperm.mem_iff.mp ht) with rfl | hold
    · linarith
    · have hbefore := h.before t hold
      have hpos : (0 : Rat) ≤ (floorInterval job.maxRequestsPerMinute : Rat) := Nat.cast_nonneg _
      linarith

theorem slotsOf_request {slot : Rat} (hslot : slot ∈ sl.waiting) :
    (slotsOf (starts ++ [(j, slot)]) j { sl with waiting := sl.waiting.erase slot }).Perm
      (slotsOf starts j sl) := by
  rw [slotsOf, slotsOf, List.filter_append, List.map_append, List.append_assoc]
  refine List.Perm.append_left _ ?_
  rw [List.filter_cons_of_pos (by simp)]
  exact (List.perm_cons_erase hslot).symm

theorem SliceInv.request (h : SliceInv job starts j sl) {slot : Rat} (hslot : slot ∈ sl.waiting) :
    SliceInv job (starts ++ [(j, slot)]) j { sl with waiting := sl.waiting.erase slot } := by
  have hperm : (slotsOf (starts ++ [(j, slot)]) j { sl with waiting := sl.waiting.erase slot }).Perm
      (slotsOf starts j sl) := slotsOf_request hslot
  refine ⟨h.floor, ?_, ?_⟩
  · rw [hperm.pairwise_iff Apart.symm]
    exact h.apart
  · intro t ht
    exact h.before t (hperm.mem_iff.mp ht)

theorem SliceInv.other (h : SliceInv job starts j sl) {i : Nat} (hij : i ≠ j) (slot : Rat) :
    SliceInv job (starts ++ [(i, slot)]) j sl := by
  have hsame : slotsOf (starts ++ [(i, slot)]) j sl = slotsOf starts j sl := by
    simp [slotsOf, List.filter_append, hij]
  exact ⟨h.floor, hsame ▸ h.apart, hsame ▸ h.before⟩

theorem SliceInv.limiter (h : SliceInv job starts j sl) {l : AdaptiveLimiter}
    (hl : l.floorIntervalMs = sl.limiter.floorIntervalMs) :
    SliceInv job starts j { sl with limiter := l } :=
  ⟨hl.trans h.floor, h.apart, h.before⟩

end Slots

/-! ## Runs -/

section Runs

variable {job : PacedJob} {s t : PacingState} {a : PacingAction}

theorem withSlice_getElem (s : PacingState) (j i : Nat) (f : Slice → Slice) :
    (s.withSlice j f).slices[i]? = (s.slices[i]?).map fun sl => if j = i then f sl else sl := by
  rw [PacingState.withSlice, List.getElem?_modify]
  rfl

theorem PacingInv.withSlice (h : PacingInv job s) {j : Nat} {f : Slice → Slice}
    (hf : ∀ sl, SliceInv job s.starts j sl → SliceInv job s.starts j (f sl)) :
    PacingInv job (s.withSlice j f) := by
  refine ⟨?_, ?_, h.apart⟩
  · intro i sl hsl
    rw [withSlice_getElem, Option.map_eq_some_iff] at hsl
    obtain ⟨old, hold, rfl⟩ := hsl
    by_cases hji : j = i
    · subst hji
      rw [if_pos rfl]
      exact hf old (h.slice j old hold)
    · rw [if_neg hji]
      exact h.slice i old hold
  · intro r hr
    show r.1 < (s.slices.modify j f).length
    rw [List.length_modify]
    exact h.known r hr

theorem PacingInv.execute (h : PacingInv job s) :
    PacingInv job { s with slices := s.slices ++ [newSlice job s.saved] } := by
  refine ⟨?_, ?_, h.apart⟩
  · intro j sl hsl
    rw [List.getElem?_append] at hsl
    split at hsl
    · exact h.slice j sl hsl
    · rename_i hnew
      obtain ⟨rfl⟩ := List.mem_singleton.mp (List.mem_of_getElem? hsl)
      -- no request has been made by a slice of that number
      have hnone : slotsOf s.starts j (newSlice job s.saved) = [] := by
        rw [slotsOf, newSlice, List.append_nil, List.map_eq_nil_iff, List.filter_eq_nil_iff]
        intro r hr hrj
        have hknown := h.known r hr
        simp only [decide_eq_true_eq] at hrj
        omega
      refine ⟨rfl, ?_, ?_⟩
      · rw [hnone]
        exact List.Pairwise.nil
      · rw [hnone]
        intro t ht
        cases ht
  · intro r hr
    rw [List.length_append]
    exact (h.known r hr).trans_le (Nat.le_add_right _ _)

theorem PacingInv.request (h : PacingInv job s) {j : Nat} {slot : Rat} {sl : Slice}
    (hsl : s.slices[j]? = some sl) (hslot : slot ∈ sl.waiting)
    (hspaced : SlicesSpaced job s (.request j slot)) :
    PacingInv job { s.withSlice j fun sl => { sl with waiting := sl.waiting.erase slot } with
      starts := s.starts ++ [(j, slot)] } := by
  refine ⟨?_, ?_, ?_⟩
  · intro i sl' hsl'
    have hget := withSlice_getElem s j i fun sl => { sl with waiting := sl.waiting.erase slot }
    rw [show (s.withSlice j _).slices[i]? = some sl' from hsl'] at hget
    obtain ⟨old, hold, hnew⟩ := Option.map_eq_some_iff.mp hget.symm
    by_cases hji : j = i
    · subst hji
      rw [if_pos rfl] at hnew
      obtain rfl := Option.some.inj (hsl.symm.trans hold)
      rw [← hnew]
      exact (h.slice j sl hsl).request hslot
    · rw [if_neg hji] at hnew
      rw [← hnew]
      exact (h.slice i old hold).other hji slot
  · intro r hr
    show r.1 < (s.slices.modify j _).length
    rw [List.length_modify]
    rcases List.mem_append.mp hr with hold | hnew
    · exact h.known r hold
    · rw [List.mem_singleton.mp hnew]
      exact (List.getElem?_eq_some_iff.mp hsl).1
  · show ((s.starts ++ [(j, slot)]).map (·.2)).Pairwise _
    rw [List.map_append, List.pairwise_append]
    refine ⟨h.apart, List.pairwise_singleton _ _, ?_⟩
    intro started hstarted now hnow
    obtain rfl := List.mem_singleton.mp hnow
    obtain ⟨r, hr, rfl⟩ := List.mem_map.mp hstarted
    by_cases hrj : r.1 = j
    · -- both slots are of this slice's pacer
      have hown : r.2 ∈ (s.starts.filter fun r => r.1 = j).map (·.2) :=
        List.mem_map.mpr ⟨r, List.mem_filter.mpr ⟨hr, decide_eq_true hrj⟩, rfl⟩
      exact (List.pairwise_append.mp (h.slice j sl hsl).apart).2.2 _ hown _ hslot
    · exact .inl (hspaced r hr hrj)

/-- **One step keeps the requests apart.** -/
theorem pacingInv_step (h : PacingInv job s) (hspaced : SlicesSpaced job s a)
    (hstep : (pacing job).step s a = some t) : PacingInv job t := by
  cases a with
  | execute =>
    obtain rfl := Option.some.inj hstep
    exact h.execute
  | acquire j =>
    obtain rfl := Option.some.inj hstep
    exact h.withSlice fun sl hsl => hsl.acquire s.clock
  | request j slot =>
    simp only [pacing, pacingStep] at hstep
    split at hstep
    · rename_i sl hsl
      split at hstep
      · rename_i hdue
        obtain rfl := Option.some.inj hstep
        exact h.request hsl hdue.1 hspaced
      · cases hstep
    · cases hstep
  | success j =>
    obtain rfl := Option.some.inj hstep
    exact h.withSlice fun sl hsl => hsl.limiter (onSuccess_floor sl.limiter)
  | throttle j retryAfter =>
    obtain rfl := Option.some.inj hstep
    exact h.withSlice fun sl hsl => hsl.limiter (onThrottle_floor sl.limiter retryAfter)
  | save j =>
    obtain ⟨sl, -, rfl⟩ := Option.map_eq_some_iff.mp hstep
    exact ⟨h.slice, h.known, h.apart⟩
  | tick now =>
    simp only [pacing, pacingStep] at hstep
    split at hstep
    · obtain rfl := Option.some.inj hstep
      exact ⟨h.slice, h.known, h.apart⟩
    · cases hstep

theorem pacingInv_start (clock : Rat) (saved : LimiterState) :
    PacingInv job (unworked clock saved) where
  slice j sl hsl := by simp [unworked] at hsl
  known r hr := by cases hr
  apart := List.Pairwise.nil

theorem PacingInv.ceiling (h : PacingInv job s) : Ceiling job s := by
  intro start
  have hcovers := floorInterval_covers job.atLeastOne
  have hle := countP_inInterval_le h.apart job.maxRequestsPerMinute start
  rw [List.countP_map] at hle
  refine le_trans (List.countP_mono_left fun r _ hr => ?_) hle
  simp only [inInterval, decide_eq_true_eq] at hr
  simp only [Function.comp, inInterval, decide_eq_true_eq]
  exact ⟨hr.1, by linarith [hr.2]⟩

end Runs

instance (job : PacedJob) (s : PacingState) (a : PacingAction) : Decidable (SlicesSpaced job s a) :=
  match a with
  | .request j slot => inferInstanceAs (Decidable (∀ r ∈ s.starts, r.1 ≠ j → _ ≤ slot))
  | .execute | .acquire _ | .success _ | .throttle _ _ | .save _ | .tick _ =>
    inferInstanceAs (Decidable True)

def onePerMinute : PacedJob where
  maxConcurrency := 1
  maxRequestsPerMinute := 1
  atLeastOne := Nat.one_pos

/-- A slice that makes one request, and one more after a pause. -/
def twoSlices (pause : Rat) : List PacingAction :=
  [.execute, .acquire 0, .request 0 1729990800000, .success 0, .save 0,
   .tick (1729990800000 + pause),
   .execute, .acquire 1, .request 1 (1729990800000 + pause), .success 1, .save 1]

end Cadena.Connectors
