import Mathlib.Algebra.BigOperators.Group.List.Basic
import Mathlib.Order.Lattice
import Mathlib.Order.MinMax

/-!
# Timelines

A history of changes read as stretches of time with one value each: the value
in force at an instant, the stretches in order, the stretches cut to a window,
and what is measured in windows that meet.
-/

namespace Cadena.Base.Timeline

variable {τ σ ι : Type}

section
variable [LinearOrder τ] (start stop : ι → τ)

/-- Stretches one after the other, none of them empty. -/
structure InOrder (spans : List ι) : Prop where
  positive : ∀ x ∈ spans, start x < stop x
  ordered : spans.Pairwise fun x y => stop x ≤ start y

variable {start stop} {spans : List ι} {x y : ι} {t : τ}

theorem InOrder.of_cons (h : InOrder start stop (x :: spans)) : InOrder start stop spans where
  positive y hy := h.positive y (List.mem_cons_of_mem _ hy)
  ordered := h.ordered.of_cons

/-- Two stretches that have an instant in common are one. -/
theorem InOrder.unique (h : InOrder start stop spans) (hx : x ∈ spans) (hy : y ∈ spans)
    (htx : start x ≤ t ∧ t < stop x) (hty : start y ≤ t ∧ t < stop y) : x = y := by
  induction spans with
  | nil => cases hx
  | cons z spans ih =>
    have hlater (w : ι) (hw : w ∈ spans) : stop z ≤ start w := List.rel_of_pairwise_cons h.ordered hw
    rcases List.mem_cons.mp hx with rfl | hx' <;> rcases List.mem_cons.mp hy with rfl | hy'
    · rfl
    · exact absurd (lt_of_lt_of_le htx.2 (le_trans (hlater y hy') hty.1)) (lt_irrefl _)
    · exact absurd (lt_of_lt_of_le hty.2 (le_trans (hlater x hx') htx.1)) (lt_irrefl _)
    · exact ih h.of_cons hx' hy'

theorem InOrder.filter (h : InOrder start stop spans) (p : ι → Bool) :
    InOrder start stop (spans.filter p) where
  positive x hx := h.positive x (List.mem_of_mem_filter hx)
  ordered := h.ordered.filter p

theorem InOrder.find_around (h : InOrder start stop spans) (hx : x ∈ spans) {p : ι → Bool} (hp : p x = true)
    {s e : τ} (hse : s < e) (hs : start x ≤ s) (he : e ≤ stop x) :
    spans.find? (fun y => p y && decide (start y ≤ s) && decide (e ≤ stop y)) = some x := by
  cases hfind : spans.find? fun y => p y && decide (start y ≤ s) && decide (e ≤ stop y) with
  | none => exact absurd (List.find?_eq_none.mp hfind x hx) (by simp [hp, hs, he])
  | some y =>
    have hy := List.find?_some hfind
    simp only [Bool.and_eq_true, decide_eq_true_eq] at hy
    have hsame := h.unique (t := s) (List.mem_of_find?_eq_some hfind) hx
      ⟨hy.1.2, lt_of_lt_of_le hse hy.2⟩ ⟨hs, lt_of_lt_of_le hse he⟩
    rw [hsame]

end

/-! ## Visits -/

/-- A stretch of time with one value; `ongoing` is the one that is not over. -/
structure Visit (τ σ : Type) where
  value : σ
  start : τ
  stop : τ
  ongoing : Bool

section
variable [LinearOrder τ]

def Visit.Contains (v : Visit τ σ) (t : τ) : Prop := v.start ≤ t ∧ t < v.stop

/-- Of a stretch without length nothing is kept. -/
def visit (value : σ) (start stop : τ) (ongoing : Bool) : List (Visit τ σ) :=
  if start < stop then [⟨value, start, stop, ongoing⟩] else []

/-- The visits from the cursor on, through the changes and up to the end. A
change before the cursor counts, but takes no time back. -/
def visits (stop : τ) : τ → σ → List (τ × σ) → List (Visit τ σ)
  | cursor, value, [] => visit value cursor stop true
  | cursor, value, (t, next) :: changes =>
    visit value cursor t false ++ visits stop (max cursor t) next changes

/-- The value in force at an instant, by changes in the order of their times. -/
def valueAt (t : τ) : σ → List (τ × σ) → σ
  | value, [] => value
  | value, (t', next) :: changes => if t' ≤ t then valueAt t next changes else value

variable {stop cursor t : τ} {value : σ} {changes : List (τ × σ)} {v : Visit τ σ}

def lastValue (value : σ) (changes : List (τ × σ)) : σ := ((changes.getLast?).map (·.2)).getD value

omit [LinearOrder τ] in
theorem lastValue_cons (change : τ × σ) : lastValue value (change :: changes) = lastValue change.2 changes := by
  cases changes with
  | nil => rfl
  | cons next changes => rfl

omit [LinearOrder τ] in
theorem lastValue_map {ρ : Type} (f : σ → ρ) :
    f (lastValue value changes) = lastValue (f value) (changes.map fun c => (c.1, f c.2)) := by
  unfold lastValue
  rw [List.getLast?_map]
  cases changes.getLast? with
  | none => rfl
  | some c => rfl

theorem valueAt_past (h : ∀ c ∈ changes, c.1 ≤ t) : valueAt t value changes = lastValue value changes := by
  induction changes generalizing value with
  | nil => rfl
  | cons change changes ih =>
    rw [valueAt, if_pos (h change List.mem_cons_self), lastValue_cons]
    exact ih fun c hc => h c (List.mem_cons_of_mem _ hc)

theorem valueAt_cases (time : ι → τ) (val : ι → σ) {R : ι → ι → Prop} (hR : ∀ {a b}, R a b → time a ≤ time b)
    {l : List ι} (h : l.Pairwise R) (t : τ) (value : σ) :
    (∃ e ∈ l, time e ≤ t ∧ (∀ p ∈ l, time p ≤ t → p = e ∨ R p e) ∧
      valueAt t value (l.map fun e => (time e, val e)) = val e) ∨
    ((∀ p ∈ l, t < time p) ∧ valueAt t value (l.map fun e => (time e, val e)) = value) := by
  induction l generalizing value with
  | nil => exact .inr ⟨fun _ hp => absurd hp List.not_mem_nil, rfl⟩
  | cons a l ih =>
    have hafter (p : ι) (hp : p ∈ l) : R a p := List.rel_of_pairwise_cons h hp
    rw [List.map_cons, valueAt]
    by_cases hpast : time a ≤ t
    · rw [if_pos hpast]
      left
      rcases ih h.of_cons (val a) with ⟨e, he, het, hlast, hval⟩ | ⟨hlater, hval⟩
      · refine ⟨e, List.mem_cons_of_mem _ he, het, fun p hp hpt => ?_, hval⟩
        rcases List.mem_cons.mp hp with rfl | hp
        · exact .inr (hafter e he)
        · exact hlast p hp hpt
      · refine ⟨a, List.mem_cons_self, hpast, fun p hp hpt => ?_, hval⟩
        rcases List.mem_cons.mp hp with rfl | hp
        · exact .inl rfl
        · exact absurd hpt (not_le.mpr (hlater p hp))
    · rw [if_neg hpast]
      refine .inr ⟨fun p hp => ?_, rfl⟩
      rcases List.mem_cons.mp hp with rfl | hp
      · exact not_le.mp hpast
      · exact lt_of_lt_of_le (not_le.mp hpast) (hR (hafter p hp))

theorem mem_visit {start : τ} {ongoing : Bool} :
    v ∈ visit value start stop ongoing ↔ start < stop ∧ v = ⟨value, start, stop, ongoing⟩ := by
  unfold visit
  split
  · rename_i h
    simp [h]
  · rename_i h
    simp [h]

theorem visits_from (h : v ∈ visits stop cursor value changes) : cursor ≤ v.start ∧ v.start < v.stop := by
  induction changes generalizing cursor value with
  | nil =>
    obtain ⟨hlt, rfl⟩ := mem_visit.mp h
    exact ⟨le_refl _, hlt⟩
  | cons change changes ih =>
    rcases List.mem_append.mp h with h | h
    · obtain ⟨hlt, rfl⟩ := mem_visit.mp h
      exact ⟨le_refl _, hlt⟩
    · obtain ⟨hle, hlt⟩ := ih h
      exact ⟨le_trans (le_max_left _ _) hle, hlt⟩

theorem visits_inOrder (stop cursor : τ) (value : σ) (changes : List (τ × σ)) :
    InOrder Visit.start Visit.stop (visits stop cursor value changes) where
  positive v hv := (visits_from hv).2
  ordered := by
    induction changes generalizing cursor value with
    | nil =>
      unfold visits visit
      split
      · exact List.pairwise_singleton _ _
      · exact List.Pairwise.nil
    | cons change changes ih =>
      rw [visits, List.pairwise_append]
      refine ⟨?_, ih _ _, fun a ha b hb => ?_⟩
      · unfold visit
        split
        · exact List.pairwise_singleton _ _
        · exact List.Pairwise.nil
      · obtain ⟨-, rfl⟩ := mem_visit.mp ha
        exact le_trans (le_max_right _ _) (visits_from hb).1

theorem value_of_contains (hv : v ∈ visits stop cursor value changes) (ht : v.Contains t) :
    v.value = valueAt t value changes := by
  induction changes generalizing cursor value with
  | nil =>
    obtain ⟨-, rfl⟩ := mem_visit.mp hv
    rfl
  | cons change changes ih =>
    rw [valueAt]
    rcases List.mem_append.mp hv with hv | hv
    · obtain ⟨-, rfl⟩ := mem_visit.mp hv
      rw [if_neg (not_le.mpr ht.2)]
    · have hpast : change.1 ≤ t := le_trans (le_trans (le_max_right _ _) (visits_from hv).1) ht.1
      rw [if_pos hpast]
      exact ih hv

theorem exists_visit (hcursor : cursor ≤ t) (hstop : t < stop) :
    ∃ v ∈ visits stop cursor value changes, v.Contains t := by
  induction changes generalizing cursor value with
  | nil => exact ⟨_, mem_visit.mpr ⟨lt_of_le_of_lt hcursor hstop, rfl⟩, hcursor, hstop⟩
  | cons change changes ih =>
    by_cases hpast : change.1 ≤ t
    · obtain ⟨v, hv, ht⟩ := ih (max_le hcursor hpast)
      exact ⟨v, List.mem_append_right _ hv, ht⟩
    · have hbefore : t < change.1 := not_le.mp hpast
      have hvisit : ⟨value, cursor, change.1, false⟩ ∈ visit value cursor change.1 false :=
        mem_visit.mpr ⟨lt_of_le_of_lt hcursor hbefore, rfl⟩
      exact ⟨_, List.mem_append_left _ hvisit, hcursor, hbefore⟩

theorem ongoing_iff {p : σ → Prop} :
    (∃ v ∈ visits stop cursor value changes, v.ongoing = true ∧ p v.value) ↔
      p (lastValue value changes) ∧ cursor < stop ∧ ∀ c ∈ changes, c.1 < stop := by
  induction changes generalizing cursor value with
  | nil =>
    constructor
    · rintro ⟨v, hv, -, hp⟩
      obtain ⟨hlt, rfl⟩ := mem_visit.mp hv
      exact ⟨hp, hlt, fun _ hc => absurd hc List.not_mem_nil⟩
    · rintro ⟨hp, hlt, -⟩
      exact ⟨_, mem_visit.mpr ⟨hlt, rfl⟩, rfl, hp⟩
  | cons change changes ih =>
    rw [lastValue_cons]
    constructor
    · rintro ⟨v, hv, hongoing, hp⟩
      rcases List.mem_append.mp hv with hv | hv
      · obtain ⟨-, rfl⟩ := mem_visit.mp hv
        cases hongoing
      · obtain ⟨hlast, hstart, hlater⟩ := ih.mp ⟨v, hv, hongoing, hp⟩
        exact ⟨hlast, (max_lt_iff.mp hstart).1, List.forall_mem_cons.mpr ⟨(max_lt_iff.mp hstart).2, hlater⟩⟩
    · rintro ⟨hlast, hstart, hlater⟩
      obtain ⟨hchange, hlater⟩ := List.forall_mem_cons.mp hlater
      obtain ⟨v, hv, hongoing, hp⟩ := ih.mpr ⟨hlast, max_lt_iff.mpr ⟨hstart, hchange⟩, hlater⟩
      exact ⟨v, List.mem_append_right _ hv, hongoing, hp⟩

end

/-- What is measured from one instant to another, such that parts add up. -/
structure Measure (τ M : Type) [LinearOrder τ] [AddCommMonoid M] where
  of : τ → τ → M
  empty : ∀ {a b}, b ≤ a → of a b = 0
  add : ∀ {a b c}, a ≤ b → b ≤ c → of a c = of a b + of b c

section
variable {M : Type} [LinearOrder τ] [AddCommMonoid M] {a b c : τ}

theorem Measure.window_add (m : Measure τ M) (hab : a ≤ b) (hbc : b ≤ c) (start stop : τ) :
    m.of (max a start) (min c stop) = m.of (max a start) (min b stop) + m.of (max b start) (min c stop) := by
  rcases le_total stop b with hstop | hstop
  · have hright : min c stop ≤ max b start := le_trans (min_le_right _ _) (le_trans hstop (le_max_left _ _))
    rw [m.empty hright, add_zero, min_eq_right hstop, min_eq_right (le_trans hstop hbc)]
  · rw [min_eq_left hstop]
    rcases le_total b start with hstart | hstart
    · have hleft : b ≤ max a start := le_trans hstart (le_max_right _ _)
      rw [m.empty hleft, zero_add, max_eq_right hstart, max_eq_right (le_trans hab hstart)]
    · rw [max_eq_left hstart]
      exact m.add (max_le hab hstart) (le_min hbc hstop)

end

end Cadena.Base.Timeline
