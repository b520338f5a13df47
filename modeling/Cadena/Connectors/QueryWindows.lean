import Cadena.Base.IsoTime
import Mathlib.Data.Set.Function
import Mathlib.Order.Interval.Set.Basic
import Mathlib.Tactic.Linarith

/-!
# Instants as wall-clock text in a query

Both adapters send the bounds of a backfill window, and the watermark of an
incremental fetch, as wall-clock time in the account's zone; the provider reads
it back as an instant. A window selects by instant exactly when both its bounds
are shown by one instant only (`windows_select_by_instant_iff`). Text is taken
here as the wall-clock time that it names, in milliseconds.
-/

namespace Cadena.Connectors

open Cadena.Base

/-! ## Reading a name back

A name may stand for several instants; a reader picks one of them. -/

section Reading

variable {α β : Type} {name : α → β}

/-- The reader returns something that has the name, where anything has. -/
def Reads (name : α → β) (read : β → α) : Prop := Set.RightInvOn read name (Set.range name)

theorem exists_reads [Nonempty α] (name : α → β) : ∃ read, Reads name read :=
  ⟨Function.invFunOn name Set.univ, by
    rintro _ ⟨a, rfl⟩
    exact Function.invFunOn_eq ⟨a, Set.mem_univ a, rfl⟩⟩

theorem Reads.update [DecidableEq β] {read : β → α} (h : Reads name read) {b : β} {a : α}
    (ha : b ∈ Set.range name → name a = b) : Reads name (Function.update read b a) := by
  intro c hc
  by_cases hcb : c = b
  · subst hcb
    rw [Function.update_self]
    exact ha hc
  · rw [Function.update_of_ne hcb]
    exact h hc

theorem forall_reads_iff [DecidableEq β] [Nonempty α] (P : α → Prop) (b : β) :
    (∀ read, Reads name read → P (read b)) ↔
      ∀ a, (b ∈ Set.range name → name a = b) → P a := by
  constructor
  · intro h a ha
    obtain ⟨read, hread⟩ := exists_reads name
    have hpick := h _ (hread.update ha)
    rwa [Function.update_self] at hpick
  · intro h read hread
    exact h (read b) fun hb => hread hb

theorem forall_reads_eq_iff [DecidableEq β] [Nontrivial α] (a : α) (b : β) :
    (∀ read, Reads name read → read b = a) ↔ ∀ s, name s = b ↔ s = a := by
  rw [forall_reads_iff (fun s => s = a)]
  constructor
  · intro h
    have hnamed : b ∈ Set.range name := by
      by_contra hnone
      obtain ⟨other, hother⟩ := exists_ne a
      exact hother (h other fun hb => absurd hb hnone)
    obtain ⟨s, hs⟩ := hnamed
    have hsa : s = a := h s fun _ => hs
    intro t
    constructor
    · intro ht
      exact h t fun _ => ht
    · rintro rfl
      rw [← hsa]
      exact hs
  · intro h s hs
    exact (h s).mp (hs ⟨a, (h a).mpr rfl⟩)

end Reading

/-- A zone, by what it adds to an instant to show the time of day there. -/
structure TimeZone where
  offset : Millis → Int

def TimeZone.localTime (zone : TimeZone) (instant : Millis) : Int := instant + zone.offset instant

/-- The text is in whole seconds. -/
def formatInTimeZone (instant : Millis) (zone : TimeZone) : Int :=
  zone.localTime instant / 1000 * 1000

def JQL_OVERLAP_MS : Int := 60000

/-- How an adapter writes the bounds of its queries. -/
structure UpdatedQuery where
  bound : Millis → TimeZone → Int
  since : Millis → TimeZone → Int

/-- `updatedClause` keeps sixteen characters of the text, which leaves out the
seconds; `fetchChanges` and `fetchNativeQuery` read a minute back. -/
def jiraQuery : UpdatedQuery where
  bound instant zone := formatInTimeZone instant zone / 60000 * 60000
  since watermark zone := formatInTimeZone (watermark - JQL_OVERLAP_MS) zone / 60000 * 60000

def serviceNowQuery : UpdatedQuery where
  bound := formatInTimeZone
  since := formatInTimeZone

/-- `updated >= from AND updated < to`, as the provider evaluates it. -/
def UpdatedQuery.inWindow (q : UpdatedQuery) (zone : TimeZone) (resolve : Int → Millis)
    (windowFrom windowTo updatedAt : Millis) : Prop :=
  resolve (q.bound windowFrom zone) ≤ updatedAt ∧ updatedAt < resolve (q.bound windowTo zone)

/-- The lower bound of an incremental fetch. -/
def UpdatedQuery.isSince (q : UpdatedQuery) (zone : TimeZone) (resolve : Int → Millis)
    (watermark updatedAt : Millis) : Prop :=
  resolve (q.since watermark zone) ≤ updatedAt

/-- What is written is what the zone shows at that instant, and at no other. -/
def UpdatedQuery.ShownOnce (q : UpdatedQuery) (zone : TimeZone) (instant : Millis) : Prop :=
  ∀ s, zone.localTime s = q.bound instant zone ↔ s = instant

/-- What is written is shown at some instant, and never after the watermark. -/
def UpdatedQuery.ShownBefore (q : UpdatedQuery) (zone : TimeZone) (watermark : Millis) : Prop :=
  (∃ s, zone.localTime s = q.since watermark zone) ∧
    ∀ s, zone.localTime s = q.since watermark zone → s ≤ watermark

/-! ## Windows -/

section Windows

variable (q : UpdatedQuery) (zone : TimeZone)

theorem window_eq_iff {a b x y : Millis} (hab : a < b) :
    (∀ u, (x ≤ u ∧ u < y) ↔ (a ≤ u ∧ u < b)) ↔ x = a ∧ y = b := by
  constructor
  · intro h
    have hsub : Set.Ico a b ⊆ Set.Ico x y := fun u hu => (h u).mpr hu
    have hsup : Set.Ico x y ⊆ Set.Ico a b := fun u hu => (h u).mp hu
    have hle := (Set.Ico_subset_Ico_iff hab).mp hsub
    have hxy : x < y := by linarith [hle.1, hle.2]
    have hge := (Set.Ico_subset_Ico_iff hxy).mp hsup
    exact ⟨le_antisymm hle.1 hge.1, le_antisymm hge.2 hle.2⟩
  · rintro ⟨rfl, rfl⟩ u
    rfl

theorem inWindow_iff {windowFrom windowTo : Millis} (hlt : windowFrom < windowTo) :
    (∀ resolve, Reads zone.localTime resolve → ∀ updatedAt,
        q.inWindow zone resolve windowFrom windowTo updatedAt ↔
          windowFrom ≤ updatedAt ∧ updatedAt < windowTo) ↔
      q.ShownOnce zone windowFrom ∧ q.ShownOnce zone windowTo := by
  have hnontrivial : Nontrivial Millis := inferInstanceAs (Nontrivial Int)
  rw [UpdatedQuery.ShownOnce, UpdatedQuery.ShownOnce, ← forall_reads_eq_iff,
    ← forall_reads_eq_iff]
  constructor
  · intro h
    constructor
    · intro resolve hresolve
      exact ((window_eq_iff hlt).mp (h resolve hresolve)).1
    · intro resolve hresolve
      exact ((window_eq_iff hlt).mp (h resolve hresolve)).2
  · rintro ⟨hfrom, hto⟩ resolve hresolve
    exact (window_eq_iff hlt).mpr ⟨hfrom resolve hresolve, hto resolve hresolve⟩

theorem isSince_iff (watermark : Millis) :
    (∀ resolve, Reads zone.localTime resolve → ∀ updatedAt, watermark ≤ updatedAt →
        q.isSince zone resolve watermark updatedAt) ↔ q.ShownBefore zone watermark := by
  have hall : (∀ resolve, Reads zone.localTime resolve → ∀ updatedAt, watermark ≤ updatedAt →
      q.isSince zone resolve watermark updatedAt) ↔
      ∀ resolve, Reads zone.localTime resolve →
        resolve (q.since watermark zone) ≤ watermark := by
    constructor
    · intro h resolve hresolve
      exact h resolve hresolve watermark le_rfl
    · intro h resolve hresolve updatedAt hle
      exact (h resolve hresolve).trans hle
  rw [hall, forall_reads_iff (fun s : Millis => s ≤ watermark)]
  constructor
  · intro h
    constructor
    · by_contra hnone
      have hlater := h (watermark + 1) fun hb => absurd hb hnone
      linarith
    · intro s hs
      exact h s fun _ => hs
  · rintro ⟨hshown, hbefore⟩ s hs
    exact hbefore s (hs hshown)

theorem shownOnce_fixed {instant : Millis} {c : Int} (hzone : ∀ t, zone.offset t = c)
    (hwhole : q.bound instant zone = instant + c) : q.ShownOnce zone instant := by
  intro s
  rw [TimeZone.localTime, hzone, hwhole]
  constructor
  · intro h
    linarith
  · rintro rfl
    rfl

/-- **A window selects by instant, whatever the provider makes of a repeated
time, exactly when no bound is written as a time shown at another instant; and
an incremental fetch excludes nothing that is due exactly when the time it
writes is not shown after the watermark.** -/
theorem windows_select_by_instant_iff (windowFrom windowTo watermark : Millis)
    (hlt : windowFrom < windowTo) :
    ((∀ resolve, Reads zone.localTime resolve → ∀ updatedAt,
        q.inWindow zone resolve windowFrom windowTo updatedAt ↔
          windowFrom ≤ updatedAt ∧ updatedAt < windowTo) ↔
      q.ShownOnce zone windowFrom ∧ q.ShownOnce zone windowTo) ∧
    ((∀ resolve, Reads zone.localTime resolve → ∀ updatedAt, watermark ≤ updatedAt →
        q.isSince zone resolve watermark updatedAt) ↔ q.ShownBefore zone watermark) :=
  ⟨inWindow_iff q zone hlt, isSince_iff q zone watermark⟩

end Windows

def utc : TimeZone where
  offset _ := 0

/-- Central Europe around the end of summer time on 2024-10-27, when the hour
from two to three o'clock is shown twice. -/
def centralEurope : TimeZone where
  offset t := if t < 1729990800000 then 7200000 else 3600000

/-- In UTC the day of 2024-10-27 is selected by instant. -/
theorem utc_day_selected :
    (jiraQuery.ShownOnce utc 1729987200000 ∧ jiraQuery.ShownOnce utc 1730073600000) ∧
      ∀ resolve, Reads utc.localTime resolve → ∀ updatedAt,
        jiraQuery.inWindow utc resolve 1729987200000 1730073600000 updatedAt ↔
          1729987200000 ≤ updatedAt ∧ updatedAt < 1730073600000 := by
  have hbounds : jiraQuery.ShownOnce utc 1729987200000 ∧ jiraQuery.ShownOnce utc 1730073600000 :=
    ⟨shownOnce_fixed jiraQuery utc (fun _ => rfl) (by decide), shownOnce_fixed jiraQuery utc (fun _ => rfl) (by decide)⟩
  exact ⟨hbounds, (windows_select_by_instant_iff jiraQuery utc 1729987200000 1730073600000 0
    (by decide)).1.mpr hbounds⟩

/-- The two bounds of the hour before the clock goes back are written alike,
and a watermark in that hour may be read as one an hour later. -/
theorem repeated_hour_lost :
    (∃ resolve, Reads centralEurope.localTime resolve) ∧
    ∀ q ∈ [jiraQuery, serviceNowQuery],
      (∀ resolve, Reads centralEurope.localTime resolve →
        ¬ (q.inWindow centralEurope resolve 1729987200000 1729990800000 1729989000000 ↔
          (1729987200000 : Int) ≤ 1729989000000 ∧ (1729989000000 : Int) < 1729990800000)) ∧
      ¬ ∀ resolve, Reads centralEurope.localTime resolve → ∀ updatedAt,
        1729989000000 ≤ updatedAt → q.isSince centralEurope resolve 1729989000000 updatedAt := by
  have hinstants : Nonempty Millis := ⟨0⟩
  refine ⟨exists_reads _, ?_⟩
  intro q hq
  have hwritten : q.bound 1729987200000 centralEurope = q.bound 1729990800000 centralEurope ∧
      centralEurope.localTime (q.since 1729989000000 centralEurope - 3600000)
        = q.since 1729989000000 centralEurope ∧
      ¬ q.since 1729989000000 centralEurope - 3600000 ≤ 1729989000000 := by
    simp only [List.mem_cons, List.not_mem_nil, or_false] at hq
    rcases hq with rfl | rfl
    · decide
    · decide
  obtain ⟨hbounds, hshown, hlater⟩ := hwritten
  constructor
  · intro resolve _ hsame
    have hin := hsame.mpr ⟨by decide, by decide⟩
    rw [UpdatedQuery.inWindow, hbounds] at hin
    exact absurd (lt_of_le_of_lt hin.1 hin.2) (lt_irrefl _)
  · rw [isSince_iff]
    intro hbefore
    exact hlater (hbefore.2 _ hshown)

end Cadena.Connectors
