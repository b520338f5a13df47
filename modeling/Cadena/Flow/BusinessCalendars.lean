import Cadena.Flow.FlowProfile

/-!
# The two business calendars

The SLA calculator walks the business calendar minute by minute, the flow
figures sum it day by day. Both count `openedBy`: the business time up to an
instant. Each turn of either loop adds what `openedBy` grows by, so the two
agree (`calendars_agree`).
-/

namespace Cadena.Flow

open Cadena.Base Cadena.WorkItems

/-- The working days before the day: weeks run from Monday. -/
def workingDaysBefore (day : Int) : Int := 5 * ((day + 3) / 7) + min 5 ((day + 3) % 7)

/-- The milliseconds of business time before the instant, counted from the
Monday of the week in which time begins. -/
def openedBy (t : Int) : Int :=
  28800000 * workingDaysBefore (t / 86400000)
    + if 1 ≤ (t / 86400000 + 4) % 7 ∧ (t / 86400000 + 4) % 7 ≤ 5 then
        min 28800000 (max 0 (t % 86400000 - 32400000))
      else 0

theorem openedBy_working {t u : Int} (hday : 1 ≤ (t / 86400000 + 4) % 7 ∧ (t / 86400000 + 4) % 7 ≤ 5)
    (hopen : 32400000 ≤ t % 86400000) (htu : t ≤ u)
    (hclose : u ≤ t / 86400000 * 86400000 + 61200000) : openedBy u = openedBy t + (u - t) := by
  have hsame : u / 86400000 = t / 86400000 := by omega
  rw [openedBy, openedBy, hsame, if_pos hday]
  omega

theorem openedBy_early {t u : Int} (htu : t ≤ u) (hopen : u ≤ t / 86400000 * 86400000 + 32400000) :
    openedBy u = openedBy t := by
  have hsame : u / 86400000 = t / 86400000 := by omega
  rw [openedBy, openedBy, hsame]
  split
  · omega
  · rfl

theorem openedBy_late {t u : Int}
    (hidle : ¬ (1 ≤ (t / 86400000 + 4) % 7 ∧ (t / 86400000 + 4) % 7 ≤ 5) ∨ 61200000 ≤ t % 86400000)
    (htu : t ≤ u) (hopen : u ≤ (t + 86400000) / 86400000 * 86400000 + 32400000) :
    openedBy u = openedBy t := by
  have hday : u / 86400000 = t / 86400000 ∨ u / 86400000 = t / 86400000 + 1 := by omega
  rcases hday with hsame | hnext
  · rw [openedBy, openedBy, hsame]
    split
    · omega
    · rfl
  · rw [openedBy, openedBy, workingDaysBefore, workingDaysBefore, hnext]
    split <;> split <;> omega

/-! ## The loop over the days -/

theorem openedBy_within {d x : Int} (hlow : d * 86400000 ≤ x) (hhigh : x ≤ d * 86400000 + 86400000) :
    openedBy x = 28800000 * workingDaysBefore d
      + if 1 ≤ (d + 4) % 7 ∧ (d + 4) % 7 ≤ 5 then
          min 28800000 (max 0 (x - d * 86400000 - 32400000))
        else 0 := by
  rcases eq_or_lt_of_le hhigh with hend | hbefore
  · have hnext : x / 86400000 = d + 1 := by omega
    rw [openedBy, workingDaysBefore, workingDaysBefore, hnext]
    split <;> split <;> omega
  · have hsame : x / 86400000 = d := by omega
    rw [openedBy, hsame]
    split
    · omega
    · rfl

theorem openMs_eq {fromTime toTime d : Int} (hrange : fromTime ≤ toTime)
    (hfrom : fromTime < d * 86400000 + 86400000) (hto : d * 86400000 < toTime) :
    openMs fromTime toTime (d * 86400000)
      = openedBy (min toTime (d * 86400000 + 86400000)) - openedBy (max fromTime (d * 86400000)) := by
  rw [openedBy_within (d := d) (by omega) (by omega), openedBy_within (d := d) (by omega) (by omega)]
  have hday : isWeekday (d * 86400000) = true ↔ 1 ≤ (d + 4) % 7 ∧ (d + 4) % 7 ≤ 5 := by
    show (decide (1 ≤ (d * 86400000 / 86400000 + 4) % 7)
      && decide ((d * 86400000 / 86400000 + 4) % 7 ≤ 5)) = true ↔ _
    rw [Int.mul_ediv_cancel _ (by decide), Bool.and_eq_true, decide_eq_true_eq, decide_eq_true_eq]
  rw [openMs]
  simp only [hday]
  split
  · show (if max (d * 86400000 + 32400000) fromTime < min (d * 86400000 + 61200000) toTime then
      min (d * 86400000 + 61200000) toTime - max (d * 86400000 + 32400000) fromTime else 0) = _
    split
    · omega
    · omega
  · omega

theorem businessDays_eq {fromTime toTime : Int} (hrange : fromTime ≤ toTime) (fuel : Nat) :
    ∀ {d total : Int}, fromTime < d * 86400000 + 86400000 → d * 86400000 ≤ toTime →
      toTime ≤ d * 86400000 + fuel * 86400000 →
      businessDays fromTime toTime fuel (d * 86400000) total
        = total + (openedBy toTime - openedBy (max fromTime (d * 86400000))) := by
  induction fuel with
  | zero =>
    intro d total hfrom hday hfuel
    have hend : max fromTime (d * 86400000) = toTime := by omega
    rw [businessDays, hend]
    omega
  | succ fuel ih =>
    intro d total hfrom hday hfuel
    rw [businessDays]
    split
    · rename_i hover
      have hover' : toTime ≤ d * 86400000 := hover
      have hend : max fromTime (d * 86400000) = toTime := by omega
      rw [hend]
      omega
    · rename_i hmore
      have hmore' : d * 86400000 < toTime := not_le.mp hmore
      have hnext : d * 86400000 + msPerDay = (d + 1) * 86400000 := by
        show d * 86400000 + 86400000 = _
        omega
      rw [openMs_eq hrange hfrom hmore', hnext]
      by_cases hlast : (d + 1) * 86400000 ≤ toTime
      · have hmin : min toTime (d * 86400000 + 86400000) = (d + 1) * 86400000 := by omega
        have hmax : max fromTime ((d + 1) * 86400000) = (d + 1) * 86400000 := by omega
        rw [ih (by omega) hlast (by push_cast at hfuel; omega), hmin, hmax]
        omega
      · -- the interval ends on this day
        have hmin : min toTime (d * 86400000 + 86400000) = toTime := by omega
        rw [hmin]
        cases fuel with
        | zero => rfl
        | succ fuel =>
          rw [businessDays, if_pos (by show toTime ≤ (d + 1) * 86400000; omega)]

theorem businessMs_businessHours (start end' : Int) (h : start < end') :
    businessMs start end' .businessHours = openedBy end' - openedBy start := by
  rw [businessMs, if_neg (not_le.mpr h)]
  show businessDays start end' ((end' - start) / 86400000 + 2).toNat (start / 86400000 * 86400000) 0 = _
  rw [businessDays_eq (le_of_lt h) _ (by omega) (by omega) (by omega),
    max_eq_left (by omega)]
  omega

/-! ## The loop over the minutes -/

def nextMinute (now curr : Millis) : Millis :=
  min now (min ((curr / msPerMinute + 1) * msPerMinute) (atHour curr 17))

def nextWorkTime (curr : Millis) : Millis :=
  if isWeekday curr && utcHours curr < 9 then atHour curr 9 else atHour (curr + msPerDay) 9

def inWorkHours (curr : Millis) : Bool :=
  isWeekday curr && 9 ≤ utcHours curr && utcHours curr < 17

/-- The loop of the SLA calculator, run from `curr` on with the milliseconds
counted so far, ends with this total. -/
inductive EndsWith (now : Millis) : Millis → Int → Int → Prop where
  | over {curr : Millis} {elapsed : Int} : now ≤ curr → EndsWith now curr elapsed elapsed
  | work {curr : Millis} {elapsed total : Int} : curr < now → inWorkHours curr = true →
      EndsWith now (nextMinute now curr) (elapsed + (nextMinute now curr - curr)) total →
      EndsWith now curr elapsed total
  | leave {curr : Millis} {elapsed : Int} : curr < now → inWorkHours curr = false →
      now < nextWorkTime curr → EndsWith now curr elapsed elapsed
  | skip {curr : Millis} {elapsed total : Int} : curr < now → inWorkHours curr = false →
      nextWorkTime curr ≤ now → EndsWith now (nextWorkTime curr) elapsed total →
      EndsWith now curr elapsed total

theorem inWorkHours_iff (t : Int) : inWorkHours t = true ↔
    (1 ≤ (t / 86400000 + 4) % 7 ∧ (t / 86400000 + 4) % 7 ≤ 5) ∧
      9 ≤ t % 86400000 / 3600000 ∧ t % 86400000 / 3600000 < 17 := by
  show ((decide (1 ≤ (t / 86400000 + 4) % 7) && decide ((t / 86400000 + 4) % 7 ≤ 5))
    && decide (9 ≤ t % 86400000 / 3600000) && decide (t % 86400000 / 3600000 < 17)) = true ↔ _
  simp only [Bool.and_eq_true, decide_eq_true_eq, and_assoc]

theorem nextMinute_spec {now t next : Int} (h : t < now) (hwork : inWorkHours t = true)
    (hnext : nextMinute now t = next) :
    t < next ∧ next ≤ now ∧ openedBy next = openedBy t + (next - t) := by
  obtain ⟨hday, hopens, hcloses⟩ := (inWorkHours_iff t).mp hwork
  have hmin : next = min now (min ((t / 60000 + 1) * 60000) (t / 86400000 * 86400000 + 61200000)) :=
    hnext.symm
  exact ⟨by omega, by omega, openedBy_working hday (by omega) (by omega) (by omega)⟩

theorem nextWorkTime_spec {t next : Int} (hidle : inWorkHours t = false)
    (hnext : nextWorkTime t = next) :
    t < next ∧ ∀ u, t ≤ u → u ≤ next → openedBy u = openedBy t := by
  have hnot : ¬ ((1 ≤ (t / 86400000 + 4) % 7 ∧ (t / 86400000 + 4) % 7 ≤ 5) ∧
      9 ≤ t % 86400000 / 3600000 ∧ t % 86400000 / 3600000 < 17) := by
    rw [← inWorkHours_iff, hidle]
    decide
  have hcases : next = if (1 ≤ (t / 86400000 + 4) % 7 ∧ (t / 86400000 + 4) % 7 ≤ 5) ∧ t % 86400000 / 3600000 < 9 then
          t / 86400000 * 86400000 + 32400000
        else (t + 86400000) / 86400000 * 86400000 + 32400000 := by
    rw [← hnext]
    show (if (decide (1 ≤ (t / 86400000 + 4) % 7) && decide ((t / 86400000 + 4) % 7 ≤ 5)
      && decide (t % 86400000 / 3600000 < 9)) = true then _ else _) = _
    simp only [Bool.and_eq_true, decide_eq_true_eq]
    rfl
  rw [hcases]
  split
  · refine ⟨by omega, fun u htu hu => openedBy_early htu hu⟩
  · refine ⟨by omega, fun u htu hu => openedBy_late ?_ htu hu⟩
    omega

theorem minutes_end (now : Int) (fuel : Nat) : ∀ {curr elapsed : Int}, curr ≤ now → now - curr ≤ fuel →
    EndsWith now curr elapsed (elapsed + (openedBy now - openedBy curr)) ∧
      WorkItems.businessMs now fuel curr elapsed = elapsed + (openedBy now - openedBy curr) := by
  induction fuel with
  | zero =>
    intro curr elapsed hcurr hfuel
    have hend : curr = now := by omega
    rw [hend, sub_self, add_zero]
    exact ⟨.over (le_refl _), rfl⟩
  | succ fuel ih =>
    intro curr elapsed hcurr hfuel
    rcases eq_or_lt_of_le hcurr with hend | hbefore
    · rw [hend, sub_self, add_zero]
      exact ⟨.over (le_refl _), by rw [WorkItems.businessMs, if_pos (le_refl _)]⟩
    · rw [WorkItems.businessMs, if_neg (not_le.mpr hbefore)]
      cases hwork : inWorkHours curr with
      | true =>
        generalize hnext : nextMinute now curr = next
        obtain ⟨hlater, hnow, hopened⟩ := nextMinute_spec hbefore hwork hnext
        obtain ⟨hrest, hvalue⟩ := @ih next (elapsed + (next - curr)) hnow (by omega)
        have htotal : elapsed + (next - curr) + (openedBy now - openedBy next)
            = elapsed + (openedBy now - openedBy curr) := by omega
        rw [htotal] at hrest hvalue
        have hloop := hvalue
        rw [← hnext] at hloop
        rw [← hnext] at hrest
        exact ⟨.work hbefore hwork hrest, (if_pos hwork).trans hloop⟩
      | false =>
        generalize hnext : nextWorkTime curr = next
        obtain ⟨hlater, hopened⟩ := nextWorkTime_spec hwork hnext
        have hidle : ¬ inWorkHours curr = true := by simp [hwork]
        by_cases hover : now < next
        · rw [hopened now hcurr (le_of_lt hover), sub_self, add_zero]
          rw [← hnext] at hover
          exact ⟨.leave hbefore hwork hover, (if_neg hidle).trans (if_pos hover)⟩
        · have hnow : next ≤ now := not_lt.mp hover
          obtain ⟨hrest, hvalue⟩ := @ih next elapsed hnow (by omega)
          rw [hopened next (le_of_lt hlater) (le_refl _)] at hrest hvalue
          rw [← hnext] at hover hnow hrest hvalue
          exact ⟨.skip hbefore hwork hnow hrest,
            (if_neg hidle).trans ((if_neg hover).trans hvalue)⟩

theorem openedBy_mono {t u : Int} (h : t ≤ u) : openedBy t ≤ openedBy u := by
  rcases eq_or_lt_of_le h with rfl | h
  · exact le_refl _
  · have := businessMs_nonneg t u .businessHours
    rw [businessMs_businessHours t u h] at this
    omega

theorem elapsedMinutes_businessHours {start end' : Int} (h : start < end') :
    (calculateElapsedMinutes start end' .businessHours : Int)
      = (openedBy end' - openedBy start) / 60000 := by
  rw [calculateElapsedMinutes, if_neg (not_le.mpr h)]
  show (((WorkItems.businessMs end' (end' - start).toNat start 0 / 60000).toNat : Nat) : Int) = _
  rw [(minutes_end end' (end' - start).toNat (le_of_lt h) (by omega)).2, zero_add]
  have := openedBy_mono (le_of_lt h)
  omega

theorem wholeMinutes_toNat {start end' : Int} (h : start < end') :
    (((end' - start) / 60000).toNat : Int) = (end' - start) / 60000 := by omega

/-- The SLA calculator's loop ends, and counts the full minutes of what the
flow figures sum. -/
theorem calendars_agree (start end' : Millis) :
    (∃ total, EndsWith end' start 0 total ∧
      (calculateElapsedMinutes start end' .businessHours : Int) = total / 60000) ∧
    ∀ calendar, (calculateElapsedMinutes start end' calendar : Int)
      = businessMs start end' calendar / 60000 := by
  by_cases h : end' ≤ start
  · have hzero : ∀ calendar, calculateElapsedMinutes start end' calendar = 0 :=
      fun calendar => by
        unfold calculateElapsedMinutes
        rw [if_pos h]
    refine ⟨⟨0, .over h, by rw [hzero]; rfl⟩, fun calendar => ?_⟩
    rw [hzero]
    unfold businessMs
    rw [if_pos h]
    rfl
  · have hlt : (start : Int) < end' := not_le.mp h
    refine ⟨⟨_, (minutes_end end' (end' - start).toNat (le_of_lt hlt) ?_).1, ?_⟩, fun calendar => ?_⟩
    · exact Int.self_le_toNat _
    · rw [zero_add, elapsedMinutes_businessHours hlt]
    · cases calendar with
      | businessHours =>
        rw [elapsedMinutes_businessHours hlt, businessMs_businessHours _ _ hlt]
      | always =>
        rw [calculateElapsedMinutes, if_neg h, businessMs, if_neg h]
        exact wholeMinutes_toNat hlt

end Cadena.Flow
