import Cadena.WorkItems.WorkItem

/-!
# Flow profiles

The business time inside an interval as the flow figures count it: day by day,
where the SLA calculator counts minute by minute. Time is never taken back when
the end of the interval moves on.
-/

namespace Cadena.Flow

open Cadena.Base Cadena.WorkItems

/-! ## Business time -/

/-- The part of one day, given by its midnight, that lies in the interval. -/
def openMs (fromTime toTime day : Millis) : Int :=
  if isWeekday day then
    let opens := max (day + 9 * msPerHour) fromTime
    let closes := min (day + 17 * msPerHour) toTime
    if opens < closes then closes - opens else 0
  else 0

/-- The loop over the days. -/
def businessDays (fromTime toTime : Millis) : Nat → Millis → Int → Int
  | 0, _, total => total
  | fuel + 1, day, total =>
    if toTime ≤ day then total
    else businessDays fromTime toTime fuel (day + msPerDay) (total + openMs fromTime toTime day)

def businessMs (start end' : Millis) (calendar : SlaCalendar) : Int :=
  if end' ≤ start then 0
  else
    match calendar with
    | .always => end' - start
    | .businessHours =>
      businessDays start end' ((end' - start) / msPerDay + 2).toNat (start / msPerDay * msPerDay) 0

section
variable {fromTime toTime toTime' day : Int}

theorem openMs_nonneg : 0 ≤ openMs fromTime toTime day := by
  unfold openMs
  dsimp only
  split
  · split
    · rename_i h
      exact Int.sub_nonneg_of_le (Int.le_of_lt h)
    · exact Int.le_refl 0
  · exact Int.le_refl 0

theorem openMs_mono (h : toTime ≤ toTime') : openMs fromTime toTime day ≤ openMs fromTime toTime' day := by
  unfold openMs
  dsimp only
  split
  · generalize max (day + 9 * msPerHour) fromTime = opens
    generalize day + 17 * msPerHour = closing
    show (if opens < min closing toTime then min closing toTime - opens else 0) ≤
      (if opens < min closing toTime' then min closing toTime' - opens else 0)
    split <;> split <;> omega
  · exact Int.le_refl 0

theorem le_businessDays (fuel : Nat) : ∀ {day total : Int}, total ≤ businessDays fromTime toTime fuel day total := by
  induction fuel with
  | zero => intro day total; exact Int.le_refl total
  | succ fuel ih =>
    intro day total
    rw [businessDays]
    split
    · exact Int.le_refl total
    · have hpart : 0 ≤ openMs fromTime toTime day := openMs_nonneg
      exact Int.le_trans (Int.le_add_of_nonneg_right hpart) ih

theorem businessDays_mono (h : toTime ≤ toTime') (fuel : Nat) :
    ∀ {fuel' : Nat} {day total total' : Int}, fuel ≤ fuel' → total ≤ total' →
      businessDays fromTime toTime fuel day total ≤ businessDays fromTime toTime' fuel' day total' := by
  induction fuel with
  | zero => intro fuel' day total total' _ htotal; exact Int.le_trans htotal (le_businessDays fuel')
  | succ fuel ih =>
    intro fuel' day total total' hfuel htotal
    rw [businessDays]
    split
    · exact Int.le_trans htotal (le_businessDays fuel')
    · rename_i hday
      obtain ⟨more, rfl⟩ : ∃ more, fuel' = more + 1 := ⟨fuel' - 1, by omega⟩
      rw [businessDays, if_neg (fun hlater : toTime' ≤ day => hday (Int.le_trans h hlater))]
      exact ih (Nat.le_of_succ_le_succ hfuel) (Int.add_le_add htotal (openMs_mono h))

theorem businessMs_nonneg (start end' : Int) (calendar : SlaCalendar) : 0 ≤ businessMs start end' calendar := by
  unfold businessMs
  split
  · exact Int.le_refl 0
  · rename_i hend
    cases calendar with
    | always => exact Int.sub_nonneg_of_le (Int.le_of_lt (Int.not_le.mp hend))
    | businessHours => exact le_businessDays _

theorem businessMs_mono (start : Int) {end' end'' : Int} (h : end' ≤ end'') (calendar : SlaCalendar) :
    businessMs start end' calendar ≤ businessMs start end'' calendar := by
  by_cases hend : end' ≤ start
  · have hzero : businessMs start end' calendar = 0 := by
      unfold businessMs
      rw [if_pos hend]
    rw [hzero]
    exact businessMs_nonneg start end'' calendar
  · unfold businessMs
    rw [if_neg hend, if_neg (fun hlater : end'' ≤ start => hend (Int.le_trans h hlater))]
    cases calendar with
    | always => exact Int.sub_le_sub_right h start
    | businessHours =>
      refine businessDays_mono h _ (Int.toNat_le_toNat ?_) (Int.le_refl 0)
      show (end' - start) / 86400000 + 2 ≤ (end'' - start) / 86400000 + 2
      omega

end

end Cadena.Flow
