import Mathlib.Algebra.BigOperators.Group.List.Basic
import Mathlib.Data.List.Induction
import Mathlib.Data.List.Nodup

/-!
# Grouping rows

A `Map` filled row by row: the entry of a row's key is changed, and a key seen
for the first time is put at the end. A figure that each row adds to its group
adds up over the groups to what it is over the rows. Nothing here depends on
the program.
-/

namespace Cadena.Base.Grouping

variable {κ β ρ : Type} [DecidableEq κ]

/-- `map.set(key, f(map.get(key)))`. -/
def upsert (f : Option β → β) (key : κ) : List (κ × β) → List (κ × β)
  | [] => [(key, f none)]
  | (k, b) :: m => if k = key then (k, f (some b)) :: m else (k, b) :: upsert f key m

/-- What is found under a key. -/
def find (m : List (κ × β)) (key : κ) : Option β := (m.find? fun e => e.1 = key).map (·.2)

def groups (key : ρ → κ) (f : ρ → Option β → β) (rows : List ρ) : List (κ × β) :=
  rows.foldl (fun m r => upsert (f r) (key r) m) []

theorem find_upsert (f : Option β → β) (key k : κ) (m : List (κ × β)) :
    find (upsert f key m) k = if key = k then some (f (find m key)) else find m k := by
  induction m with
  | nil => by_cases hk : key = k <;> simp [upsert, find, hk]
  | cons e m ih =>
    obtain ⟨j, b⟩ := e
    by_cases hj : j = key
    · subst hj
      by_cases hk : j = k <;> simp [upsert, find, hk]
    · by_cases hk : j = k
      · subst hk
        simp [upsert, find, hj, Ne.symm hj]
      · rw [upsert, if_neg hj]
        simpa [find, hj, hk] using ih

theorem keys_upsert (f : Option β → β) (key : κ) (m : List (κ × β)) :
    (upsert f key m).map (·.1) = if key ∈ m.map (·.1) then m.map (·.1) else m.map (·.1) ++ [key] := by
  induction m with
  | nil => simp [upsert]
  | cons e m ih =>
    obtain ⟨j, b⟩ := e
    by_cases hj : j = key
    · simp [upsert, hj]
    · rw [upsert, if_neg hj, List.map_cons, ih]
      by_cases hk : key ∈ m.map (·.1)
      · simp [hk, Ne.symm hj]
      · simp [hk, Ne.symm hj]

theorem sum_upsert {M : Type} [AddCommMonoid M] (g : β → M) (f : Option β → β) (w : M) (key : κ)
    (h : ∀ b : Option β, g (f b) = (b.map g).getD 0 + w) (m : List (κ × β)) :
    ((upsert f key m).map (g ·.2)).sum = (m.map (g ·.2)).sum + w := by
  induction m with
  | nil => simp [upsert, h]
  | cons e m ih =>
    obtain ⟨j, b⟩ := e
    rw [upsert]
    split
    · simp only [List.map_cons, List.sum_cons, h, Option.map_some, Option.getD_some]
      exact add_right_comm _ _ _
    · simp only [List.map_cons, List.sum_cons, ih]
      exact (add_assoc _ _ _).symm

/-! ## All rows -/

section
variable (key : ρ → κ) (f : ρ → Option β → β)

theorem groups_nil : groups key f [] = [] := rfl

theorem groups_concat (rows : List ρ) (r : ρ) :
    groups key f (rows ++ [r]) = upsert (f r) (key r) (groups key f rows) := by
  rw [groups, List.foldl_append]
  rfl

theorem find_groups (rows : List ρ) (k : κ) :
    find (groups key f rows) k
      = (rows.filter fun r => key r = k).foldl (fun b r => some (f r b)) none := by
  induction rows using List.reverseRecOn with
  | nil => rfl
  | append_singleton rows r ih =>
    rw [groups_concat, find_upsert, List.filter_append, List.foldl_append]
    by_cases hk : key r = k
    · simp [hk, ← ih]
    · simp [hk, ih]

theorem keys_groups_nodup (rows : List ρ) : ((groups key f rows).map (·.1)).Nodup := by
  induction rows using List.reverseRecOn with
  | nil => exact List.nodup_nil
  | append_singleton rows r ih =>
    rw [groups_concat, keys_upsert]
    split
    · exact ih
    · rename_i hnew
      rw [List.nodup_append]
      refine ⟨ih, List.nodup_singleton _, fun a ha b hb hab => hnew ?_⟩
      rw [← List.mem_singleton.mp hb, ← hab]
      exact ha

/-- **What rows add to their groups adds up.** -/
theorem sum_groups {M : Type} [AddCommMonoid M] (g : β → M) (w : ρ → M)
    (h : ∀ r (b : Option β), g (f r b) = (b.map g).getD 0 + w r) (rows : List ρ) :
    ((groups key f rows).map (g ·.2)).sum = (rows.map w).sum := by
  induction rows using List.reverseRecOn with
  | nil => rfl
  | append_singleton rows r ih =>
    rw [groups_concat, sum_upsert g (f r) (w r) (key r) (h r), ih]
    simp

theorem groups_eq_nil {rows : List ρ} : groups key f rows = [] ↔ rows = [] := by
  induction rows using List.reverseRecOn with
  | nil => exact iff_of_true rfl rfl
  | append_singleton rows r ih =>
    refine iff_of_false (fun h => ?_) (by simp)
    have hkeys := congrArg (List.map (·.1)) h
    rw [groups_concat, keys_upsert] at hkeys
    split at hkeys
    · rename_i hmem
      rw [hkeys] at hmem
      cases hmem
    · simp at hkeys

end

theorem find_eq_some {m : List (κ × β)} (h : (m.map (·.1)).Nodup) {k : κ} {b : β} :
    find m k = some b ↔ (k, b) ∈ m := by
  induction m with
  | nil => simp [find]
  | cons e m ih =>
    obtain ⟨j, c⟩ := e
    rw [List.map_cons, List.nodup_cons] at h
    by_cases hj : j = k
    · subst hj
      have hnot : (j, b) ∉ m := fun hmem => h.1 (List.mem_map.mpr ⟨_, hmem, rfl⟩)
      simp [find, hnot, eq_comm]
    · have := ih h.2
      simp only [find] at this
      simp [find, hj, this, Ne.symm hj]

end Cadena.Base.Grouping
