import Mathlib.Data.List.Nodup

/-!
# Database tables

A table is the list of its rows, in the order they were inserted. One
statement is one function on the list: `update` is `UPDATE … SET … WHERE`,
appending a row is `INSERT`, `filter` and `any` are the queries.
-/

namespace Cadena.Base.Table

variable {ρ κ : Type}

/-- `UPDATE t SET f WHERE p`. -/
def update (p : ρ → Bool) (f : ρ → ρ) (t : List ρ) : List ρ :=
  t.map fun r => if p r then f r else r

variable {r row : ρ} {t : List ρ} {f : ρ → ρ} {p q : ρ → Bool} {key : ρ → κ}

theorem mem_update : r ∈ update p f t ↔
      (∃ q ∈ t, p q = true ∧ f q = r) ∨ (r ∈ t ∧ p r = false) := by
  simp only [update, List.mem_map]
  constructor
  · rintro ⟨q, hq, rfl⟩
    by_cases hp : p q = true
    · exact .inl ⟨q, hq, hp, by simp [hp]⟩
    · exact .inr (by simpa [hp] using hq)
  · rintro (⟨q, hq, hp, rfl⟩ | ⟨hr, hp⟩)
    · exact ⟨q, hq, by simp [hp]⟩
    · exact ⟨r, hr, by simp [hp]⟩

theorem update_none (h : ∀ r ∈ t, p r = false) : update p f t = t := by
  rw [update, List.map_congr_left (g := id) (fun r hr => by simp [h r hr])]
  exact List.map_id t

theorem update_update {g : ρ → ρ} (h : ∀ r, p (f r) = p r) (t : List ρ) :
    update p g (update p f t) = update p (fun r => g (f r)) t := by
  rw [update, update, List.map_map]
  refine List.map_congr_left fun r _ => ?_
  by_cases hp : p r = true
  · simp [hp, h]
  · simp [hp]

theorem update_and (t : List ρ) :
    update (fun r => p r && q r) f t = update p (fun r => if q r then f r else r) t := by
  refine List.map_congr_left fun r _ => ?_
  by_cases hp : p r = true <;> simp [hp]

theorem update_self (p : ρ → Bool) (t : List ρ) : update p (fun r => r) t = t := by
  simp [update]

theorem update_column (col : ρ → κ) (h : ∀ r, col (f r) = col r) (t : List ρ) :
    (update p f t).map col = t.map col := by
  rw [update, List.map_map]
  refine List.map_congr_left fun r _ => ?_
  by_cases hp : p r = true <;> simp [hp, h]

/-- A test that the rows the statement sets pass as they did before. -/
theorem any_update (h : ∀ r ∈ t, p r = true → q (f r) = q r) : (update p f t).any q = t.any q := by
  induction t with
  | nil => rfl
  | cons r t ih =>
    have hrest : (update p f t).any q = t.any q := ih fun r hr => h r (List.mem_cons_of_mem _ hr)
    have hrow : q (if p r then f r else r) = q r := by
      by_cases hp : p r = true
      · rw [if_pos hp, h r List.mem_cons_self hp]
      · rw [if_neg hp]
    show (q (if p r then f r else r) || (update p f t).any q) = _
    rw [hrow, hrest, List.any_cons]

theorem filter_update (h : ∀ r, q (f r) = q r) (t : List ρ) :
    (update p f t).filter q = update p f (t.filter q) := by
  rw [update, update, List.filter_map]
  congr 1
  refine List.filter_congr fun r _ => ?_
  by_cases hp : p r = true <;> simp [hp, h]

theorem update_eq_self : update p f t = t ↔ ∀ r ∈ t, p r = true → f r = r := by
  conv_lhs => rhs; rw [← List.map_id t]
  rw [update, List.map_inj_left]
  refine forall₂_congr fun r _ => ?_
  by_cases hp : p r = true <;> simp [hp]

theorem mem_update_of_not (hr : r ∈ t) (hp : p r = false) : r ∈ update p f t :=
  mem_update.mpr (.inr ⟨hr, hp⟩)

/-- Rows with the same value in a column without repeats are the same row. -/
theorem eq_of_key (hnd : (t.map key).Nodup) {q : ρ} (hr : r ∈ t) (hq : q ∈ t) (hk : key r = key q) : r = q :=
  List.inj_on_of_nodup_map hnd hr hq hk

theorem row_of_update (hnd : (t.map key).Nodup)
    (hkey : ∀ r, key (f r) = key r) {r' : ρ} (hr : r ∈ t) (hr' : r' ∈ update p f t) (hk : key r' = key r) :
    r' = if p r then f r else r := by
  rcases mem_update.mp hr' with ⟨q, hq, hp, rfl⟩ | ⟨hmem, hp⟩
  · have hsame : q = r := eq_of_key hnd hq hr ((hkey q).symm.trans hk)
    rw [← hsame, if_pos hp]
  · have hsame : r' = r := eq_of_key hnd hmem hr hk
    rw [← hsame, if_neg (by simp [hp])]

theorem found_of_update {q : ρ → Prop}
    (hnd : (t.map key).Nodup) (hkey : ∀ r, key (f r) = key r) {r' : ρ} (hr : r ∈ t) (hr' : r' ∈ update p f t)
    (hk : key r' = key r) (hnot : ¬ q r) (hq : q r') : p r = true ∧ q (f r) := by
  have hrow := row_of_update hnd hkey hr hr' hk
  by_cases hp : p r = true
  · rw [if_pos hp] at hrow
    exact ⟨hp, hrow ▸ hq⟩
  · rw [if_neg hp] at hrow
    exact absurd (hrow ▸ hq) hnot

/-- The rows with the value that a row has in a column without repeats. -/
theorem filter_key [BEq κ] [LawfulBEq κ] (hnd : (t.map key).Nodup)
    (hr : r ∈ t) : t.filter (key · == key r) = [r] := by
  induction t with
  | nil => exact absurd hr List.not_mem_nil
  | cons q t ih =>
    rw [List.map_cons, List.nodup_cons] at hnd
    rcases List.mem_cons.mp hr with rfl | hr
    · rw [List.filter_cons_of_pos (by simp), List.filter_eq_nil_iff.mpr]
      intro q hq hkey
      exact hnd.1 (beq_iff_eq.mp hkey ▸ List.mem_map_of_mem hq)
    · have hne : key q ≠ key r := fun heq => hnd.1 (heq ▸ List.mem_map_of_mem hr)
      rw [List.filter_cons_of_neg (by simpa using hne)]
      exact ih hnd.2 hr

theorem nodup_insert (hnd : (t.map key).Nodup)
    (hnew : ∀ r ∈ t, key r ≠ key row) : ((t ++ [row]).map key).Nodup := by
  rw [List.map_append, List.map_singleton, List.nodup_append]
  refine ⟨hnd, List.nodup_singleton _, ?_⟩
  intro k hk k' hk' heq
  obtain ⟨r, hr, rfl⟩ := List.mem_map.mp hk
  rw [List.mem_singleton] at hk'
  exact hnew r hr (heq.trans hk')

theorem nodup_insert_unless [BEq κ] [LawfulBEq κ]
    (hnd : (t.map key).Nodup) (hnew : t.any (key · == key row) = false) :
    ((t ++ [row]).map key).Nodup :=
  nodup_insert hnd fun r hr heq => List.any_eq_false.mp hnew r hr (beq_iff_eq.mpr heq)

/-- `INSERT … ON CONFLICT (key) DO UPDATE SET f`. -/
def upsert [BEq κ] (key : ρ → κ) (row : ρ) (f : ρ → ρ) (t : List ρ) : List ρ :=
  if t.any (key · == key row) then update (key · == key row) f t else t ++ [row]

theorem filter_upsert [BEq κ] [LawfulBEq κ] (hrow : q row = false)
    (hold : ∀ r ∈ t, key r = key row → q r = false ∧ q (f r) = false) :
    (upsert key row f t).filter q = t.filter q := by
  unfold upsert
  split
  · rw [update, List.filter_map]
    have hsame : t.filter (q ∘ fun r => if key r == key row then f r else r) = t.filter q := by
      refine List.filter_congr fun r hr => ?_
      by_cases hk : key r = key row
      · simp [hk, hold r hr hk]
      · simp [hk]
    rw [hsame]
    conv_rhs => rw [← List.map_id (t.filter q)]
    refine List.map_congr_left fun r hr => ?_
    obtain ⟨hmem, hq⟩ := List.mem_filter.mp hr
    have hk : key r ≠ key row := fun hk => by rw [(hold r hmem hk).1] at hq; cases hq
    simp [hk]
  · simp [hrow]

theorem nodup_upsert [BEq κ] [LawfulBEq κ] (hf : ∀ r, key (f r) = key r) (hnd : (t.map key).Nodup) :
    ((upsert key row f t).map key).Nodup := by
  unfold upsert
  split
  · rw [update_column key hf]
    exact hnd
  · rename_i hnew
    exact nodup_insert_unless hnd (by simpa using hnew)

theorem filter_upsert_key [BEq κ] [LawfulBEq κ] {q : κ → Bool}
    (hrow : q (key row) = true) (hf : ∀ r, key (f r) = key r) (t : List ρ) :
    (upsert key row f t).filter (fun r => q (key r)) =
      upsert key row f (t.filter fun r => q (key r)) := by
  have hany : (t.filter fun r => q (key r)).any (key · == key row) = t.any (key · == key row) := by
    rw [List.any_filter]
    refine List.any_congr rfl fun r => ?_
    by_cases hk : key r = key row
    · simp [hk, hrow]
    · simp [hk]
  unfold upsert
  rw [hany]
  split
  · exact filter_update (fun r => by rw [hf]) t
  · simp [hrow]

end Cadena.Base.Table
