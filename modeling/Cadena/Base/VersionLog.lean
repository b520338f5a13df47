import Mathlib.Data.List.Nodup

/-!
# Rows with numbered versions

Writers read the last version of a key and append the next one later, with
nothing that holds others back in between. A unique index, over a key that may
be coarser, turns a version away that is taken. The rows of each key are then
numbered from 1 on in their order, and an entry that tells what its writer has
read tells the row before.
-/

namespace Cadena.Base

/-- The key of a row, its part of the index, and its version. -/
structure VersionLog (ρ κ ι : Type) where
  key : ρ → κ
  index : ρ → ι
  version : ρ → Nat
  index_of_key : ∀ r q, key r = key q → index r = index q

/-- A row that a writer appends, and the one that it has read. -/
structure VersionEntry (ρ : Type) where
  before : Option ρ
  after : ρ

namespace VersionLog

variable {ρ κ ι : Type} [DecidableEq κ] (L : VersionLog ρ κ ι)

def rowsOf (rows : List ρ) (k : κ) : List ρ := rows.filter (L.key · = k)

def latest (rows : List ρ) (k : κ) : Option ρ := (L.rowsOf rows k).getLast?

/-- The entries of the rows behind `seen`: each with the row before it. -/
def entries (seen : List ρ) : List ρ → List (VersionEntry ρ)
  | [] => []
  | r :: rest => ⟨L.latest seen (L.key r), r⟩ :: entries (seen ++ [r]) rest

structure Numbered (rows : List ρ) : Prop where
  versions : ∀ k, (L.rowsOf rows k).map L.version = List.range' 1 (L.rowsOf rows k).length
  apart : ∀ r ∈ rows, ∀ q ∈ rows, L.index r = L.index q → L.key r = L.key q

/-- The version is the one behind the row that was read, or the first. -/
def Follows (rows : List ρ) (e : VersionEntry ρ) : Prop :=
  match e.before with
  | none => L.version e.after = 1
  | some p => p ∈ rows ∧ L.key p = L.key e.after ∧ L.version e.after = L.version p + 1

/-- The unique index has no such row. -/
def Free (rows : List ρ) (r : ρ) : Prop := ∀ q ∈ rows, L.index q = L.index r → L.version q ≠ L.version r

variable {L} {rows : List ρ} {e : VersionEntry ρ} {k : κ} {r : ρ} {n : Nat}

theorem mem_rowsOf : r ∈ L.rowsOf rows k ↔ r ∈ rows ∧ L.key r = k := by
  simp [rowsOf]

theorem rowsOf_concat : L.rowsOf (rows ++ [r]) k = L.rowsOf rows k ++ if L.key r = k then [r] else [] := by
  by_cases hk : L.key r = k <;> simp [rowsOf, hk]

theorem entries_concat (seen : List ρ) :
    L.entries seen (rows ++ [r]) = L.entries seen rows ++ [⟨L.latest (seen ++ rows) (L.key r), r⟩] := by
  induction rows generalizing seen with
  | nil => simp [entries]
  | cons q rows ih => simp [entries, ih]

omit [DecidableEq κ] in
theorem Follows.concat (h : L.Follows rows e) : L.Follows (rows ++ [r]) e := by
  unfold Follows at h ⊢
  split at h
  · exact h
  · exact ⟨List.mem_append_left _ h.1, h.2⟩

theorem Numbered.nil : L.Numbered [] := ⟨fun _ => rfl, nofun⟩

theorem Numbered.exists_version (h : L.Numbered rows) :
    (∃ r ∈ rows, L.key r = k ∧ L.version r = n) ↔ 1 ≤ n ∧ n ≤ (L.rowsOf rows k).length := by
  have hmem : n ∈ (L.rowsOf rows k).map L.version ↔ ∃ r ∈ rows, L.key r = k ∧ L.version r = n := by
    simp [mem_rowsOf, and_assoc]
  rw [← hmem, h.versions k, List.mem_range'_1]
  omega

theorem Numbered.version_le (h : L.Numbered rows) (hr : r ∈ rows) :
    1 ≤ L.version r ∧ L.version r ≤ (L.rowsOf rows (L.key r)).length :=
  h.exists_version.mp ⟨r, hr, rfl, rfl⟩

/-- The index lets only the next version of a key pass. -/
theorem Numbered.next (h : L.Numbered rows) (hfollows : L.Follows rows e) (hfree : L.Free rows e.after) :
    L.version e.after = (L.rowsOf rows (L.key e.after)).length + 1 := by
  have htaken : ¬ (1 ≤ L.version e.after ∧ L.version e.after ≤ (L.rowsOf rows (L.key e.after)).length) := by
    rw [← h.exists_version]
    rintro ⟨q, hq, hkey, hversion⟩
    exact hfree q hq (L.index_of_key _ _ hkey) hversion
  unfold Follows at hfollows
  split at hfollows
  · omega
  · obtain ⟨hp, hkey, hversion⟩ := hfollows
    have hle := h.version_le hp
    rw [hkey] at hle
    omega

theorem Numbered.latest_iff (h : L.Numbered rows) :
    L.latest rows k = some r ↔ r ∈ rows ∧ L.key r = k ∧ L.version r = (L.rowsOf rows k).length := by
  have hlast := List.getLast?_map (f := L.version) (l := L.rowsOf rows k)
  rw [h.versions k, List.getLast?_range'] at hlast
  have hversion : ∀ q, L.latest rows k = some q → L.version q = (L.rowsOf rows k).length := by
    intro q hq
    have hpos := List.length_pos_of_mem (List.mem_of_getLast? hq)
    rw [if_neg (Nat.ne_of_gt hpos), show (L.rowsOf rows k).getLast? = some q from hq] at hlast
    have := Option.some.inj hlast
    omega
  constructor
  · intro hr
    obtain ⟨hmem, hkey⟩ := mem_rowsOf.mp (List.mem_of_getLast? hr)
    exact ⟨hmem, hkey, hversion r hr⟩
  · rintro ⟨hmem, hkey, hr⟩
    have hof : r ∈ L.rowsOf rows k := mem_rowsOf.mpr ⟨hmem, hkey⟩
    have hnodup : ((L.rowsOf rows k).map L.version).Nodup := h.versions k ▸ List.nodup_range'
    cases hq : L.latest rows k with
    | none => rw [List.getLast?_eq_none_iff.mp hq] at hof; cases hof
    | some q =>
      have hsame := (hversion q hq).trans hr.symm
      rw [List.inj_on_of_nodup_map hnodup (List.mem_of_getLast? hq) hof hsame]

/-- What the writer has read is still the latest row when its version passes. -/
theorem Numbered.before_eq (h : L.Numbered rows) (hfollows : L.Follows rows e)
    (hfree : L.Free rows e.after) : e.before = L.latest rows (L.key e.after) := by
  have hnext := h.next hfollows hfree
  unfold Follows at hfollows
  split at hfollows
  · rename_i hnone
    have hempty : L.rowsOf rows (L.key e.after) = [] := List.length_eq_zero_iff.mp (by omega)
    rw [hnone, latest, hempty, List.getLast?_nil]
  · rename_i p hsome
    obtain ⟨hp, hkey, hversion⟩ := hfollows
    rw [hsome, h.latest_iff.mpr ⟨hp, hkey, by omega⟩]

theorem Numbered.concat (h : L.Numbered rows) (hfollows : L.Follows rows e) (hfree : L.Free rows e.after) :
    L.Numbered (rows ++ [e.after]) := by
  have hnext := h.next hfollows hfree
  have happ : ∀ q ∈ rows, L.index q = L.index e.after → L.key q = L.key e.after := by
    intro q hq hindex
    unfold Follows at hfollows
    split at hfollows
    · -- the key of `q` has a first version, which the index knows
      have hle := h.version_le hq
      obtain ⟨p, hp, hkey, hone⟩ := h.exists_version.mpr ⟨Nat.le_refl 1, Nat.le_trans hle.1 hle.2⟩
      exact absurd (hone.trans hfollows.symm) (hfree p hp ((L.index_of_key _ _ hkey).trans hindex))
    · obtain ⟨hp, hkey, -⟩ := hfollows
      exact (h.apart q hq _ hp (hindex.trans (L.index_of_key _ _ hkey).symm)).trans hkey
  refine ⟨fun k => ?_, fun r hr q hq hindex => ?_⟩
  · rw [rowsOf_concat]
    split
    · rename_i hk
      subst hk
      rw [List.map_append, h.versions, List.length_append, List.length_singleton, List.range'_1_concat,
        List.map_singleton, hnext, Nat.add_comm 1]
    · rw [List.append_nil]
      exact h.versions k
  · rcases List.mem_append.mp hr with hr | hr <;> rcases List.mem_append.mp hq with hq | hq
    · exact h.apart r hr q hq hindex
    · obtain rfl := List.mem_singleton.mp hq
      exact happ r hr hindex
    · obtain rfl := List.mem_singleton.mp hr
      exact (happ q hq hindex.symm).symm
    · rw [List.mem_singleton.mp hr, List.mem_singleton.mp hq]

/-- The rows are numbered, and the entries of the writers are those of the rows. -/
structure Recorded (L : VersionLog ρ κ ι) (rows : List ρ) (log : List (VersionEntry ρ)) : Prop where
  numbered : L.Numbered rows
  log_eq : log = L.entries [] rows

theorem Recorded.concat {log : List (VersionEntry ρ)} (h : L.Recorded rows log)
    (hfollows : L.Follows rows e) (hfree : L.Free rows e.after) :
    L.Recorded (rows ++ [e.after]) (log ++ [e]) := by
  refine ⟨h.numbered.concat hfollows hfree, ?_⟩
  rw [entries_concat, List.nil_append, ← h.numbered.before_eq hfollows hfree, ← h.log_eq]

end VersionLog

end Cadena.Base
