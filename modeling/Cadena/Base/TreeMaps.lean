import Cadena.Base.Page
import Cadena.Base.TreeText

/-!
# Trees with objects as maps

Two trees are the same when arrays have the same elements one by one and objects
the same keys with the same values. That is so exactly when they are equal with
the entries of every object in the order of their keys.
-/

namespace Cadena.Base

open Page

theorem sortByKey_eq_iff {κ β : Type} [LinearOrder κ] {es ds : List (κ × β)} (hes : (es.map (·.1)).Nodup)
    (hds : (ds.map (·.1)).Nodup) : sortByKey (·.1) es = sortByKey (·.1) ds ↔ ∀ e, e ∈ es ↔ e ∈ ds := by
  constructor
  · intro h e
    rw [← (sortByKey_perm (·.1) es).mem_iff, h, (sortByKey_perm _ ds).mem_iff]
  · intro h
    have hperm : es.Perm ds := (List.perm_ext_iff_of_nodup hes.of_map hds.of_map).mpr h
    exact ((sortByKey_perm _ es).trans (hperm.trans (sortByKey_perm _ ds).symm)).eq_of_pairwise
      (fun a b _ _ hab hba => absurd (hab.trans hba) (lt_irrefl _)) (sortByKey_sorted hes) (sortByKey_sorted hds)

theorem sortByKey_map {κ β γ : Type} [LinearOrder κ] (f : β → γ) (es : List (κ × β)) :
    sortByKey (·.1) (es.map fun e => (e.1, f e.2)) = (sortByKey (·.1) es).map fun e => (e.1, f e.2) :=
  (List.map_insertionSort (fun a b : κ × β => a.1 ≤ b.1) (fun a b : κ × γ => a.1 ≤ b.1) (fun e => (e.1, f e.2)) es
    fun _ _ _ _ => Iff.rfl).symm

namespace Tree

variable {κ ν μ : Type}

mutual

/-- No object has a key twice. -/
def Distinct : Tree κ ν → Prop
  | .leaf _ => True
  | .arr xs => DistinctElems xs
  | .obj es => (es.map (·.1)).Nodup ∧ DistinctEntries es

def DistinctElems : List (Tree κ ν) → Prop
  | [] => True
  | x :: xs => Distinct x ∧ DistinctElems xs

def DistinctEntries : List (κ × Tree κ ν) → Prop
  | [] => True
  | (_, v) :: es => Distinct v ∧ DistinctEntries es

end

mutual

/-- Equality with objects compared as maps and arrays element by element. -/
def Same (eq : ν → ν → Prop) : Tree κ ν → Tree κ ν → Prop
  | .leaf v, .leaf w => eq v w
  | .arr xs, .arr ys => SameElems eq xs ys
  | .obj es, .obj ds => SameEntries eq es ds ∧ ∀ d ∈ ds, ∃ v, (d.1, v) ∈ es
  | _, _ => False

def SameElems (eq : ν → ν → Prop) : List (Tree κ ν) → List (Tree κ ν) → Prop
  | [], [] => True
  | x :: xs, y :: ys => Same eq x y ∧ SameElems eq xs ys
  | _, _ => False

def SameEntries (eq : ν → ν → Prop) : List (κ × Tree κ ν) → List (κ × Tree κ ν) → Prop
  | [], _ => True
  | (k, v) :: es, ds => (∃ w, (k, w) ∈ ds ∧ Same eq v w) ∧ SameEntries eq es ds

end

section
variable [LinearOrder κ] (f : ν → μ)

mutual

/-- The tree with the entries of objects in the order of their keys. -/
def sorted : Tree κ ν → Tree κ μ
  | .leaf v => .leaf (f v)
  | .arr xs => .arr (sortedElems xs)
  | .obj es => .obj (sortByKey (·.1) (sortedEntries es))

def sortedElems : List (Tree κ ν) → List (Tree κ μ)
  | [] => []
  | x :: xs => sorted x :: sortedElems xs

def sortedEntries : List (κ × Tree κ ν) → List (κ × Tree κ μ)
  | [] => []
  | (k, v) :: es => (k, sorted v) :: sortedEntries es

end

theorem sortedEntries_eq (es : List (κ × Tree κ ν)) : sortedEntries f es = es.map fun e => (e.1, sorted f e.2) := by
  induction es with
  | nil => rfl
  | cons e es ih => rw [sortedEntries, ih, List.map_cons]

end

theorem distinctEntries_iff {es : List (κ × Tree κ ν)} : DistinctEntries es ↔ ∀ e ∈ es, e.2.Distinct := by
  induction es with
  | nil => simp [DistinctEntries]
  | cons e es ih => rw [DistinctEntries, ih, List.forall_mem_cons]

theorem sameEntries_iff {eq : ν → ν → Prop} {es ds : List (κ × Tree κ ν)} :
    SameEntries eq es ds ↔ ∀ e ∈ es, ∃ w, (e.1, w) ∈ ds ∧ Same eq e.2 w := by
  induction es with
  | nil => simp [SameEntries]
  | cons e es ih => rw [SameEntries, ih, List.forall_mem_cons]

variable [LinearOrder κ] {f : ν → μ}

theorem sortedEntries_iff {es ds : List (κ × Tree κ ν)} (hds : (ds.map (·.1)).Nodup)
    (h : ∀ e ∈ es, ∀ d ∈ ds, sorted f e.2 = sorted f d.2 ↔ Same (f · = f ·) e.2 d.2) :
    (∀ e, e ∈ sortedEntries f es ↔ e ∈ sortedEntries f ds) ↔
      SameEntries (f · = f ·) es ds ∧ ∀ d ∈ ds, ∃ v, (d.1, v) ∈ es := by
  have hmem {l : List (κ × Tree κ ν)} {e : κ × Tree κ μ} :
      e ∈ sortedEntries f l ↔ ∃ v, (e.1, v) ∈ l ∧ sorted f v = e.2 := by
    rw [sortedEntries_eq, List.mem_map]
    constructor
    · rintro ⟨d, hd, rfl⟩
      exact ⟨d.2, hd, rfl⟩
    · rintro ⟨v, hv, hsorted⟩
      exact ⟨(e.1, v), hv, Prod.ext rfl hsorted⟩
  rw [sameEntries_iff]
  constructor
  · intro hall
    refine ⟨fun e he => ?_, fun d hd => ?_⟩
    · obtain ⟨w, hw, hsorted⟩ := hmem.mp ((hall (e.1, sorted f e.2)).mp (hmem.mpr ⟨e.2, he, rfl⟩))
      exact ⟨w, hw, (h e he _ hw).mp hsorted.symm⟩
    · obtain ⟨v, hv, -⟩ := hmem.mp ((hall (d.1, sorted f d.2)).mpr (hmem.mpr ⟨d.2, hd, rfl⟩))
      exact ⟨v, hv⟩
  · rintro ⟨hleft, hright⟩ e
    rw [hmem, hmem]
    constructor
    · rintro ⟨v, hv, hsorted⟩
      obtain ⟨w, hw, hsame⟩ := hleft _ hv
      exact ⟨w, hw, ((h _ hv _ hw).mpr hsame).symm.trans hsorted⟩
    · rintro ⟨w, hw, hsorted⟩
      obtain ⟨v, hv⟩ := hright _ hw
      obtain ⟨w', hw', hsame⟩ := hleft _ hv
      obtain rfl : w' = w := congrArg Prod.snd (List.inj_on_of_nodup_map hds hw' hw rfl)
      exact ⟨v, hv, ((h _ hv _ hw).mpr hsame).trans hsorted⟩

mutual

/-- **Sorting the entries leaves the maps.** -/
theorem sorted_eq_iff : ∀ a b : Tree κ ν, a.Distinct → b.Distinct → (sorted f a = sorted f b ↔ Same (f · = f ·) a b)
  | .leaf _, .leaf _, _, _ => by rw [sorted, sorted, Tree.leaf.injEq, Same]
  | .arr xs, .arr ys, ha, hb => by
    rw [sorted, sorted, Tree.arr.injEq]
    exact sortedElems_eq_iff xs ys ha hb
  | .obj es, .obj ds, ha, hb => by
    have hkeys (l : List (κ × Tree κ ν)) : (sortedEntries f l).map (·.1) = l.map (·.1) := by
      rw [sortedEntries_eq, List.map_map]
      rfl
    rw [sorted, sorted, Tree.obj.injEq, sortByKey_eq_iff (hkeys es ▸ ha.1) (hkeys ds ▸ hb.1)]
    exact sortedEntries_iff hb.1 fun e he d hd =>
      sortedEntries_eq_iff es ha.2 e he d.2 (distinctEntries_iff.mp hb.2 d hd)
  | .leaf _, .arr _, _, _ | .leaf _, .obj _, _, _ | .arr _, .leaf _, _, _ | .arr _, .obj _, _, _
  | .obj _, .leaf _, _, _ | .obj _, .arr _, _, _ => by simp [sorted, Same]

theorem sortedElems_eq_iff : ∀ xs ys : List (Tree κ ν), DistinctElems xs → DistinctElems ys →
    (sortedElems f xs = sortedElems f ys ↔ SameElems (f · = f ·) xs ys)
  | [], [], _, _ | [], _ :: _, _, _ | _ :: _, [], _, _ => by simp [sortedElems, SameElems]
  | x :: xs, y :: ys, ha, hb => by
    rw [sortedElems, sortedElems, List.cons.injEq, SameElems, sorted_eq_iff x y ha.1 hb.1,
      sortedElems_eq_iff xs ys ha.2 hb.2]

theorem sortedEntries_eq_iff : ∀ es : List (κ × Tree κ ν), DistinctEntries es → ∀ e ∈ es, ∀ w : Tree κ ν, w.Distinct →
    (sorted f e.2 = sorted f w ↔ Same (f · = f ·) e.2 w)
  | [], _, _, he => absurd he List.not_mem_nil
  | (k, v) :: es, hes, e, he => by
    intro w hw
    rcases List.mem_cons.mp he with h | he
    · rw [h]
      exact sorted_eq_iff v w hes.1 hw
    · exact sortedEntries_eq_iff es hes.2 e he w hw

end

end Tree

end Cadena.Base
