import Mathlib.Data.List.Sort
import Mathlib.Data.List.Perm.Basic

/-!
# A register of stamped versions

A register keeps one version of a value. It turns away versions older
than its own, and it does not take over a version whose content it has
already: then its stamp stays behind. So the order of arrival matters.
`Covered` says of a version which it takes for it to be the last one
kept in some order.
-/

namespace Cadena.Base.Register

variable {α τ κ : Type} [LinearOrder τ] [DecidableEq κ] (stamp : α → τ) (content : α → κ)

/-- What one arrival leaves. -/
def absorb (kept : Option α) (v : α) : Option α :=
  match kept with
  | none => some v
  | some k =>
    if stamp v < stamp k then some k
    else if content v = content k then some k
    else some v

def absorbAll (kept : Option α) (vs : List α) : Option α := vs.foldl (absorb stamp content) kept

/-- Every version newer than `z` has the content of one that is no newer. -/
def Covered (vs : List α) (z : α) : Prop :=
  ∀ y ∈ vs, stamp z < stamp y → ∃ o ∈ vs, stamp o ≤ stamp z ∧ content o = content y

variable {stamp content}

@[simp] theorem absorbAll_nil (kept : Option α) : absorbAll stamp content kept [] = kept := rfl

theorem absorbAll_cons (kept : Option α) (v : α) (vs : List α) :
    absorbAll stamp content kept (v :: vs) =
      absorbAll stamp content (absorb stamp content kept v) vs := rfl

theorem absorbAll_append (kept : Option α) (vs ws : List α) :
    absorbAll stamp content kept (vs ++ ws) =
      absorbAll stamp content (absorbAll stamp content kept vs) ws := by
  rw [absorbAll, List.foldl_append]
  rfl

/-! ## What is kept is covered -/

/-- The kept version arrived, and whatever newer arrived has the content of
something no newer than it. -/
def Kept (stamp : α → τ) (content : α → κ) (arrived : List α) (kept : Option α) : Prop :=
  match kept with
  | none => arrived = []
  | some z => z ∈ arrived ∧ Covered stamp content arrived z

theorem Kept.absorb {arrived : List α} {kept : Option α} {v : α}
    (h : Kept stamp content arrived kept)
    (hne : ∀ z ∈ arrived, stamp v ≠ stamp z) :
    Kept stamp content (arrived ++ [v]) (absorb stamp content kept v) := by
  cases kept with
  | none =>
    obtain rfl : arrived = [] := h
    refine ⟨by simp, fun y hy hlt => ?_⟩
    obtain rfl : y = v := by simpa using hy
    exact absurd hlt (lt_irrefl _)
  | some z =>
    obtain ⟨hz, hcov⟩ := h
    have hkeep : (stamp v < stamp z ∨ content v = content z) →
        Covered stamp content (arrived ++ [v]) z := by
      intro hv y hy hlt
      rcases List.mem_append.mp hy with hy | hy
      · obtain ⟨o, ho, hle, hcon⟩ := hcov y hy hlt
        exact ⟨o, List.mem_append_left _ ho, hle, hcon⟩
      · obtain rfl : y = v := by simpa using hy
        rcases hv with hold | hsame
        · exact absurd hlt (lt_asymm hold)
        · exact ⟨z, List.mem_append_left _ hz, le_refl _, hsame.symm⟩
    unfold Register.absorb
    simp only
    split
    · rename_i hold
      exact ⟨List.mem_append_left _ hz, hkeep (.inl hold)⟩
    · rename_i hnew
      split
      · rename_i hsame
        exact ⟨List.mem_append_left _ hz, hkeep (.inr hsame)⟩
      · -- The new version is newer than the old one, so it covers more.
        have hlt : stamp z < stamp v := lt_of_le_of_ne (not_lt.mp hnew) (hne z hz).symm
        refine ⟨by simp, fun y hy hy' => ?_⟩
        rcases List.mem_append.mp hy with hy | hy
        · obtain ⟨o, ho, hle, hcon⟩ := hcov y hy (lt_trans hlt hy')
          exact ⟨o, List.mem_append_left _ ho, le_trans hle (le_of_lt hlt), hcon⟩
        · obtain rfl : y = v := by simpa using hy
          exact absurd hy' (lt_irrefl _)

variable {vs : List α}

theorem Kept.absorbAll {arrived : List α} {kept : Option α} (h : Kept stamp content arrived kept)
    (hdistinct : (arrived ++ vs).Pairwise fun a b => stamp a ≠ stamp b) :
    Kept stamp content (arrived ++ vs) (absorbAll stamp content kept vs) := by
  induction vs generalizing arrived kept with
  | nil => simpa using h
  | cons v vs ih =>
    rw [absorbAll_cons, List.append_cons]
    rw [List.append_cons] at hdistinct
    refine ih (h.absorb fun z hz => ?_) hdistinct
    have hpre := (List.pairwise_append.mp hdistinct).1
    exact ((List.pairwise_append.mp hpre).2.2 z hz v (by simp)).symm

/-! ## What is covered can be kept -/

/-- Older versions in order, each followed by the newer ones it hides. -/
def arrange (content : α → κ) : List α → List α → List α
  | [], newer => newer
  | o :: os, newer =>
    o :: newer.filter (fun y => content y = content o)
      ++ arrange content os (newer.filter fun y => ¬ content y = content o)

theorem arrange_perm (os newer : List α) :
    (arrange content os newer).Perm (os ++ newer) := by
  induction os generalizing newer with
  | nil => exact List.Perm.refl _
  | cons o os ih =>
    rw [arrange, List.cons_append, List.cons_append]
    refine List.Perm.cons _ ?_
    have hsplit : (newer.filter (fun y => content y = content o) ++
        newer.filter (fun y => ¬ content y = content o)).Perm newer := by
      simpa using List.filter_append_perm (fun y => decide (content y = content o)) newer
    calc newer.filter (fun y => content y = content o) ++
          arrange content os (newer.filter fun y => ¬ content y = content o)
        |>.Perm (newer.filter (fun y => content y = content o) ++
          (os ++ newer.filter fun y => ¬ content y = content o)) :=
          (ih _).append_left _
      _ |>.Perm (os ++ (newer.filter (fun y => content y = content o) ++
          newer.filter fun y => ¬ content y = content o)) := by
          rw [← List.append_assoc, ← List.append_assoc]
          exact List.perm_append_comm.append_right _
      _ |>.Perm (os ++ newer) := hsplit.append_left _

theorem absorbAll_same {k : α} (hnew : ∀ y ∈ vs, stamp k ≤ stamp y) (hsame : ∀ y ∈ vs, content y = content k) :
    absorbAll stamp content (some k) vs = some k := by
  induction vs with
  | nil => rfl
  | cons v vs ih =>
    have hstep : absorb stamp content (some k) v = some k := by
      simp only [absorb, not_lt.mpr (hnew v (by simp)), if_false, hsame v (by simp), if_true]
    rw [absorbAll_cons, hstep]
    exact ih (fun y hy => hnew y (List.mem_cons_of_mem _ hy))
      fun y hy => hsame y (List.mem_cons_of_mem _ hy)

theorem absorbAll_arrange {s : α} {os newer : List α}
    (hsorted : (s :: os).Pairwise fun a b => stamp a < stamp b)
    (hnewer : ∀ y ∈ newer, ∀ o ∈ s :: os, stamp o ≤ stamp y)
    (hhidden : ∀ y ∈ newer, ∃ o ∈ os, content o = content y) {k : α}
    (hk : stamp k ≤ stamp s) (hkc : content k = content s) :
    ∃ w, absorbAll stamp content (some k) (arrange content os newer) = some w ∧
      content w = content ((s :: os).getLast (by simp)) := by
  induction os generalizing s k newer with
  | nil =>
    have hnil : newer = [] := by
      cases newer with
      | nil => rfl
      | cons y ys =>
        obtain ⟨o, ho, -⟩ := hhidden y (by simp)
        cases ho
    subst hnil
    exact ⟨k, rfl, hkc⟩
  | cons o os ih =>
    obtain ⟨hs, hrest⟩ := List.pairwise_cons.mp hsorted
    have hko : stamp k < stamp o := lt_of_le_of_lt hk (hs o (by simp))
    -- After `o` the content of `o` is kept, under a stamp no newer than its own.
    obtain ⟨k', hk', hle, hcon⟩ : ∃ k', absorb stamp content (some k) o = some k' ∧
        stamp k' ≤ stamp o ∧ content k' = content o := by
      by_cases hsame : content o = content k
      · exact ⟨k, by simp [absorb, not_lt.mpr (le_of_lt hko), hsame], le_of_lt hko,
          hsame.symm⟩
      · exact ⟨o, by simp [absorb, not_lt.mpr (le_of_lt hko), hsame], le_refl _, rfl⟩
    have hskip : absorbAll stamp content (some k')
        (newer.filter fun y => content y = content o) = some k' := by
      refine absorbAll_same (fun y hy => ?_) (fun y hy => ?_)
      · exact le_trans hle (hnewer y (List.mem_filter.mp hy).1 o (by simp))
      · rw [hcon]
        simpa using (List.mem_filter.mp hy).2
    rw [arrange, absorbAll_append, absorbAll_cons, hk', hskip]
    have hlast : (s :: o :: os).getLast (by simp) = (o :: os).getLast (by simp) := by
      rw [List.getLast_cons]
    rw [hlast]
    refine ih hrest (fun y hy p hp => ?_) (fun y hy => ?_) hle hcon
    · exact hnewer y (List.mem_filter.mp hy).1 p (List.mem_cons_of_mem _ hp)
    · obtain ⟨hy, hne⟩ := List.mem_filter.mp hy
      obtain ⟨p, hp, hpc⟩ := hhidden y hy
      rcases List.mem_cons.mp hp with rfl | hp
      · exact absurd hpc.symm (by simpa using hne)
      · exact ⟨p, hp, hpc⟩

/-- **A covered version is kept by some order of arrival**, at least in its
content. -/
theorem exists_order {z : α} (hz : z ∈ vs) (hcov : Covered stamp content vs z)
    (hdistinct : vs.Pairwise fun a b => stamp a ≠ stamp b) :
    ∃ order, order.Perm vs ∧ ∃ w, absorbAll stamp content none order = some w ∧
      content w = content z := by
  let le : α → α → Prop := fun a b => stamp a ≤ stamp b
  have : DecidableRel le := fun a b => inferInstanceAs (Decidable (stamp a ≤ stamp b))
  have : Std.Total le := ⟨fun a b => le_total (stamp a) (stamp b)⟩
  have : IsTrans α le := ⟨fun _ _ _ => le_trans⟩
  let older := vs.filter fun v => stamp v ≤ stamp z
  let newer := vs.filter fun v => !decide (stamp v ≤ stamp z)
  have hparts : (older ++ newer).Perm vs := List.filter_append_perm _ vs
  have hperm : (older.insertionSort le).Perm older := List.perm_insertionSort le older
  have hmem : ∀ {v}, v ∈ older.insertionSort le ↔ v ∈ vs ∧ stamp v ≤ stamp z := by
    intro v
    rw [hperm.mem_iff, List.mem_filter, decide_eq_true_eq]
  have hne : (older.insertionSort le).Pairwise fun a b => stamp a ≠ stamp b :=
    hperm.symm.pairwise (hdistinct.sublist List.filter_sublist) fun h => h.symm
  have hsorted : (older.insertionSort le).Pairwise fun a b => stamp a < stamp b :=
    ((List.pairwise_insertionSort le older).and hne).imp fun h => lt_of_le_of_ne h.1 h.2
  have hzin : z ∈ older.insertionSort le := hmem.mpr ⟨hz, le_refl _⟩
  cases hcase : older.insertionSort le with
  | nil => rw [hcase] at hzin; cases hzin
  | cons s os =>
    rw [hcase] at hsorted hmem hzin hperm
    -- The last of the older versions is `z`.
    have hlast : (s :: os).getLast (by simp) = z := by
      have hin := List.getLast_mem (l := s :: os) (by simp)
      rw [← List.dropLast_append_getLast (l := s :: os) (by simp)] at hsorted hzin
      rcases List.mem_append.mp hzin with hz' | hz'
      · have hlt := (List.pairwise_append.mp hsorted).2.2 z hz' _ (List.mem_singleton_self _)
        exact absurd (hmem.mp hin).2 (not_le.mpr hlt)
      · exact (List.mem_singleton.mp hz').symm
    refine ⟨arrange content (s :: os) newer, ?_, ?_⟩
    · exact (arrange_perm _ _).trans ((hperm.append_right newer).trans hparts)
    · have hnewer : ∀ y ∈ newer, stamp z < stamp y := by
        intro y hy
        simpa [newer] using (List.mem_filter.mp hy).2
      have hs : stamp s ≤ stamp z := (hmem.mp (by simp)).2
      rw [arrange, absorbAll_append, absorbAll_cons]
      have hskip : absorbAll stamp content (some s)
          (newer.filter fun y => content y = content s) = some s := by
        refine absorbAll_same (fun y hy => ?_) (fun y hy => ?_)
        · exact le_trans hs (le_of_lt (hnewer y (List.mem_filter.mp hy).1))
        · simpa using (List.mem_filter.mp hy).2
      rw [show absorb stamp content none s = some s from rfl, hskip, ← hlast]
      refine absorbAll_arrange hsorted (fun y hy o ho => ?_) (fun y hy => ?_) (le_refl _) rfl
      · exact le_trans (hmem.mp ho).2 (le_of_lt (hnewer y (List.mem_filter.mp hy).1))
      · obtain ⟨hy, hdiff⟩ := List.mem_filter.mp hy
        obtain ⟨o, ho, hle, hcon⟩ := hcov y (List.mem_filter.mp hy).1 (hnewer y hy)
        rcases List.mem_cons.mp (hmem.mpr ⟨ho, hle⟩) with rfl | hos
        · exact absurd hcon.symm (by simpa using hdiff)
        · exact ⟨o, hos, hcon⟩

omit [DecidableEq κ] in
theorem Covered.of_perm {ws : List α} {z : α} (h : Covered stamp content vs z)
    (hp : vs.Perm ws) : Covered stamp content ws z := by
  intro y hy hlt
  obtain ⟨o, ho, hle, hcon⟩ := h y (hp.mem_iff.mpr hy) hlt
  exact ⟨o, hp.mem_iff.mp ho, hle, hcon⟩

variable (stamp content) in
/-- **What can be left after all versions**, over all orders of arrival:
the contents of the covered ones. -/
theorem kept_content_iff (hdistinct : vs.Pairwise fun a b => stamp a ≠ stamp b) (Q : κ → Prop) :
    (∀ order, order.Perm vs → ∀ w, absorbAll stamp content none order = some w →
      Q (content w)) ↔
      ∀ z ∈ vs, Covered stamp content vs z → Q (content z) := by
  constructor
  · intro h z hz hcov
    obtain ⟨order, hperm, w, hw, hcon⟩ := exists_order hz hcov hdistinct
    exact hcon ▸ h order hperm w hw
  · intro h order hperm w hw
    have hnone : Kept stamp content [] none := rfl
    have hkept : Kept stamp content ([] ++ order) (absorbAll stamp content none order) :=
      hnone.absorbAll (by simpa using hperm.symm.pairwise hdistinct fun h => h.symm)
    rw [hw, List.nil_append] at hkept
    exact h w (hperm.mem_iff.mp hkept.1) (hkept.2.of_perm hperm)

theorem absorbAll_some (kept : α) : ∃ w, absorbAll stamp content (some kept) vs = some w := by
  induction vs generalizing kept with
  | nil => exact ⟨kept, rfl⟩
  | cons v vs ih =>
    rw [absorbAll_cons]
    unfold absorb
    simp only
    split
    · exact ih kept
    · split
      · exact ih kept
      · exact ih v

end Cadena.Base.Register
