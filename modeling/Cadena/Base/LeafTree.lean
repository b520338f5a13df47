import Cadena.Base.Transition

/-!
# Writing leaves into a tree

A tree is written at paths, one leaf at a time. A leaf may be sealed: what is
written below it goes elsewhere and the tree keeps the leaf; any other leaf is
replaced by a branch. A leaf shows something along every path below it, and a
family of writes can be read back, all of them, when those at comparable paths
agree on what they show (`covered_of_agrees`). Nothing here depends on the
program.
-/

namespace Cadena.Base

inductive LeafTree (κ ν : Type) where
  | leaf (v : ν)
  | node (children : κ → Option (LeafTree κ ν))

namespace LeafTree

variable {κ ν ω : Type} [DecidableEq κ]

abbrev Branches (κ ν : Type) := κ → Option (LeafTree κ ν)

def bare : Branches κ ν := fun _ => none

/-- The leaf that stands exactly at the path. -/
def leafAt : Branches κ ν → List κ → Option ν
  | _, [] => none
  | b, [k] =>
    match b k with
    | some (.leaf v) => some v
    | _ => none
  | b, k :: k' :: ks =>
    match b k with
    | some (.node c) => leafAt c (k' :: ks)
    | _ => none

/-- Puts a leaf at the path, with branches on the way to it. -/
def write (isSealed : ν → Bool) : Branches κ ν → List κ → ν → Branches κ ν
  | b, [], _ => b
  | b, [k], v => setAt b k (some (.leaf v))
  | b, k :: k' :: ks, v =>
    match b k with
    | some (.node c) => setAt b k (some (.node (write isSealed c (k' :: ks) v)))
    | some (.leaf w) =>
      if isSealed w then b
      else setAt b k (some (.node (write isSealed bare (k' :: ks) v)))
    | none => setAt b k (some (.node (write isSealed bare (k' :: ks) v)))

def writeAll (isSealed : ν → Bool) (b : Branches κ ν) (writes : List (List κ × ν)) :
    Branches κ ν :=
  writes.foldl (fun b a => write isSealed b a.1 a.2) b

/-- No leaf stands above the path. -/
def Clear (b : Branches κ ν) (p : List κ) : Prop :=
  ∀ u s, p = u ++ s → s ≠ [] → leafAt b u = none

/-! ## One write -/

omit [DecidableEq κ] in
@[simp] theorem leafAt_nil (b : Branches κ ν) : leafAt b [] = none := by
  unfold leafAt
  rfl

omit [DecidableEq κ] in
@[simp] theorem leafAt_bare (p : List κ) : leafAt (bare : Branches κ ν) p = none := by
  rcases p with _ | ⟨k, _ | ⟨k', ks⟩⟩ <;> simp [leafAt, bare]

theorem write_below {isSealed : ν → Bool} {u : List κ} {b : Branches κ ν} {w : ν}
    (hleaf : leafAt b u = some w) (hsealed : isSealed w = true) {s : List κ} (hs : s ≠ []) (v : ν) :
    write isSealed b (u ++ s) v = b := by
  induction u generalizing b with
  | nil => simp at hleaf
  | cons k u ih =>
    obtain ⟨k', ks, hpath⟩ : ∃ k' ks, u ++ s = k' :: ks :=
      List.exists_cons_of_ne_nil (by simp [hs])
    rw [List.cons_append, hpath]
    cases u with
    | nil =>
      cases hbk : b k with
      | none => simp [leafAt, hbk] at hleaf
      | some t =>
        cases t with
        | node c => simp [leafAt, hbk] at hleaf
        | leaf x =>
          obtain rfl : x = w := by simpa [leafAt, hbk] using hleaf
          simp [write, hbk, hsealed]
    | cons l u =>
      cases hbk : b k with
      | none => simp [leafAt, hbk] at hleaf
      | some t =>
        cases t with
        | leaf x => simp [leafAt, hbk] at hleaf
        | node c =>
          have hinner : leafAt c (l :: u) = some w := by simpa [leafAt, hbk] using hleaf
          have hkeep := ih hinner
          rw [hpath] at hkeep
          simp only [write, hbk, hkeep]
          rw [← hbk, setAt_self]

theorem leafAt_write {isSealed : ν → Bool} {p : List κ} {b : Branches κ ν} (hp : p ≠ [])
    (hclear : Clear b p) (v : ν) (u : List κ) :
    leafAt (write isSealed b p v) u =
      if u = p then some v else if p <+: u then none else leafAt b u := by
  induction p generalizing b u with
  | nil => exact absurd rfl hp
  | cons k p ih =>
    cases p with
    | nil =>
      rcases u with _ | ⟨j, _ | ⟨j', us⟩⟩
      · simp
      · by_cases hj : j = k
        · simp [write, leafAt, hj]
        · simp [write, leafAt, hj, setAt_other, Ne.symm hj]
      · by_cases hj : j = k
        · simp [write, leafAt, hj]
        · simp [write, leafAt, hj, setAt_other, Ne.symm hj]
    | cons k' ks =>
      -- what was a branch, or nothing, is a branch
      have hbranch : ∃ c, write isSealed b (k :: k' :: ks) v =
            setAt b k (some (.node (write isSealed c (k' :: ks) v))) ∧
          Clear c (k' :: ks) ∧ ∀ j us, leafAt b (k :: j :: us) = leafAt c (j :: us) := by
        cases hbk : b k with
        | none =>
          refine ⟨bare, by simp [write, hbk], fun _ _ _ _ => leafAt_bare _, ?_⟩
          intro j us
          simp [leafAt, hbk]
        | some t =>
          cases t with
          | node c =>
            refine ⟨c, by simp [write, hbk], ?_, by simp [leafAt, hbk]⟩
            intro above s hsplit hs
            have habove := hclear (k :: above) s (by rw [hsplit]; rfl) hs
            cases above with
            | nil => simp
            | cons l above => simpa [leafAt, hbk] using habove
          | leaf w =>
            have habove := hclear [k] (k' :: ks) rfl (by simp)
            simp [leafAt, hbk] at habove
      obtain ⟨c, hwrite, hc, hleaves⟩ := hbranch
      rw [hwrite]
      rcases u with _ | ⟨j, _ | ⟨j', us⟩⟩
      · simp
      · by_cases hj : j = k
        · subst hj
          have hnone : leafAt b [j] = none := hclear [j] (k' :: ks) rfl (by simp)
          simp [leafAt] at hnone ⊢
          exact hnone.symm
        · simp [leafAt, hj, setAt_other]
      · by_cases hj : j = k
        · subst hj
          have hrest := ih (by simp) hc (j' :: us)
          have hinner : leafAt (setAt b j (some (.node (write isSealed c (k' :: ks) v))))
              (j :: j' :: us) = leafAt (write isSealed c (k' :: ks) v) (j' :: us) := by
            simp [leafAt]
          rw [hinner, hrest, hleaves]
          simp [List.cons_prefix_cons]
        · simp [leafAt, hj, setAt_other, Ne.symm hj]

/-! ## All writes -/

/-- Two writes at comparable paths agree: what the upper one shows at the
rest of the path is what the lower one shows. -/
def Agrees (shows : ν → List κ → Option ω) (writes : List (List κ × ν)) : Prop :=
  ∀ a ∈ writes, ∀ b ∈ writes, ∀ s, b.1 = a.1 ++ s → ∀ q, shows a.2 (s ++ q) = shows b.2 q

/-- A leaf at the path or above it shows what `v` shows. -/
def Covered (shows : ν → List κ → Option ω) (b : Branches κ ν) (p : List κ) (v : ν) : Prop :=
  ∃ u s w, p = u ++ s ∧ leafAt b u = some w ∧ ∀ q, shows w (s ++ q) = shows v q

section Writes

variable {isSealed : ν → Bool} {shows : ν → List κ → Option ω}

/-- What is in the tree after some writes. -/
structure Written (shows : ν → List κ → Option ω) (b : Branches κ ν)
    (done : List (List κ × ν)) : Prop where
  origin : ∀ u w, leafAt b u = some w → (u, w) ∈ done
  covered : ∀ a ∈ done, Covered shows b a.1 a.2

variable (hself : ∀ v, (shows v []).isSome = true)
  (hbelow : ∀ v s, isSealed v = false → s ≠ [] → shows v s = none)
include hself hbelow

/-- **One more write that agrees with those before.** -/
theorem Written.step {b : Branches κ ν} {done : List (List κ × ν)} (h : Written shows b done)
    {a : List κ × ν} (hpath : a.1 ≠ []) (hagrees : Agrees shows (done ++ [a])) :
    Written shows (write isSealed b a.1 a.2) (done ++ [a]) := by
  obtain ⟨p, v⟩ := a
  have hnew : (p, v) ∈ done ++ [(p, v)] := by simp
  have hold : ∀ {c}, c ∈ done → c ∈ done ++ [(p, v)] := fun hc => List.mem_append_left _ hc
  by_cases hclear : Clear b p
  · constructor
    · intro u w hleaf
      rw [leafAt_write hpath hclear] at hleaf
      split at hleaf
      · rename_i hu
        rw [hu, ← Option.some.inj hleaf]
        exact hnew
      · split at hleaf
        · cases hleaf
        · exact hold (h.origin u w hleaf)
    · intro c hc
      have hnow : leafAt (write isSealed b p v) p = some v := by
        rw [leafAt_write hpath hclear, if_pos rfl]
      rcases List.mem_append.mp hc with hdone | hlast
      · obtain ⟨u, s, w, hsplit, hleaf, hshows⟩ := h.covered c hdone
        by_cases hunder : p <+: u
        · -- the leaf was at or below the new one
          obtain ⟨r, rfl⟩ := hunder
          refine ⟨p, r ++ s, v, by rw [hsplit, List.append_assoc], hnow, ?_⟩
          exact hagrees (p, v) hnew c (hold hdone) (r ++ s) (by rw [hsplit, List.append_assoc])
        · have hne : u ≠ p := by
            rintro rfl
            exact hunder (List.prefix_refl _)
          refine ⟨u, s, w, hsplit, ?_, hshows⟩
          rw [leafAt_write hpath hclear, if_neg hne, if_neg hunder]
          exact hleaf
      · obtain rfl := List.mem_singleton.mp hlast
        exact ⟨p, [], v, (List.append_nil _).symm, hnow, fun q => rfl⟩
  · -- a leaf above the path, which agrees with the write, is sealed
    have habove : ∃ u s w, p = u ++ s ∧ s ≠ [] ∧ leafAt b u = some w := by
      by_contra hnone
      refine hclear fun u s hsplit hs => ?_
      by_contra hsome
      obtain ⟨w, hw⟩ := Option.ne_none_iff_exists'.mp hsome
      exact hnone ⟨u, s, w, hsplit, hs, hw⟩
    obtain ⟨u, s, w, rfl, hs, hleaf⟩ := habove
    have hshows := hagrees (u, w) (hold (h.origin u w hleaf)) (u ++ s, v) hnew s rfl
    have hsealed : isSealed w = true := by
      by_contra hopen
      have hnone := hbelow w s (by simpa using hopen) hs
      have hsome := hself v
      rw [← hshows [], List.append_nil, hnone] at hsome
      cases hsome
    rw [write_below hleaf hsealed hs]
    constructor
    · exact fun x y hxy => hold (h.origin x y hxy)
    · intro c hc
      rcases List.mem_append.mp hc with hdone | hlast
      · exact h.covered c hdone
      · obtain rfl := List.mem_singleton.mp hlast
        exact ⟨u, s, w, rfl, hleaf, hshows⟩

theorem Written.all {b : Branches κ ν} {done : List (List κ × ν)} (h : Written shows b done)
    {writes : List (List κ × ν)} (hpaths : ∀ a ∈ writes, a.1 ≠ [])
    (hagrees : Agrees shows (done ++ writes)) :
    Written shows (writeAll isSealed b writes) (done ++ writes) := by
  induction writes generalizing b done with
  | nil => simpa [writeAll] using h
  | cons a writes ih =>
    have hsplit : done ++ a :: writes = (done ++ [a]) ++ writes := by simp
    have hfirst : Agrees shows (done ++ [a]) := by
      intro x hx y hy
      have hkeep : ∀ {c}, c ∈ done ++ [a] → c ∈ done ++ a :: writes := by
        intro c hc
        rw [hsplit]
        exact List.mem_append_left _ hc
      exact hagrees x (hkeep hx) y (hkeep hy)
    rw [hsplit] at hagrees ⊢
    exact ih (h.step hself hbelow (hpaths a List.mem_cons_self) hfirst)
      (fun c hc => hpaths c (List.mem_cons_of_mem _ hc)) hagrees

/-- **Writes that agree can all be read back.** -/
theorem covered_of_agrees {writes : List (List κ × ν)} (hpaths : ∀ a ∈ writes, a.1 ≠ [])
    (hagrees : Agrees shows writes) :
    ∀ a ∈ writes, Covered shows (writeAll isSealed bare writes) a.1 a.2 := by
  have hstart : Written shows (bare : Branches κ ν) [] :=
    ⟨fun u w h => by simp at h, fun a ha => by cases ha⟩
  exact (hstart.all hself hbelow hpaths hagrees).covered

end Writes

end LeafTree

end Cadena.Base
