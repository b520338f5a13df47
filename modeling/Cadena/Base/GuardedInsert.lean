import Cadena.Base.Transition

/-!
# A row inserted under a lock

Workers look for a row and insert one if there is none, each in a transaction
of its own and all under the same lock. In a `Move` one of them takes the lock,
looks, inserts what only itself can see, and commits or gives up; the lock is
free again after that. At most one row is ever committed, and everybody who is
done has that row.
-/

namespace Cadena.Base

/-- Where a worker stands: with the lock from `inside` to `holds`. -/
inductive GuardStage (ρ : Type) where
  | outside
  | inside
  | absent
  | holds (row : ρ) (created : Bool)
  | done (row : ρ) (created : Bool)

def GuardStage.Guarded {ρ : Type} : GuardStage ρ → Prop
  | .inside | .absent | .holds .. => True
  | .outside | .done .. => False

@[ext] structure GuardedInsert (ι ρ : Type) where
  rows : List ρ
  stage : ι → GuardStage ρ

namespace GuardedInsert

variable {ι ρ : Type} [DecidableEq ι]

inductive Move (r : GuardedInsert ι ρ) : GuardedInsert ι ρ → Prop where
  | stay : Move r r
  | enter (i : ι) (hout : r.stage i = .outside) (hfree : ∀ j, ¬ (r.stage j).Guarded) :
      Move r { r with stage := setAt r.stage i .inside }
  | miss (i : ι) (hin : r.stage i = .inside) (hnone : r.rows = []) :
      Move r { r with stage := setAt r.stage i .absent }
  | find (i : ι) (row : ρ) (hin : r.stage i = .inside) (hrow : row ∈ r.rows) :
      Move r { r with stage := setAt r.stage i (.holds row false) }
  | insert (i : ι) (row : ρ) (habsent : r.stage i = .absent) :
      Move r { r with stage := setAt r.stage i (.holds row true) }
  | commit (i : ι) (row : ρ) (created : Bool) (hholds : r.stage i = .holds row created) :
      Move r ⟨if created then r.rows ++ [row] else r.rows, setAt r.stage i (.done row created)⟩
  | abort (i : ι) (hin : (r.stage i).Guarded) : Move r { r with stage := setAt r.stage i .outside }

/-- `fresh` says that there was no row to begin with. -/
structure Sound (fresh : Prop) (r : GuardedInsert ι ρ) : Prop where
  excl : ∀ i j, (r.stage i).Guarded → (r.stage j).Guarded → i = j
  absent : ∀ i, r.stage i = .absent → r.rows = []
  found : ∀ i row, r.stage i = .holds row false → r.rows = [row]
  inserted : ∀ i row, r.stage i = .holds row true → r.rows = []
  one : ∀ row ∈ r.rows, r.rows = [row]
  done : ∀ i row created, r.stage i = .done row created → r.rows = [row]
  creator : fresh → ∀ row ∈ r.rows, ∃ i, r.stage i = .done row true
  once : ∀ i j row row', r.stage i = .done row true → r.stage j = .done row' true → i = j

variable {fresh : Prop} {r r' : GuardedInsert ι ρ}

theorem stage_setAt {i j : ι} {stage : GuardStage ρ} (hj : j ≠ i) :
    setAt r.stage i stage j = r.stage j := setAt_other _ _ hj

theorem Sound.guarded (h : Sound fresh r) {i : ι} {stage : GuardStage ρ} (hguarded : stage.Guarded)
    (hfree : ∀ j, j ≠ i → ¬ (r.stage j).Guarded) (hold : ∀ row c, r.stage i ≠ .done row c)
    (habsent : stage = .absent → r.rows = [])
    (hfound : ∀ row, stage = .holds row false → r.rows = [row])
    (hinserted : ∀ row, stage = .holds row true → r.rows = []) :
    Sound fresh { r with stage := setAt r.stage i stage } := by
  have hnotDone : ∀ row c, stage ≠ .done row c := by
    rintro row c rfl
    exact hguarded
  have hdone : ∀ j row c, setAt r.stage i stage j = .done row c → r.stage j = .done row c := by
    intro j row c hj
    by_cases hji : j = i
    · subst hji
      rw [setAt_same] at hj
      exact absurd hj (hnotDone row c)
    · rwa [stage_setAt hji] at hj
  have honly : ∀ j x, setAt r.stage i stage j = x → x.Guarded → j = i ∧ stage = x := by
    rintro j x rfl hx
    by_cases hji : j = i
    · subst hji
      exact ⟨rfl, (setAt_same _ _ _).symm⟩
    · rw [stage_setAt hji] at hx
      exact absurd hx (hfree j hji)
  refine ⟨?_, ?_, ?_, ?_, h.one, ?_, ?_, ?_⟩
  · intro j j' hj hj'
    rw [(honly j _ rfl hj).1, (honly j' _ rfl hj').1]
  · exact fun j hj => habsent (honly j _ hj trivial).2
  · exact fun j row hj => hfound row (honly j _ hj trivial).2
  · exact fun j row hj => hinserted row (honly j _ hj trivial).2
  · intro j row c hj
    exact h.done j row c (hdone j row c hj)
  · intro hfresh row hrow
    obtain ⟨j, hj⟩ := h.creator hfresh row hrow
    have hji : j ≠ i := by
      rintro rfl
      exact hold row true hj
    exact ⟨j, (stage_setAt hji).trans hj⟩
  · intro j j' row row' hj hj'
    exact h.once j j' row row' (hdone j row true hj) (hdone j' row' true hj')

omit [DecidableEq ι] in
/-- Nobody else has the lock while one worker has it. -/
theorem Sound.alone (h : Sound fresh r) {i : ι} (hin : (r.stage i).Guarded) (j : ι) (hj : j ≠ i) :
    ¬ (r.stage j).Guarded := fun hj' => hj (h.excl j i hj' hin)

theorem Sound.commit (h : Sound fresh r) {i : ι} {row : ρ} {created : Bool}
    (hholds : r.stage i = .holds row created) :
    Sound fresh ⟨if created then r.rows ++ [row] else r.rows, setAt r.stage i (.done row created)⟩ := by
  have hfree := h.alone (i := i) (by rw [hholds]; exact trivial)
  have hrows : (if created then r.rows ++ [row] else r.rows) = [row] := by
    cases created with
    | false => exact h.found i row hholds
    | true => simp [h.inserted i row hholds]
  have hnone : ∀ j x, setAt r.stage i (.done row created) j = x → ¬ x.Guarded := by
    rintro j x rfl hx
    by_cases hji : j = i
    · subst hji
      rw [setAt_same] at hx
      exact hx
    · rw [stage_setAt hji] at hx
      exact hfree j hji hx
  have hnobody : created = true → ∀ j row' c, r.stage j ≠ .done row' c := by
    rintro rfl j row' c hj
    have hsome := h.done j row' c hj
    rw [h.inserted i row hholds] at hsome
    cases hsome
  rw [hrows]
  refine ⟨fun j j' hj => absurd hj (hnone j _ rfl), fun j hj => absurd trivial (hnone j _ hj),
    fun j row' hj => absurd trivial (hnone j _ hj), fun j row' hj => absurd trivial (hnone j _ hj),
    fun row' hrow' => by rw [List.mem_singleton.mp hrow'], ?_, ?_, ?_⟩
  · intro j row' c hj
    replace hj : setAt r.stage i (.done row created) j = .done row' c := hj
    by_cases hji : j = i
    · subst hji
      rw [setAt_same] at hj
      cases hj
      rfl
    · rw [stage_setAt hji] at hj
      cases created with
      | false => rw [← h.found i row hholds, h.done j row' c hj]
      | true => exact absurd hj (hnobody rfl j row' c)
  · intro hfresh row' hrow'
    obtain rfl := List.mem_singleton.mp hrow'
    cases created with
    | true => exact ⟨i, setAt_same _ _ _⟩
    | false =>
      obtain ⟨j, hj⟩ := h.creator hfresh row' (by rw [h.found i row' hholds]; exact List.mem_singleton_self _)
      have hji : j ≠ i := by
        rintro rfl
        rw [hholds] at hj
        cases hj
      exact ⟨j, (stage_setAt hji).trans hj⟩
  · intro j j' row' row'' hj hj'
    cases created with
    | true =>
      have hself : ∀ k row', setAt r.stage i (.done row true) k = .done row' true → k = i := by
        intro k row' hk
        by_contra hki
        rw [stage_setAt hki] at hk
        exact hnobody rfl k row' true hk
      rw [hself j row' hj, hself j' row'' hj']
    | false =>
      have hother : ∀ k row', setAt r.stage i (.done row false) k = .done row' true →
          r.stage k = .done row' true := by
        intro k row' hk
        by_cases hki : k = i
        · subst hki
          rw [setAt_same] at hk
          cases hk
        · rwa [stage_setAt hki] at hk
      exact h.once j j' row' row'' (hother j row' hj) (hother j' row'' hj')

theorem Sound.abort (h : Sound fresh r) {i : ι} (hin : (r.stage i).Guarded) :
    Sound fresh { r with stage := setAt r.stage i .outside } := by
  have hstage : ∀ j, ∀ stage, setAt r.stage i .outside j = stage → stage ≠ .outside →
      r.stage j = stage := by
    rintro j stage hj hne
    by_cases hji : j = i
    · subst hji
      rw [setAt_same] at hj
      exact absurd hj.symm hne
    · rwa [stage_setAt hji] at hj
  refine ⟨fun j j' hj hj' => ?_, fun j hj => h.absent j (hstage j _ hj (by simp)),
    fun j row hj => h.found j row (hstage j _ hj (by simp)),
    fun j row hj => h.inserted j row (hstage j _ hj (by simp)), h.one,
    fun j row c hj => h.done j row c (hstage j _ hj (by simp)), fun hfresh row hrow => ?_,
    fun j j' row row' hj hj' =>
      h.once j j' row row' (hstage j _ hj (by simp)) (hstage j' _ hj' (by simp))⟩
  · have hback : ∀ j, (setAt r.stage i .outside j).Guarded → (r.stage j).Guarded := by
      intro j hj
      rwa [hstage j _ rfl fun hout => by rw [hout] at hj; exact hj]
    exact h.excl j j' (hback j hj) (hback j' hj')
  · obtain ⟨j, hj⟩ := h.creator hfresh row hrow
    have hji : j ≠ i := by
      rintro rfl
      rw [hj] at hin
      exact hin
    exact ⟨j, (stage_setAt hji).trans hj⟩

theorem Sound.move (h : Sound fresh r) (hmove : Move r r') : Sound fresh r' := by
  cases hmove with
  | stay => exact h
  | enter i hout hfree =>
    exact h.guarded trivial (fun j _ => hfree j) (by simp [hout]) nofun (fun _ => nofun) fun _ => nofun
  | miss i hin hnone =>
    exact h.guarded trivial (h.alone (by rw [hin]; exact trivial)) (by simp [hin]) (fun _ => hnone)
      (fun _ => nofun) fun _ => nofun
  | find i row hin hrow =>
    refine h.guarded trivial (h.alone (by rw [hin]; exact trivial)) (by simp [hin]) nofun ?_
      fun _ => nofun
    intro row' heq
    cases heq
    exact h.one row hrow
  | insert i row habsent =>
    exact h.guarded trivial (h.alone (by rw [habsent]; exact trivial)) (by simp [habsent]) nofun
      (fun _ => nofun) fun _ _ => h.absent i habsent
  | commit i row created hholds => exact h.commit hholds
  | abort i hin => exact h.abort hin

omit [DecidableEq ι] in
theorem Sound.start (h : ∀ i, r.stage i = .outside) (hone : r.rows.length ≤ 1) :
    Sound (r.rows = []) r where
  excl i j hi := by rw [h i] at hi; exact hi.elim
  absent i hi := by rw [h i] at hi; cases hi
  found i row hi := by rw [h i] at hi; cases hi
  inserted i row hi := by rw [h i] at hi; cases hi
  one row hrow := by
    obtain ⟨row', hrow'⟩ := List.length_eq_one_iff.mp
      (Nat.le_antisymm hone (List.length_pos_of_mem hrow))
    rw [hrow', List.mem_singleton] at hrow
    rw [hrow', hrow]
  done i row c hi := by rw [h i] at hi; cases hi
  creator hfresh row hrow := by rw [hfresh] at hrow; exact absurd hrow List.not_mem_nil
  once i j row row' hi := by rw [h i] at hi; cases hi

end GuardedInsert

end Cadena.Base
