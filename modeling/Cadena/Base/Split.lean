import Mathlib.Data.List.Basic

/-!
# Splitting a list

Two ways to cut a list: at every occurrence of a given separator list
(`splitText`), and at every occurrence of one element that stands alone,
that is with no equal neighbour (`splitSingle`); a doubled element stays
inside its piece. The second is a homomorphism where a separator stands
alone between two pieces (`splitSingle_append`), and swallows what is
glued to a piece that ends with the separator (`splitSingle_glue`).
-/

namespace Cadena.Base

variable {α : Type*} [DecidableEq α]

/-- Put an element before the first piece. -/
def consHead (c : α) : List (List α) → List (List α)
  | [] => [[c]]
  | w :: ws => (c :: w) :: ws

omit [DecidableEq α] in
theorem consHead_ne_nil (c : α) (ws : List (List α)) : consHead c ws ≠ [] := by
  cases ws <;> simp [consHead]

/-! ## At a separator list -/

/-- `skip` elements of a separator are still to be passed over. -/
def splitTextFrom (sep : List α) : Nat → List α → List (List α)
  | _, [] => [[]]
  | skip + 1, _ :: t => splitTextFrom sep skip t
  | 0, c :: t =>
    if sep.isPrefixOf (c :: t) then [] :: splitTextFrom sep (sep.length - 1) t
    else consHead c (splitTextFrom sep 0 t)

/-- `text.split(sep)` for a separator that is not empty. -/
def splitText (sep t : List α) : List (List α) := splitTextFrom sep 0 t

theorem splitTextFrom_skip (sep t : List α) (k : Nat) :
    splitTextFrom sep k t = splitText sep (t.drop k) := by
  induction k generalizing t with
  | zero => rfl
  | succ k ih => cases t with
    | nil => simp [splitTextFrom, splitText]
    | cons c t => rw [splitTextFrom, ih, List.drop_succ_cons]

theorem splitText_cons (sep : List α) (c : α) (t : List α) (h : ¬ sep <+: c :: t) :
    splitText sep (c :: t) = consHead c (splitText sep t) := by
  rw [splitText, splitTextFrom, if_neg (by simpa using h), splitText]

theorem splitText_sep (s : α) (ss t : List α) :
    splitText (s :: ss) (s :: ss ++ t) = [] :: splitText (s :: ss) t := by
  show splitTextFrom (s :: ss) 0 (s :: (ss ++ t)) = _
  rw [splitTextFrom, if_pos (by simp), splitTextFrom_skip]
  simp

@[elab_as_elim]
theorem splitText_induction (s : α) (ss : List α) {motive : List α → Prop} (t : List α)
    (nil : motive []) (sep : ∀ t, motive t → motive (s :: ss ++ t))
    (cons : ∀ c t, ¬ s :: ss <+: c :: t → motive t → motive (c :: t)) : motive t := by
  induction h : t.length using Nat.strongRecOn generalizing t with
  | _ n ih =>
    cases t with
    | nil => exact nil
    | cons c t =>
      by_cases hp : s :: ss <+: c :: t
      · obtain ⟨r, hr⟩ := hp
        rw [← hr]
        refine sep r (ih r.length ?_ r rfl)
        rw [← h, ← hr]
        simp only [List.length_append, List.length_cons]
        omega
      · exact cons c t hp (ih t.length (by rw [← h]; simp) t rfl)

theorem splitText_ne_nil (s : α) (ss t : List α) : splitText (s :: ss) t ≠ [] := by
  refine splitText_induction s ss t ?_ ?_ ?_
  · simp [splitText, splitTextFrom]
  · intro t _
    rw [splitText_sep]
    exact List.cons_ne_nil _ _
  · intro c t h _
    rw [splitText_cons _ _ _ h]
    exact consHead_ne_nil _ _

theorem intercalate_splitText (s : α) (ss t : List α) :
    (s :: ss).intercalate (splitText (s :: ss) t) = t := by
  refine splitText_induction s ss t ?_ ?_ ?_
  · simp [splitText, splitTextFrom]
  · intro t ih
    rw [splitText_sep, List.intercalate_cons_of_ne_nil (splitText_ne_nil s ss t), ih,
      List.nil_append]
  · intro c t h ih
    rw [splitText_cons _ _ _ h]
    cases hs : splitText (s :: ss) t with
    | nil => exact absurd hs (splitText_ne_nil s ss t)
    | cons w ws =>
      rw [hs] at ih
      cases ws with
      | nil => simpa [consHead] using ih
      | cons w' ws =>
        rw [List.intercalate_cons_cons] at ih
        rw [consHead, List.intercalate_cons_cons, List.cons_append, List.cons_append, ih]

omit [DecidableEq α] in
theorem prefix_intercalate (sep w : List α) (ws : List (List α)) :
    w <+: sep.intercalate (w :: ws) := by
  cases ws with
  | nil => simp
  | cons w' ws =>
    rw [List.intercalate_cons_cons, List.append_assoc]
    exact List.prefix_append _ _

omit [DecidableEq α] in
theorem suffix_intercalate (sep w : List α) (ws : List (List α)) :
    w <:+ sep.intercalate (ws ++ [w]) := by
  induction ws with
  | nil => simp
  | cons v ws ih =>
    rw [List.cons_append, List.intercalate_cons_of_ne_nil (by simp)]
    exact ih.trans (List.suffix_append _ _)

/-- No piece contains the separator. -/
theorem sep_not_infix_of_mem_splitText {s : α} {ss t w : List α}
    (hw : w ∈ splitText (s :: ss) t) : ¬ s :: ss <:+: w := by
  suffices h : ∀ w ∈ splitText (s :: ss) t, ¬ s :: ss <:+: w from h w hw
  clear hw w
  refine splitText_induction s ss t ?_ ?_ ?_
  · intro w hw
    have : w = [] := by simpa [splitText, splitTextFrom] using hw
    simp [this]
  · intro t ih w hw
    rw [splitText_sep] at hw
    rcases List.mem_cons.mp hw with rfl | hw
    · simp
    · exact ih w hw
  · intro c t h ih w hw
    rw [splitText_cons _ _ _ h] at hw
    cases hs : splitText (s :: ss) t with
    | nil => exact absurd hs (splitText_ne_nil s ss t)
    | cons v vs =>
      rw [hs, consHead] at hw
      rcases List.mem_cons.mp hw with rfl | hw
      · intro hin
        rcases List.infix_cons_iff.mp hin with hpre | hin
        · -- the first piece is a prefix of the list that was split
          have hv : v <+: t := by
            have := prefix_intercalate (s :: ss) v vs
            rwa [← hs, intercalate_splitText] at this
          exact h (hpre.trans (List.cons_prefix_cons.mpr ⟨rfl, hv⟩))
        · exact ih v (by rw [hs]; exact List.mem_cons_self) hin
      · exact ih w (by rw [hs]; exact List.mem_cons_of_mem _ hw)

omit [DecidableEq α] in
/-- The rest of a separator may be put at the head of each later piece. -/
theorem intercalate_cons_sep (x : α) (s p : List α) (ps : List (List α)) :
    (x :: s).intercalate (p :: ps) = [x].intercalate (p :: ps.map (s ++ ·)) := by
  induction ps generalizing p with
  | nil => simp
  | cons p' ps ih =>
    rw [List.intercalate_cons_cons, ih, List.map_cons, List.intercalate_cons_cons]
    cases ps with
    | nil => simp
    | cons p'' ps =>
      rw [List.map_cons, List.intercalate_cons_cons, List.intercalate_cons_cons]
      simp

/-! ## At a single element -/

/-- `doubled`: the element before this list is the separator. -/
def splitSingleFrom (x : α) (doubled : Bool) : List α → List (List α)
  | [] => [[]]
  | c :: t =>
    if c = x ∧ doubled = false ∧ t.head? ≠ some x then [] :: splitSingleFrom x true t
    else consHead c (splitSingleFrom x (decide (c = x)) t)

/-- `text.split(/(?<!x)x(?!x)/)`: cut at every `x` with no `x` beside it. -/
def splitSingle (x : α) (t : List α) : List (List α) := splitSingleFrom x false t

theorem splitSingleFrom_ne_nil (x : α) (f : Bool) (t : List α) : splitSingleFrom x f t ≠ [] := by
  cases t with
  | nil => simp [splitSingleFrom]
  | cons c t =>
    rw [splitSingleFrom]
    split
    · exact List.cons_ne_nil _ _
    · exact consHead_ne_nil _ _

theorem splitSingleFrom_flag {x : α} {t : List α} (h : t.head? ≠ some x) (f : Bool) :
    splitSingleFrom x f t = splitSingle x t := by
  cases t with
  | nil => rfl
  | cons c t =>
    have hc : c ≠ x := fun e => h (by rw [e, List.head?_cons])
    simp [splitSingle, splitSingleFrom, hc]

theorem splitSingle_cons {x c : α} (h : c ≠ x) (t : List α) :
    splitSingle x (c :: t) = consHead c (splitSingle x t) := by
  simp [splitSingle, splitSingleFrom, h]

theorem splitSingle_of_not_mem {x : α} {t : List α} (h : x ∉ t) : splitSingle x t = [t] := by
  induction t with
  | nil => rfl
  | cons c t ih =>
    rw [List.mem_cons, not_or] at h
    rw [splitSingle_cons (fun e => h.1 e.symm), ih h.2, consHead]

theorem splitSingleFrom_append {x : α} {a b : List α} {f : Bool} (hf : a = [] → f = false)
    (ha : a.getLast? ≠ some x) (hb : b.head? ≠ some x) :
    splitSingleFrom x f (a ++ x :: b) = splitSingleFrom x f a ++ splitSingle x b := by
  induction a generalizing f with
  | nil =>
    have hsep : x = x ∧ false = false ∧ b.head? ≠ some x := ⟨rfl, rfl, hb⟩
    rw [hf rfl, List.nil_append]
    show (if _ then _ else _) = _
    rw [if_pos hsep, splitSingleFrom_flag hb]
    rfl
  | cons c a ih =>
    -- an `x` at the end of the piece is excluded, so the next element is the piece's own
    have hne : c = x → a ≠ [] := by
      rintro rfl rfl
      exact ha rfl
    have hlast : a ≠ [] → a.getLast? ≠ some x := fun h => by
      rwa [List.getLast?_cons_of_ne_nil h] at ha
    have hlast' : a.getLast? ≠ some x := by
      cases a with
      | nil => simp
      | cons d a => exact hlast (List.cons_ne_nil _ _)
    have hhead : c = x → (a ++ x :: b).head? = a.head? := fun e => by
      rw [List.head?_append_of_ne_nil _ (hne e)]
    rw [List.cons_append, splitSingleFrom, splitSingleFrom]
    by_cases hsep : c = x ∧ f = false ∧ a.head? ≠ some x
    · rw [if_pos ⟨hsep.1, hsep.2.1, by rw [hhead hsep.1]; exact hsep.2.2⟩, if_pos hsep,
        ih (fun h => absurd h (hne hsep.1)) hlast', List.cons_append]
    · have hsep' : ¬ (c = x ∧ f = false ∧ (a ++ x :: b).head? ≠ some x) := fun h =>
        hsep ⟨h.1, h.2.1, by rw [← hhead h.1]; exact h.2.2⟩
      rw [if_neg hsep', if_neg hsep,
        ih (fun h => decide_eq_false fun e => hne e h) hlast']
      cases hs : splitSingleFrom x (decide (c = x)) a with
      | nil => exact absurd hs (splitSingleFrom_ne_nil _ _ _)
      | cons w ws => rfl

theorem splitSingle_append {x : α} {a b : List α} (ha : a.getLast? ≠ some x)
    (hb : b.head? ≠ some x) :
    splitSingle x (a ++ x :: b) = splitSingle x a ++ splitSingle x b :=
  splitSingleFrom_append (fun _ => rfl) ha hb

theorem splitSingleFrom_glue {x : α} {q b : List α} (f : Bool) (hq : q.getLast? = some x)
    (hb : x ∉ b) :
    ∃ A l, x ∈ l ∧ splitSingleFrom x f (q ++ x :: b) = A ++ [l] ∧
      ∀ r, A <+: splitSingleFrom x f (q ++ r) := by
  induction q generalizing f with
  | nil => simp at hq
  | cons c q ih =>
    cases q with
    | nil =>
      have hc : c = x := by simpa using hq
      subst hc
      refine ⟨[], c :: c :: b, List.mem_cons_self, ?_, fun r => List.nil_prefix⟩
      have hb' : splitSingleFrom c true b = [b] := by
        rw [splitSingleFrom_flag, splitSingle_of_not_mem hb]
        intro h
        exact hb (List.mem_of_head? h)
      simp [splitSingleFrom, hb', consHead]
    | cons d q =>
      rw [List.getLast?_cons_of_ne_nil (List.cons_ne_nil _ _)] at hq
      by_cases hsep : c = x ∧ f = false ∧ some d ≠ some x
      · obtain ⟨A, l, hl, heq, hpre⟩ := ih true hq
        refine ⟨[] :: A, l, hl, ?_, fun r => ?_⟩
        · rw [List.cons_append, splitSingleFrom, if_pos (by simpa using hsep), heq,
            List.cons_append]
        · rw [List.cons_append, splitSingleFrom, if_pos (by simpa using hsep)]
          exact List.cons_prefix_cons.mpr ⟨rfl, hpre r⟩
      · obtain ⟨A, l, hl, heq, hpre⟩ := ih (decide (c = x)) hq
        have hstep : ∀ r, splitSingleFrom x f (c :: d :: q ++ r)
            = consHead c (splitSingleFrom x (decide (c = x)) (d :: q ++ r)) := fun r => by
          rw [List.cons_append, splitSingleFrom, if_neg (by simpa using hsep)]
        cases A with
        | nil =>
          refine ⟨[], c :: l, List.mem_cons_of_mem _ hl, ?_, fun r => List.nil_prefix⟩
          rw [hstep, heq]
          rfl
        | cons w A =>
          refine ⟨(c :: w) :: A, l, hl, ?_, fun r => ?_⟩
          · rw [hstep, heq]
            rfl
          · rw [hstep]
            obtain ⟨L, hL⟩ := hpre r
            rw [← hL]
            exact ⟨L, rfl⟩

/-- What follows a list that ends with the separator becomes part of its
last piece; the pieces before it are those of any continuation. -/
theorem splitSingle_glue {x : α} {q b : List α} (hq : q.getLast? = some x) (hb : x ∉ b) :
    ∃ A l, x ∈ l ∧ splitSingle x (q ++ x :: b) = A ++ [l] ∧
      ∀ r, A <+: splitSingle x (q ++ r) :=
  splitSingleFrom_glue false hq hb

/-- Every piece but the first stands behind a separator. -/
theorem infix_of_mem_tail_splitSingleFrom {x : α} {f : Bool} {t w : List α}
    (hw : w ∈ (splitSingleFrom x f t).tail) : x :: w <:+: t := by
  suffices h : ∀ w ws, splitSingleFrom x f t = w :: ws →
      w <+: t ∧ ∀ v ∈ ws, x :: v <:+: t by
    cases hs : splitSingleFrom x f t with
    | nil => exact absurd hs (splitSingleFrom_ne_nil _ _ _)
    | cons v vs => exact (h v vs hs).2 w (by rwa [hs] at hw)
  clear hw w
  induction t generalizing f with
  | nil =>
    intro w ws h
    obtain ⟨rfl, rfl⟩ := List.cons.inj h
    simp
  | cons c t ih =>
    intro w ws h
    rw [splitSingleFrom] at h
    split at h
    case isTrue hsep =>
      obtain ⟨rfl, rfl⟩ := List.cons.inj h
      refine ⟨List.nil_prefix, fun v hv => ?_⟩
      cases hs : splitSingleFrom x true t with
      | nil => exact absurd hs (splitSingleFrom_ne_nil _ _ _)
      | cons u us =>
        obtain ⟨hu, hus⟩ := ih u us hs
        rw [hs] at hv
        rcases List.mem_cons.mp hv with rfl | hv
        · rw [hsep.1]
          exact (List.cons_prefix_cons.mpr ⟨rfl, hu⟩).isInfix
        · exact List.infix_cons (hus v hv)
    case isFalse _ =>
      cases hs : splitSingleFrom x (decide (c = x)) t with
      | nil => exact absurd hs (splitSingleFrom_ne_nil _ _ _)
      | cons u us =>
        obtain ⟨hu, hus⟩ := ih u us hs
        rw [hs, consHead] at h
        obtain ⟨rfl, rfl⟩ := List.cons.inj h
        exact ⟨List.cons_prefix_cons.mpr ⟨rfl, hu⟩,
          fun v hv => List.infix_cons (hus v hv)⟩

theorem infix_of_mem_tail_splitSingle {x : α} {t w : List α}
    (hw : w ∈ (splitSingle x t).tail) : x :: w <:+: t :=
  infix_of_mem_tail_splitSingleFrom hw

/-- Pieces that neither end nor, from the second on, begin with the
separator are read one by one, up to the first that does. -/
theorem splitSingle_intercalate {x : α} {segs : List (List α)} {q : List α}
    {rest : List (List α)} (hlast : ∀ a ∈ segs, a.getLast? ≠ some x)
    (hhead : ∀ a ∈ (segs ++ q :: rest).tail, ∃ c, a.head? = some c ∧ c ≠ x) :
    splitSingle x ([x].intercalate (segs ++ q :: rest))
      = segs.flatMap (splitSingle x) ++ splitSingle x ([x].intercalate (q :: rest)) := by
  induction segs with
  | nil => rfl
  | cons a segs ih =>
    have hne : segs ++ q :: rest ≠ [] := by simp
    obtain ⟨b, bs, hb⟩ := List.exists_cons_of_ne_nil hne
    rw [List.cons_append, List.tail_cons] at hhead
    have hstart : ([x].intercalate (segs ++ q :: rest)).head? ≠ some x := by
      obtain ⟨c, hc, hcx⟩ := hhead b (by rw [hb]; exact List.mem_cons_self)
      cases b with
      | nil => simp at hc
      | cons d b =>
        obtain ⟨r, hr⟩ := prefix_intercalate [x] (d :: b) bs
        rw [hb, ← hr]
        rw [List.head?_cons, Option.some_inj] at hc
        simpa [hc] using hcx
    rw [List.cons_append, List.intercalate_cons_of_ne_nil hne, List.append_assoc,
      List.singleton_append, splitSingle_append (hlast a List.mem_cons_self) hstart,
      ih (fun b hb => hlast b (List.mem_cons_of_mem _ hb))
        (fun b hb => hhead b (List.mem_of_mem_tail hb)),
      List.flatMap_cons, List.append_assoc]

end Cadena.Base
