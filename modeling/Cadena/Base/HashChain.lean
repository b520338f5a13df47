import Mathlib.Data.List.Induction

/-!
# Chains of hashed records

A link names the hash of the link before it and carries the hash of that
name and its own body. When the hash has no collisions, the hash of one
link determines the link and all links before it.
-/

namespace Cadena.Base

structure Link (δ ε : Type) where
  previous : Option δ
  hash : δ
  body : ε
  deriving DecidableEq

namespace HashChain

variable {δ ε : Type} (H : Option δ → ε → δ)

/-- The hash the next link names, when the chain starts after `last`. -/
def headFrom : Option δ → List (Link δ ε) → Option δ
  | last, [] => last
  | _, l :: ls => headFrom (some l.hash) ls

/-- Every link names the hash of its predecessor, and its own hash is that
of its name and body. -/
def Chained : Option δ → List (Link δ ε) → Prop
  | _, [] => True
  | last, l :: ls =>
    l.previous = last ∧ l.hash = H l.previous l.body ∧ Chained (some l.hash) ls

theorem headFrom_append (last : Option δ) (ls ms : List (Link δ ε)) :
    headFrom last (ls ++ ms) = headFrom (headFrom last ls) ms := by
  induction ls generalizing last with
  | nil => rfl
  | cons l ls ih => exact ih (some l.hash)

@[simp] theorem headFrom_concat (last : Option δ) (ls : List (Link δ ε)) (l : Link δ ε) :
    headFrom last (ls ++ [l]) = some l.hash := by
  rw [headFrom_append]
  rfl

theorem exists_concat {α : Type} {ls : List α} (h : ls ≠ []) : ∃ ms l, ls = ms ++ [l] :=
  ⟨ls.dropLast, ls.getLast h, (List.dropLast_concat_getLast h).symm⟩

variable {ls ms : List (Link δ ε)} {last : Option δ} {l : Link δ ε}

theorem headFrom_ne_none (h : ls ≠ []) (last : Option δ) : headFrom last ls ≠ none := by
  intro hnone
  obtain ⟨ms, l, rfl⟩ := exists_concat h
  simp at hnone

theorem chained_append : Chained H last (ls ++ ms) ↔ Chained H last ls ∧ Chained H (headFrom last ls) ms := by
  induction ls generalizing last with
  | nil => simp [Chained, headFrom]
  | cons l ls ih => simp only [List.cons_append, Chained, headFrom, ih, and_assoc]

theorem chained_concat : Chained H last (ls ++ [l]) ↔
      Chained H last ls ∧ l.previous = headFrom last ls ∧ l.hash = H l.previous l.body := by
  rw [chained_append]
  simp [Chained]

variable {H}

theorem Chained.take (h : Chained H last ls) (n : Nat) : Chained H last (ls.take n) := by
  rw [← List.take_append_drop n ls] at h
  exact ((chained_append H).mp h).1

/-- The names a link can carry: none, or a hash. -/
def Produced (H : Option δ → ε → δ) (name : Option δ) : Prop :=
  ∀ d, name = some d → ∃ p b, d = H p b

theorem Chained.produced (h : Chained H none ls) : Produced H (headFrom none ls) := by
  intro d hd
  have hne : ls ≠ [] := by
    intro hnil
    rw [hnil] at hd
    cases hd
  obtain ⟨ms, l, rfl⟩ := exists_concat hne
  rw [headFrom_concat] at hd
  exact ⟨_, _, Option.some.inj hd ▸ ((chained_concat H).mp h).2.2⟩

theorem Chained.previous_produced (h : Chained H none ls) (hl : l ∈ ls) : Produced H l.previous := by
  obtain ⟨ms, ns, rfl⟩ := List.append_of_mem hl
  obtain ⟨hms, hl, -⟩ := (chained_append H).mp h
  exact hl ▸ hms.produced

theorem Chained.hash_eq (h : Chained H last ls) (hl : l ∈ ls) : l.hash = H l.previous l.body := by
  obtain ⟨ms, ns, rfl⟩ := List.append_of_mem hl
  exact ((chained_append H).mp h).2.2.1

/-- What the hash is taken of can be read back from it. -/
def Binding (H : Option δ → ε → δ) : Prop :=
  ∀ {p q : Option δ} {b c : ε}, Produced H p → Produced H q → H p b = H q c → p = q ∧ b = c

/-- **A hash commits to everything before it**: two chains that end in the
same hash are the same chain. -/
theorem Chained.eq_of_hash (hH : Binding H) {m : Link δ ε}
    (hls : Chained H none (ls ++ [l])) (hms : Chained H none (ms ++ [m]))
    (hhash : l.hash = m.hash) : ls ++ [l] = ms ++ [m] := by
  induction ls using List.reverseRecOn generalizing ms l m with
  | nil =>
    obtain ⟨hla, hl, hlh⟩ := (chained_concat H).mp hls
    obtain ⟨hmc, hm, hmh⟩ := (chained_concat H).mp hms
    obtain ⟨hp, hb⟩ := hH (hl ▸ hla.produced) (hm ▸ hmc.produced)
      (hlh.symm.trans (hhash.trans hmh))
    have hms' : ms = [] := by
      by_contra hne
      exact headFrom_ne_none hne none (hm.symm.trans (hp.symm.trans hl))
    subst hms'
    cases l
    cases m
    simp_all
  | append_singleton ls a ih =>
    obtain ⟨hla, hl, hlh⟩ := (chained_concat H).mp hls
    obtain ⟨hmc, hm, hmh⟩ := (chained_concat H).mp hms
    obtain ⟨hp, hb⟩ := hH (hl ▸ hla.produced) (hm ▸ hmc.produced)
      (hlh.symm.trans (hhash.trans hmh))
    -- the second chain has a predecessor too, and the two hashes agree
    have hne : ms ≠ [] := by
      intro hnil
      subst hnil
      rw [hl, hm, headFrom_concat] at hp
      cases hp
    obtain ⟨ms', b, rfl⟩ := exists_concat hne
    have hab : a.hash = b.hash := by
      rw [hl, hm, headFrom_concat, headFrom_concat] at hp
      exact Option.some.inj hp
    have hinit : ls ++ [a] = ms' ++ [b] := ih hla hmc hab
    have hlm : l = m := by
      cases l
      cases m
      simp_all
    rw [hinit, hlm]

theorem Chained.agree (hH : Binding H) (hls : Chained H none ls)
    (hms : Chained H none ms) {i k : Nat} (hi : i < ls.length) (hk : k < ms.length)
    (hhash : ls[i].hash = ms[k].hash) : i = k ∧ ls.take (i + 1) = ms.take (k + 1) := by
  have htake : ls.take (i + 1) = ms.take (k + 1) := by
    have hl := hls.take (i + 1)
    have hm := hms.take (k + 1)
    rw [List.take_succ_eq_append_getElem hi] at hl ⊢
    rw [List.take_succ_eq_append_getElem hk] at hm ⊢
    exact Chained.eq_of_hash hH hl hm hhash
  have hlen := congrArg List.length htake
  simp only [List.length_take] at hlen
  exact ⟨by omega, htake⟩

theorem Chained.previous_ne_head (hH : Binding H)
    (hls : Chained H none ls) (hl : l ∈ ls) : l.previous ≠ headFrom none ls := by
  intro heq
  obtain ⟨i, hi, rfl⟩ := List.getElem_of_mem hl
  -- the links before `l` end in the head as well
  have hcut : Chained H none (ls.take i ++ [ls[i]]) := by
    rw [← List.take_succ_eq_append_getElem hi]
    exact hls.take _
  have hprev := ((chained_concat H).mp hcut).2.1
  have hne : ls ≠ [] := List.ne_nil_of_mem hl
  obtain ⟨ms, b, hms⟩ := exists_concat hne
  have hhead : headFrom none ls = some b.hash := by rw [hms, headFrom_concat]
  have hpre : ls.take i ≠ [] := by
    intro hnil
    rw [hnil, heq, hhead] at hprev
    cases hprev
  obtain ⟨ns, c, hns⟩ := exists_concat hpre
  have hcb : c.hash = b.hash := by
    rw [hns, headFrom_concat, heq, hhead] at hprev
    exact (Option.some.inj hprev).symm
  have hwhole : ns ++ [c] = ms ++ [b] := by
    refine Chained.eq_of_hash hH ?_ ?_ hcb
    · exact hns ▸ hls.take i
    · exact hms ▸ hls
  have hlen := congrArg List.length (hns.trans (hwhole.trans hms.symm))
  simp only [List.length_take] at hlen
  omega

end HashChain

end Cadena.Base
