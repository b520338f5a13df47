import Mathlib.Data.List.Basic

/-!
# Nested texts

A tree with scalars at its leaves is written with brackets around the elements
of an array and braces around the entries of an object. The tree can be read
back from its text, whatever ends the text, when a scalar and a key can. Nothing
here depends on the program.
-/

namespace Cadena.Base

inductive Tree (κ ν : Type) where
  | leaf (v : ν)
  | arr (elems : List (Tree κ ν))
  | obj (entries : List (κ × Tree κ ν))

/-- How trees are written, and why scalars and keys can be read back; `Ends`
says of a text that a scalar in front of it is over. -/
structure TreeText (κ ν α : Type) where
  openArr : α
  closeArr : α
  openObj : α
  closeObj : α
  comma : α
  colon : α
  key : κ → List α
  leaf : ν → List α
  Ends : List α → Prop
  marks : openArr ≠ openObj ∧ comma ≠ closeArr ∧ comma ≠ closeObj ∧ openArr ≠ closeArr ∧ openObj ≠ closeArr
  ends : ∀ c r, c = comma ∨ c = closeArr ∨ c = closeObj → Ends (c :: r)
  key_inj : ∀ k l r r', key k ++ r = key l ++ r' → k = l ∧ r = r'
  key_close : ∀ k r r', key k ++ r ≠ closeObj :: r'
  leaf_inj : ∀ v w r r', Ends r → Ends r' → leaf v ++ r = leaf w ++ r' → v = w ∧ r = r'
  leaf_open : ∀ v c r r', c = openArr ∨ c = openObj ∨ c = closeArr → leaf v ++ r ≠ c :: r'

namespace TreeText

variable {κ ν α : Type} (T : TreeText κ ν α)

/-- Parts with commas between them. -/
def join : List (List α) → List α
  | [] => []
  | t :: ts => t ++ ts.flatMap (T.comma :: ·)

mutual

def write : Tree κ ν → List α
  | .leaf v => T.leaf v
  | .arr xs => T.openArr :: T.join (writeElems xs) ++ [T.closeArr]
  | .obj es => T.openObj :: T.join (writeEntries es) ++ [T.closeObj]

def writeElems : List (Tree κ ν) → List (List α)
  | [] => []
  | x :: xs => write x :: writeElems xs

def writeEntries : List (κ × Tree κ ν) → List (List α)
  | [] => []
  | (k, v) :: es => (T.key k ++ T.colon :: write v) :: writeEntries es

end

/-- The text of an entry. -/
def entry (e : κ × Tree κ ν) : List α := T.key e.1 ++ T.colon :: T.write e.2

theorem writeElems_eq (xs : List (Tree κ ν)) : T.writeElems xs = xs.map T.write := by
  induction xs with
  | nil => rfl
  | cons x xs ih => rw [writeElems, ih, List.map_cons]

theorem writeEntries_eq (es : List (κ × Tree κ ν)) : T.writeEntries es = es.map T.entry := by
  induction es with
  | nil => rfl
  | cons e es ih => rw [writeEntries, ih, List.map_cons, entry]

/-- The part can be read back from its text, with what follows it. -/
def Reads {β : Type} (text : β → List α) (x : β) : Prop :=
  ∀ y r r', T.Ends r → T.Ends r' → text x ++ r = text y ++ r' → x = y ∧ r = r'

section
variable {T} {β : Type} {text : β → List α} {close : α} {r r' : List α}

theorem ends_rest (hclose : ∀ r, T.Ends (close :: r)) (xs : List β) (r : List α) :
    T.Ends ((xs.map text).flatMap (T.comma :: ·) ++ close :: r) := by
  cases xs with
  | nil => exact hclose r
  | cons x xs => exact T.ends _ _ (.inl rfl)

theorem rest_inj (hcomma : T.comma ≠ close) (hclose : ∀ r, T.Ends (close :: r)) {xs ys : List β}
    (hreads : ∀ x ∈ xs, T.Reads text x)
    (h : (xs.map text).flatMap (T.comma :: ·) ++ close :: r = (ys.map text).flatMap (T.comma :: ·) ++ close :: r') :
    xs = ys ∧ r = r' := by
  induction xs generalizing ys with
  | nil =>
    cases ys with
    | nil => exact ⟨rfl, (List.cons.inj h).2⟩
    | cons y ys => exact absurd (List.cons.inj h).1.symm hcomma
  | cons x xs ih =>
    cases ys with
    | nil => exact absurd (List.cons.inj h).1 hcomma
    | cons y ys =>
      simp only [List.map_cons, List.flatMap_cons, List.cons_append, List.append_assoc, List.cons.injEq, true_and] at h
      obtain ⟨rfl, hrest⟩ := hreads x List.mem_cons_self y _ _ (ends_rest hclose xs r) (ends_rest hclose ys r') h
      obtain ⟨rfl, hr⟩ := ih (fun x hx => hreads x (List.mem_cons_of_mem _ hx)) hrest
      exact ⟨rfl, hr⟩

theorem join_inj (hcomma : T.comma ≠ close) (hclose : ∀ r, T.Ends (close :: r)) {xs ys : List β}
    (hreads : ∀ x ∈ xs, T.Reads text x) (hfirst : ∀ x r r', text x ++ r ≠ close :: r')
    (h : T.join (xs.map text) ++ close :: r = T.join (ys.map text) ++ close :: r') : xs = ys ∧ r = r' := by
  cases xs with
  | nil =>
    cases ys with
    | nil => exact ⟨rfl, (List.cons.inj h).2⟩
    | cons y ys =>
      rw [List.map_cons, join, List.append_assoc] at h
      exact absurd h.symm (hfirst y _ _)
  | cons x xs =>
    cases ys with
    | nil =>
      rw [List.map_cons, join, List.append_assoc] at h
      exact absurd h (hfirst x _ _)
    | cons y ys =>
      rw [List.map_cons, List.map_cons, join, join, List.append_assoc, List.append_assoc] at h
      obtain ⟨rfl, hrest⟩ := hreads x List.mem_cons_self y _ _ (ends_rest hclose xs r) (ends_rest hclose ys r') h
      obtain ⟨rfl, hr⟩ := rest_inj hcomma hclose (fun x hx => hreads x (List.mem_cons_of_mem _ hx)) hrest
      exact ⟨rfl, hr⟩

theorem reads_entry {e : κ × Tree κ ν} (h : T.Reads T.write e.2) : T.Reads T.entry e := by
  intro d r r' hr hr' heq
  rw [entry, entry, List.append_assoc, List.append_assoc] at heq
  obtain ⟨hkey, hrest⟩ := T.key_inj _ _ _ _ heq
  obtain ⟨hvalue, hr⟩ := h d.2 r r' hr hr' (List.cons.inj hrest).2
  exact ⟨Prod.ext hkey hvalue, hr⟩

theorem entry_close (e : κ × Tree κ ν) (r r' : List α) : T.entry e ++ r ≠ T.closeObj :: r' := by
  rw [entry, List.append_assoc]
  exact T.key_close _ _ _

theorem write_close (x : Tree κ ν) (r r' : List α) : T.write x ++ r ≠ T.closeArr :: r' := by
  cases x with
  | leaf v => exact T.leaf_open v _ r r' (.inr (.inr rfl))
  | arr xs => exact fun h => T.marks.2.2.2.1 (List.cons.inj h).1
  | obj es => exact fun h => T.marks.2.2.2.2 (List.cons.inj h).1

end

mutual

theorem reads : ∀ x : Tree κ ν, T.Reads T.write x
  | .leaf v, .leaf w, r, r', hr, hr', h => by
    obtain ⟨rfl, hrest⟩ := T.leaf_inj v w r r' hr hr' h
    exact ⟨rfl, hrest⟩
  | .leaf v, .arr _, _, _, _, _, h => absurd h (T.leaf_open v _ _ _ (.inl rfl))
  | .leaf v, .obj _, _, _, _, _, h => absurd h (T.leaf_open v _ _ _ (.inr (.inl rfl)))
  | .arr _, .leaf w, _, _, _, _, h => absurd h.symm (T.leaf_open w _ _ _ (.inl rfl))
  | .obj _, .leaf w, _, _, _, _, h => absurd h.symm (T.leaf_open w _ _ _ (.inr (.inl rfl)))
  | .arr _, .obj _, _, _, _, _, h => absurd (List.cons.inj h).1 T.marks.1
  | .obj _, .arr _, _, _, _, _, h => absurd (List.cons.inj h).1.symm T.marks.1
  | .arr xs, .arr ys, r, r', _, _, h => by
    simp only [write, writeElems_eq, List.cons_append, List.append_assoc, List.nil_append, List.cons.injEq, true_and] at h
    obtain ⟨rfl, hrest⟩ := join_inj T.marks.2.1 (fun r => T.ends _ r (.inr (.inl rfl))) (readsElems xs) write_close h
    exact ⟨rfl, hrest⟩
  | .obj es, .obj ds, r, r', _, _, h => by
    simp only [write, writeEntries_eq, List.cons_append, List.append_assoc, List.nil_append, List.cons.injEq, true_and] at h
    obtain ⟨rfl, hrest⟩ := join_inj T.marks.2.2.1 (fun r => T.ends _ r (.inr (.inr rfl)))
      (fun e he => reads_entry (readsEntries es e he)) entry_close h
    exact ⟨rfl, hrest⟩

theorem readsElems : ∀ xs : List (Tree κ ν), ∀ x ∈ xs, T.Reads T.write x
  | [], _, hx => absurd hx List.not_mem_nil
  | x :: xs, y, hy => by
    rcases List.mem_cons.mp hy with h | hy
    · rw [h]
      exact reads x
    · exact readsElems xs y hy

theorem readsEntries : ∀ es : List (κ × Tree κ ν), ∀ e ∈ es, T.Reads T.write e.2
  | [], _, he => absurd he List.not_mem_nil
  | (k, v) :: es, e, he => by
    rcases List.mem_cons.mp he with h | he
    · rw [h]
      exact reads v
    · exact readsEntries es e he

end

end TreeText

end Cadena.Base
