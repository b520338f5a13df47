import Mathlib.Data.List.Nodup

/-!
# Messages that are sent before they are recorded

A worker takes up a key that has no row, may send a message for it, and then
records the key with whether a message went out. In a `Move` it does so in this
order; it may also leave a key for which nothing was sent, but loses none between
its message and its row. Then no key gets a second message and every row tells
the truth.
-/

namespace Cadena.Base

@[ext] structure SendLedger (κ : Type) where
  sent : List κ
  rows : List (κ × Bool)
  work : Option (κ × Bool)

namespace SendLedger

variable {κ : Type}

def HasRow (r : SendLedger κ) (k : κ) : Prop := ∃ b, (k, b) ∈ r.rows

inductive Move (r : SendLedger κ) : SendLedger κ → Prop where
  | stay : Move r r
  | take (k : κ) (hfree : r.work = none) (hnew : ¬ r.HasRow k) :
      Move r { r with work := some (k, false) }
  | send (k : κ) (hwork : r.work = some (k, false)) :
      Move r { r with sent := r.sent ++ [k], work := some (k, true) }
  | record (k : κ) (b : Bool) (hwork : r.work = some (k, b)) :
      Move r { r with rows := r.rows ++ [(k, b)], work := none }
  | leave (k : κ) (hwork : r.work = some (k, false)) : Move r { r with work := none }

structure Sound (r : SendLedger κ) : Prop where
  once : r.sent.Nodup
  unique : (r.rows.map (·.1)).Nodup
  recorded : ∀ k ∈ r.sent, (k, true) ∈ r.rows ∨ r.work = some (k, true)
  truthful : ∀ k, (k, true) ∈ r.rows → k ∈ r.sent
  unrecorded : ∀ k b, r.work = some (k, b) → ¬ r.HasRow k
  sending : ∀ k, r.work = some (k, true) → k ∈ r.sent

variable {r r' : SendLedger κ}

theorem Sound.unsent (h : Sound r) {k : κ} (hwork : r.work = some (k, false)) : k ∉ r.sent := by
  intro hk
  rcases h.recorded k hk with hrow | hsent
  · exact h.unrecorded k false hwork ⟨true, hrow⟩
  · rw [hwork] at hsent
    cases hsent

theorem Sound.take (h : Sound r) {k : κ} (hfree : r.work = none) (hnew : ¬ r.HasRow k) :
    Sound { r with work := some (k, false) } where
  once := h.once
  unique := h.unique
  recorded l hl := .inl ((h.recorded l hl).resolve_right (by simp [hfree]))
  truthful := h.truthful
  unrecorded l b hwork := by
    obtain ⟨rfl, -⟩ := Prod.mk.inj (Option.some.inj hwork)
    exact hnew
  sending l hwork := by cases hwork

theorem Sound.send (h : Sound r) {k : κ} (hwork : r.work = some (k, false)) :
    Sound { r with sent := r.sent ++ [k], work := some (k, true) } where
  once := by
    refine List.nodup_append.mpr ⟨h.once, List.nodup_singleton k, ?_⟩
    rintro l hl _ hk rfl
    exact h.unsent hwork (List.mem_singleton.mp hk ▸ hl)
  unique := h.unique
  recorded l hl := by
    rcases List.mem_append.mp hl with hl | hl
    · exact .inl ((h.recorded l hl).resolve_right (by simp [hwork]))
    · exact .inr (by rw [List.mem_singleton.mp hl])
  truthful l hl := List.mem_append_left _ (h.truthful l hl)
  unrecorded l b hl := by
    obtain ⟨rfl, -⟩ := Prod.mk.inj (Option.some.inj hl)
    exact h.unrecorded k false hwork
  sending l hl := by
    obtain ⟨rfl, -⟩ := Prod.mk.inj (Option.some.inj hl)
    exact List.mem_append_right _ (List.mem_singleton.mpr rfl)

theorem Sound.record (h : Sound r) {k : κ} {b : Bool} (hwork : r.work = some (k, b)) :
    Sound { r with rows := r.rows ++ [(k, b)], work := none } where
  once := h.once
  unique := by
    rw [List.map_append, List.map_singleton]
    refine List.nodup_append.mpr ⟨h.unique, List.nodup_singleton k, ?_⟩
    rintro l hl _ hk rfl
    obtain ⟨⟨l', b'⟩, hmem, rfl⟩ := List.mem_map.mp hl
    obtain rfl : l' = k := List.mem_singleton.mp hk
    exact h.unrecorded l' b hwork ⟨b', hmem⟩
  recorded l hl := by
    rcases h.recorded l hl with hrow | hwork'
    · exact .inl (List.mem_append_left _ hrow)
    · rw [hwork] at hwork'
      rw [Option.some.inj hwork']
      exact .inl (List.mem_append_right _ (List.mem_singleton.mpr rfl))
  truthful l hl := by
    rcases List.mem_append.mp hl with hl | hl
    · exact h.truthful l hl
    · rw [← List.mem_singleton.mp hl] at hwork
      exact h.sending l hwork
  unrecorded l b hl := by cases hl
  sending l hl := by cases hl

theorem Sound.leave (h : Sound r) {k : κ} (hwork : r.work = some (k, false)) :
    Sound { r with work := none } where
  once := h.once
  unique := h.unique
  recorded l hl := .inl ((h.recorded l hl).resolve_right (by simp [hwork]))
  truthful := h.truthful
  unrecorded l b hl := by cases hl
  sending l hl := by cases hl

theorem Sound.move (h : Sound r) (hmove : Move r r') : Sound r' := by
  cases hmove with
  | stay => exact h
  | take k hfree hnew => exact h.take hfree hnew
  | send k hwork => exact h.send hwork
  | record k b hwork => exact h.record hwork
  | leave k hwork => exact h.leave hwork

theorem HasRow.move {k : κ} (h : r.HasRow k) (hmove : Move r r') : r'.HasRow k := by
  obtain ⟨b, hrow⟩ := h
  cases hmove with
  | stay => exact ⟨b, hrow⟩
  | take => exact ⟨b, hrow⟩
  | send => exact ⟨b, hrow⟩
  | record => exact ⟨b, List.mem_append_left _ hrow⟩
  | leave => exact ⟨b, hrow⟩

end SendLedger

end Cadena.Base
