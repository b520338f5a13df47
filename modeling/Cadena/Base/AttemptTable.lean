import Cadena.Base.AttemptLedger
import Cadena.Base.Table

/-!
# Attempts counted in a table

The rows of a table with a counter and a claim, the calls at work on them and
the book of their claims make a ledger. The statements of a queue are its moves.
-/

namespace Cadena.Base

/-- What a step means for the claims. -/
inductive ClaimNote (κ ι : Type) where
  | nothing
  /-- The row is made or reset. -/
  | fresh (k : κ)
  /-- A claim that finds no row. -/
  | drawn (c : ι)
  | claimed (k : κ) (c : ι) (lost : Option ι)
  | lapsed (lost : List ι)
  | ended (c : ι) (e : ClaimEnding)

def ClaimNote.draws {κ ι : Type} : ClaimNote κ ι → Option ι
  | .drawn c | .claimed _ c _ => some c
  | _ => none

namespace ClaimBook

variable {κ ι : Type} [DecidableEq κ] [DecidableEq ι]

def note (B : ClaimBook κ ι) : ClaimNote κ ι → ClaimBook κ ι
  | .nothing => B
  | .fresh k => { B with claims := setAt B.claims k [] }
  | .drawn c => { B with drawn := c :: B.drawn }
  | .claimed k c lost =>
    { claims := setAt B.claims k (B.claims k ++ [c])
      ended := fun d => if d ∈ lost.toList then some .lapsed else B.ended d
      drawn := c :: B.drawn }
  | .lapsed lost => { B with ended := fun d => if d ∈ lost then some .lapsed else B.ended d }
  | .ended c e => { B with ended := setAt B.ended c (some e) }

def empty : ClaimBook κ ι := ⟨fun _ => [], fun _ => none, []⟩

/-- The system with the book of its claims. A claim id is drawn once. -/
def keep {σ α : Type} (M : System σ α) (noted : σ → α → ClaimNote κ ι) : System (σ × ClaimBook κ ι) α where
  step s a :=
    if (noted s.1 a).draws.any (· ∈ s.2.drawn) then none
    else (M.step s.1 a).map fun t => (t, s.2.note (noted s.1 a))

theorem keep_step {σ α : Type} {M : System σ α} {noted : σ → α → ClaimNote κ ι} {s t : σ × ClaimBook κ ι} {a : α}
    (hstep : (keep M noted).step s a = some t) :
    (∀ c, (noted s.1 a).draws = some c → c ∉ s.2.drawn) ∧ M.step s.1 a = some t.1 ∧
      t.2 = s.2.note (noted s.1 a) := by
  simp only [keep] at hstep
  split at hstep
  · cases hstep
  · rename_i hnew
    obtain ⟨u, hu, rfl⟩ := Option.map_eq_some_iff.mp hstep
    refine ⟨fun c hc hmem => hnew ?_, hu, rfl⟩
    rw [hc]
    exact decide_eq_true hmem

end ClaimBook

/-- The columns of a row that tell its claim. -/
structure ClaimColumns (ρ κ ι : Type) where
  key : ρ → κ
  attempts : ρ → Nat
  holder : ρ → Option ι
  unfinished : ρ → Bool

namespace ClaimColumns

open ClaimBook

variable {ρ κ ι ω : Type} [DecidableEq κ] (C : ClaimColumns ρ κ ι)

def row (rows : List ρ) (k : κ) : Option ρ := rows.find? fun r => C.key r = k

/-- The ledger of rows that are known by their key. -/
def ofRows (row : κ → Option ρ) (calls : ω → Option (ClaimAtWork κ ι)) (B : ClaimBook κ ι) :
    AttemptLedger κ ι ω where
  toClaimBook := B
  attempts k := ((row k).map C.attempts).getD 0
  holder k := (row k).bind C.holder
  unfinished k := (row k).any C.unfinished
  calls := calls

def ledger (rows : List ρ) (calls : ω → Option (ClaimAtWork κ ι)) (B : ClaimBook κ ι) : AttemptLedger κ ι ω :=
  C.ofRows (C.row rows) calls B

variable {C} {rows : List ρ} {calls : ω → Option (ClaimAtWork κ ι)} {B : ClaimBook κ ι}

theorem row_mem {k : κ} {r : ρ} (h : C.row rows k = some r) : r ∈ rows ∧ C.key r = k :=
  ⟨List.mem_of_find?_eq_some h, by simpa using List.find?_some h⟩

theorem row_of_mem (hnd : (rows.map C.key).Nodup) {r : ρ} (hr : r ∈ rows) : C.row rows (C.key r) = some r := by
  cases hrow : C.row rows (C.key r) with
  | none => exact absurd (List.find?_eq_none.mp hrow r hr) (by simp)
  | some q =>
    obtain ⟨hq, hkey⟩ := row_mem hrow
    rw [Table.eq_of_key hnd hq hr hkey]

theorem row_none {k : κ} (h : ∀ r ∈ rows, C.key r ≠ k) : C.row rows k = none :=
  List.find?_eq_none.mpr fun r hr => by simpa using h r hr

variable {f : ρ → ρ} {p : ρ → Bool}

theorem row_update (hkey : ∀ r, C.key (f r) = C.key r) (k : κ) :
    C.row (Table.update p f rows) k = (C.row rows k).map fun r => if p r then f r else r := by
  rw [row, row, Table.update, List.find?_map]
  congr 2
  funext r
  simp only [Function.comp_apply]
  split
  · rw [hkey]
  · rfl

theorem row_append {k : κ} {r : ρ} (hnew : ∀ q ∈ rows, C.key q ≠ C.key r) :
    C.row (rows ++ [r]) k = if k = C.key r then some r else C.row rows k := by
  rw [row, List.find?_append]
  by_cases hk : k = C.key r
  · have hnone : rows.find? (fun q => C.key q = k) = none := row_none fun q hq => hk ▸ hnew q hq
    rw [hnone, if_pos hk]
    simp [hk]
  · have hne : C.key r ≠ k := fun heq => hk heq.symm
    simp [row, hk, hne]

theorem row_update_one {k : κ} {r : ρ} (hkey : ∀ r, C.key (f r) = C.key r)
    (hrow : C.row rows k = some r) (hp : p r = true) (honly : ∀ q ∈ rows, p q = true → C.key q = k) :
    C.row (Table.update p f rows) = setAt (C.row rows) k (some (f r)) := by
  funext l
  rw [row_update hkey]
  by_cases hl : l = k
  · subst hl
    rw [setAt_same, hrow, Option.map_some, if_pos hp]
  · rw [setAt_other _ _ hl]
    cases hq : C.row rows l with
    | none => rfl
    | some q =>
      obtain ⟨hmem, hql⟩ := row_mem hq
      have hnot : p q = false := Bool.eq_false_iff.mpr fun hpq => hl (hql.symm.trans (honly q hmem hpq))
      rw [Option.map_some, if_neg (by simp [hnot])]

/-! ## Statements -/

variable {row : κ → Option ρ}

theorem ledger_quiet (hkey : ∀ r, C.key (f r) = C.key r)
    (hsame : ∀ r, C.attempts (f r) = C.attempts r ∧ C.holder (f r) = C.holder r ∧
      C.unfinished (f r) = C.unfinished r) :
    C.ledger (Table.update p f rows) calls B = C.ledger rows calls B := by
  have hcell : ∀ r, C.attempts (if p r then f r else r) = C.attempts r ∧
      C.holder (if p r then f r else r) = C.holder r ∧ C.unfinished (if p r then f r else r) = C.unfinished r := by
    intro r
    split
    · exact hsame r
    · exact ⟨rfl, rfl, rfl⟩
  simp only [ledger, ofRows, AttemptLedger.mk.injEq, true_and, and_true]
  refine ⟨?_, ?_, ?_⟩ <;> funext k <;> rw [row_update hkey] <;> cases C.row rows k with
  | none => rfl
  | some r => simp [(hcell r).1, (hcell r).2.1, (hcell r).2.2]

section
variable {k : κ} {c : ι} {r r' : ρ} {w : ω}

theorem ofRows_setAt (row : κ → Option ρ) (calls : ω → Option (ClaimAtWork κ ι)) (B : ClaimBook κ ι) (k : κ) (r : ρ) :
    C.ofRows (setAt row k (some r)) calls B = { C.ofRows row calls B with
      attempts := setAt (C.ofRows row calls B).attempts k (C.attempts r)
      holder := setAt (C.ofRows row calls B).holder k (C.holder r)
      unfinished := setAt (C.ofRows row calls B).unfinished k (C.unfinished r) } := by
  have hattempts := setAt_comp (fun o : Option ρ => (o.map C.attempts).getD 0) row k (some r)
  have hholder := setAt_comp (fun o : Option ρ => o.bind C.holder) row k (some r)
  have hopen := setAt_comp (fun o : Option ρ => o.any C.unfinished) row k (some r)
  simp only [ofRows, hattempts, hholder, hopen, Option.map_some, Option.getD_some, Option.bind_some, Option.any_some]

theorem ofRows_close (hrow : row k = some r) (hattempts : C.attempts r' = C.attempts r)
    (hholder : C.holder r' = C.holder r) (hopen : C.unfinished r' = false) :
    C.ofRows (setAt row k (some r')) calls B = (C.ofRows row calls B).close k := by
  have hold : (C.ofRows row calls B).attempts k = C.attempts r ∧ (C.ofRows row calls B).holder k = C.holder r := by
    simp [ofRows, hrow]
  rw [ofRows_setAt, hattempts, hholder, hopen, ← hold.1, ← hold.2, setAt_self, setAt_self, AttemptLedger.close]

variable [DecidableEq ι]

theorem ofRows_reset (hfree : (row k).bind C.holder = none) (hattempts : C.attempts r' = 0)
    (hholder : C.holder r' = none) (hopen : C.unfinished r' = true) :
    C.ofRows (setAt row k (some r')) calls (B.note (.fresh k)) = (C.ofRows row calls B).reset k := by
  have hold : (C.ofRows row calls (B.note (.fresh k))).holder k = none := hfree
  rw [ofRows_setAt, hattempts, hholder, hopen, ← hold, setAt_self, AttemptLedger.reset]
  rfl

variable [DecidableEq ω]

theorem ofRows_claim (hrow : row k = some r) (hattempts : C.attempts r' = C.attempts r + 1)
    (hholder : C.holder r' = some c) (hopen : C.unfinished r' = true) :
    C.ofRows (setAt row k (some r')) (setAt calls w (some ⟨k, c, C.attempts r'⟩))
        (B.note (.claimed k c (C.holder r))) =
      ((C.ofRows row calls B).lapse (fun l => decide (l = k)) (C.holder r).toList).claim w k c := by
  have hold : (C.ofRows row calls B).attempts k = C.attempts r := by simp [ofRows, hrow]
  rw [ofRows_setAt, hattempts, hholder, hopen, ← hold]
  apply AttemptLedger.ext
  case holder =>
    funext l
    by_cases hl : l = k
    · subst hl
      simp [AttemptLedger.claim]
    · simp [ofRows, AttemptLedger.claim, AttemptLedger.lapse, setAt_other _ _ hl, hl]
  all_goals rfl

theorem ofRows_settle {e : ClaimEnding} (hrow : row k = some r)
    (hattempts : C.attempts r' = if e = .turnedAway then C.attempts r - 1 else C.attempts r)
    (hholder : C.holder r' = none) (hopen : C.unfinished r' = decide (e ≠ .done)) :
    C.ofRows (setAt row k (some r')) (setAt calls w none) (B.note (.ended c e)) =
      (C.ofRows row calls B).settle w k c e := by
  have hold : (C.ofRows row calls B).attempts k = C.attempts r := by simp [ofRows, hrow]
  rw [ofRows_setAt, hattempts, hholder, hopen]
  apply AttemptLedger.ext
  case attempts =>
    show setAt _ k _ = if e = .turnedAway then setAt _ k _ else _
    rw [← hold]
    split
    · rfl
    · exact setAt_self _ k
  all_goals rfl

end

/-- The claims of the rows that pass a test. -/
def claimsWhere (C : ClaimColumns ρ κ ι) (p : ρ → Bool) (rows : List ρ) : List ι := (rows.filter p).filterMap C.holder

theorem mem_claimsWhere (hnd : (rows.map C.key).Nodup) {c : ι} :
    c ∈ C.claimsWhere p rows ↔ ∃ k, (C.row rows k).any p = true ∧ (C.row rows k).bind C.holder = some c := by
  simp only [claimsWhere, List.mem_filterMap, List.mem_filter]
  constructor
  · rintro ⟨r, ⟨hr, hp⟩, hc⟩
    refine ⟨C.key r, ?_, ?_⟩ <;> rw [row_of_mem hnd hr]
    · exact hp
    · exact hc
  · rintro ⟨k, hp, hc⟩
    cases hrow : C.row rows k with
    | none =>
      rw [hrow] at hc
      cases hc
    | some r =>
      rw [hrow] at hp hc
      exact ⟨r, ⟨(row_mem hrow).1, hp⟩, hc⟩

theorem ledger_lapse [DecidableEq ι] (hkey : ∀ r, C.key (f r) = C.key r)
    (hattempts : ∀ r, C.attempts (f r) = C.attempts r) (hholder : ∀ r, C.holder (f r) = none)
    (hopen : ∀ r ∈ rows, p r = true → C.unfinished (f r) = C.unfinished r) :
    C.ledger (Table.update p f rows) calls (B.note (.lapsed (C.claimsWhere p rows))) =
      (C.ledger rows calls B).lapse (fun k => (C.row rows k).any p) (C.claimsWhere p rows) := by
  have hcell : ∀ o : Option ρ, (∀ r, o = some r → r ∈ rows) →
      ((o.map fun r => if p r then f r else r).map C.attempts = o.map C.attempts ∧
        (o.map fun r => if p r then f r else r).any C.unfinished = o.any C.unfinished) ∧
      (o.map fun r => if p r then f r else r).bind C.holder = if o.any p then none else o.bind C.holder := by
    intro o hmem
    cases o with
    | none => exact ⟨⟨rfl, rfl⟩, rfl⟩
    | some r => by_cases hp : p r = true <;> simp [hp, hattempts, hholder, hopen r (hmem r rfl)]
  have hrow : ∀ k r, C.row rows k = some r → r ∈ rows := fun k r h => (row_mem h).1
  apply AttemptLedger.ext
  case attempts =>
    funext k
    show ((C.row (Table.update p f rows) k).map C.attempts).getD 0 = _
    rw [row_update hkey, (hcell _ (hrow k)).1.1]
    rfl
  case holder =>
    funext k
    show (C.row (Table.update p f rows) k).bind C.holder = _
    rw [row_update hkey, (hcell _ (hrow k)).2]
    rfl
  case unfinished =>
    funext k
    show (C.row (Table.update p f rows) k).any C.unfinished = _
    rw [row_update hkey, (hcell _ (hrow k)).1.2]
    rfl
  all_goals rfl

/-! ## Moves -/

open AttemptLedger

theorem sound_empty : (C.ledger [] (fun _ => none) ClaimBook.empty : AttemptLedger κ ι ω).Sound where
  once _ := List.nodup_nil
  known _ _ h := nomatch h
  unknown _ _ := rfl
  apart _ _ _ h := nomatch h
  held _ _ h := nomatch h
  open_ _ _ h := nomatch h
  pending _ _ _ h := nomatch h
  working _ _ h := nomatch h
  alone _ _ _ _ h := nomatch h

theorem counted_empty : (C.ledger [] (fun _ => none) ClaimBook.empty : AttemptLedger κ ι ω).Counted := fun _ => rfl

section
variable [DecidableEq ι] [DecidableEq ω] {p : ρ → Bool} {f : ρ → ρ} {w : ω} {c : ι} {r : ρ}

theorem move_claim (hnd : (rows.map C.key).Nodup) (hkey : ∀ r, C.key (f r) = C.key r)
    (hfind : rows.find? p = some r) (honly : ∀ q ∈ rows, p q = true → C.key q = C.key r) (hfree : calls w = none)
    (hnew : c ∉ B.drawn) (hopen : C.unfinished r = true) (hattempts : C.attempts (f r) = C.attempts r + 1)
    (hholder : C.holder (f r) = some c) (hopen' : C.unfinished (f r) = true) :
    Move (C.ledger rows calls B) (C.ledger (Table.update p f rows)
      (setAt calls w (some ⟨C.key r, c, C.attempts (f r)⟩)) (B.note (.claimed (C.key r) c (C.holder r)))) := by
  have hrow := row_of_mem hnd (List.mem_of_find?_eq_some hfind)
  rw [ledger, ledger, row_update_one hkey hrow (List.find?_some hfind) honly,
    ofRows_claim hrow hattempts hholder hopen']
  refine .claim w (C.key r) c _ ?_ hfree hnew ?_
  · intro d
    simp [ofRows, hrow]
  · simp [ofRows, hrow, hopen]

theorem move_drawn (hfind : rows.find? p = none) :
    Move (C.ledger rows calls B) (C.ledger (Table.update p f rows) calls (B.note (.drawn c)) : AttemptLedger κ ι ω) := by
  rw [Table.update_none fun r hr => by simpa using List.find?_eq_none.mp hfind r hr]
  exact .draw c

/-- What the report of a call means for its claim. It is the last word of a
worker that was turned away, and of any other worker that has its claim still. -/
def reportNote (found : Bool) (c : ι) (e : ClaimEnding) : ClaimNote κ ι :=
  if found ∨ e = .turnedAway then .ended c e else .nothing

theorem step_report (hnd : (rows.map C.key).Nodup) {x : ClaimAtWork κ ι} {e : ClaimEnding} {inTime : Prop}
    (hcall : calls w = some x) (hp : ∀ r ∈ rows, p r = true ↔ C.key r = x.row ∧ C.holder r = some x.claim)
    (he : e ≠ .lapsed) (hkey : ∀ r, C.key (f r) = C.key r)
    (hattempts : ∀ r, C.attempts (f r) = if e = .turnedAway then C.attempts r - 1 else C.attempts r)
    (hholder : ∀ r, C.holder (f r) = none) (hopen : ∀ r, C.unfinished (f r) = decide (e ≠ .done))
    (htime : inTime ↔ (e = .turnedAway → x.claim ∈ B.claims x.row → rows.any p = true)) :
    Step inTime (C.ledger rows calls B) (C.ledger (Table.update p f rows) (setAt calls w none)
      (B.note (reportNote (rows.any p) x.claim e))) := by
  cases hany : rows.any p with
  | true =>
    obtain ⟨r, hr, hpr⟩ := List.any_eq_true.mp hany
    obtain ⟨hrow, hheld⟩ := (hp r hr).mp hpr
    have hk : C.row rows x.row = some r := hrow ▸ row_of_mem hnd hr
    have honly : ∀ q ∈ rows, p q = true → C.key q = x.row := fun q hq hpq => ((hp q hq).mp hpq).1
    refine .move (htime.mpr fun _ _ => hany) ?_
    rw [reportNote, if_pos (.inl rfl), ledger, ledger, row_update_one hkey hk hpr honly,
      ofRows_settle hk (hattempts r) (hholder r) (hopen r)]
    refine .settle w x.row x.claim x.attempts e hcall ?_ he
    simp [ofRows, hk, hheld]
  | false =>
    have hnone : ∀ r ∈ rows, p r = false := fun r hr => by simpa using List.any_eq_false.mp hany r hr
    rw [Table.update_none hnone]
    by_cases hshed : e = .turnedAway
    · subst hshed
      rw [reportNote, if_pos (.inr rfl)]
      refine .turnedAway w x hcall ?_ ?_
      · intro hheld
        obtain ⟨r, hrow, hr⟩ := Option.bind_eq_some_iff.mp hheld
        obtain ⟨hmem, hk⟩ := row_mem hrow
        exact absurd ((hp r hmem).mpr ⟨hk, hr⟩) (by simp [hnone r hmem])
      · rw [htime, hany]
        simp only [forall_const, Bool.false_eq_true, imp_false]
        rfl
    · rw [reportNote, if_neg (by simp [hshed])]
      exact .move (htime.mpr fun h => absurd h hshed) (.late w)

theorem move_append (hnew : ∀ q ∈ rows, C.key q ≠ C.key r) (hattempts : C.attempts r = 0)
    (hholder : C.holder r = none) (hopen : C.unfinished r = true) :
    Move (C.ledger rows calls B) (C.ledger (rows ++ [r]) calls (B.note (.fresh (C.key r))) : AttemptLedger κ ι ω) := by
  have hnone : C.row rows (C.key r) = none := row_none hnew
  have hrows : C.row (rows ++ [r]) = setAt (C.row rows) (C.key r) (some r) := funext fun _ => row_append hnew
  have hfree : (C.row rows (C.key r)).bind C.holder = none := by rw [hnone, Option.bind_none]
  rw [ledger, ledger, hrows, ofRows_reset hfree hattempts hholder hopen]
  exact .reset _ hfree

theorem move_reset (hnd : (rows.map C.key).Nodup) {k : κ} (hkey : ∀ r, C.key (f r) = C.key r)
    (hp : ∀ r ∈ rows, p r = true → C.key r = k ∧ C.holder r = none) (hattempts : ∀ r, C.attempts (f r) = 0)
    (hholder : ∀ r, p r = true → r ∈ rows → C.holder (f r) = none) (hopen : ∀ r, C.unfinished (f r) = true) :
    Move (C.ledger rows calls B) (C.ledger (Table.update p f rows) calls
      (B.note (if rows.any p then .fresh k else .nothing)) : AttemptLedger κ ι ω) := by
  cases hany : rows.any p with
  | true =>
    obtain ⟨r, hr, hpr⟩ := List.any_eq_true.mp hany
    obtain ⟨hrow, hfree⟩ := hp r hr hpr
    have hk : C.row rows k = some r := hrow ▸ row_of_mem hnd hr
    have hunheld : (C.row rows k).bind C.holder = none := by rw [hk, Option.bind_some, hfree]
    rw [if_pos rfl, ledger, ledger, row_update_one hkey hk hpr fun q hq hpq => (hp q hq hpq).1,
      ofRows_reset hunheld (hattempts r) (hholder r hpr hr) (hopen r)]
    exact .reset _ hunheld
  | false =>
    rw [if_neg (by simp), Table.update_none fun r hr => by simpa using List.any_eq_false.mp hany r hr]
    exact .stay

theorem move_close (hnd : (rows.map C.key).Nodup) {k : κ} (hkey : ∀ r, C.key (f r) = C.key r)
    (hp : ∀ r ∈ rows, p r = true ↔ C.key r = k) (hattempts : ∀ r, C.attempts (f r) = C.attempts r)
    (hholder : ∀ r, C.holder (f r) = C.holder r) (hopen : ∀ r, C.unfinished (f r) = false) :
    Move (C.ledger rows calls B) (C.ledger (Table.update p f rows) calls B : AttemptLedger κ ι ω) := by
  cases hany : rows.any p with
  | true =>
    obtain ⟨r, hr, hpr⟩ := List.any_eq_true.mp hany
    have hk : C.row rows k = some r := (hp r hr).mp hpr ▸ row_of_mem hnd hr
    rw [ledger, ledger, row_update_one hkey hk hpr fun q hq => (hp q hq).mp,
      ofRows_close hk (hattempts r) (hholder r) (hopen r)]
    exact .close k
  | false =>
    rw [Table.update_none fun r hr => by simpa using List.any_eq_false.mp hany r hr]
    exact .stay

theorem move_lapse (hnd : (rows.map C.key).Nodup) (hkey : ∀ r, C.key (f r) = C.key r)
    (hattempts : ∀ r, C.attempts (f r) = C.attempts r) (hholder : ∀ r, C.holder (f r) = none)
    (hopen : ∀ r ∈ rows, p r = true → C.unfinished (f r) = C.unfinished r) :
    Move (C.ledger rows calls B) (C.ledger (Table.update p f rows) calls
      (B.note (.lapsed (C.claimsWhere p rows))) : AttemptLedger κ ι ω) := by
  rw [ledger_lapse hkey hattempts hholder hopen]
  exact .lapse _ _ fun c => mem_claimsWhere hnd

theorem move_quiet (hkey : ∀ r, C.key (f r) = C.key r)
    (hsame : ∀ r, C.attempts (f r) = C.attempts r ∧ C.holder (f r) = C.holder r ∧
      C.unfinished (f r) = C.unfinished r) :
    Move (C.ledger rows calls B) (C.ledger (Table.update p f rows) calls B : AttemptLedger κ ι ω) := by
  rw [ledger_quiet hkey hsame]
  exact .stay

end

end ClaimColumns

end Cadena.Base
