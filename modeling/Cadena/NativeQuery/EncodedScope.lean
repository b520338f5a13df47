import Cadena.NativeQuery.EncodedQueryBounds
import Mathlib.Data.List.MinMax

/-!
# Scope of an accepted encoded query

`validateEncodedQuery` takes the first operator of its list that follows
the field, and passes over a part without conditions. Against the reading
that takes the longest operator, the two differ in one pair only: `IN`
stands before `INSTANCEOF`, so `INSTANCEOF` is read as `IN`, which counts
as selective (`longestTerm_eq`). An accepted query is scoped in every part
exactly when no part is empty and no part rests on such a reading.
-/

namespace Cadena.NativeQuery

open Cadena.Base

section LongestMatch

variable {α : Type} [DecidableEq α]

/-- The longest word of the list that the text begins with. -/
def longestPrefix (words : List (List α)) (t : List α) : Option (List α) :=
  (words.filter (·.isPrefixOf t)).argmax List.length

variable {words : List (List α)}

theorem longestPrefix_eq_none {t : List α} : longestPrefix words t = none ↔ ∀ w ∈ words, ¬ w <+: t := by
  rw [longestPrefix, List.argmax_eq_none, List.filter_eq_nil_iff]
  simp

theorem longestPrefix_some {t w : List α} (h : longestPrefix words t = some w) :
    (w ∈ words ∧ w <+: t) ∧ ∀ v ∈ words, v <+: t → v.length ≤ w.length := by
  have hmem := List.mem_filter.mp (List.argmax_mem h)
  have hstarts : w <+: t := List.isPrefixOf_iff_prefix.mp hmem.2
  have hmax : ∀ v ∈ words, v <+: t → v.length ≤ w.length := by
    intro v hv hvt
    have hmatch : v ∈ words.filter (·.isPrefixOf t) :=
      List.mem_filter.mpr ⟨hv, List.isPrefixOf_iff_prefix.mpr hvt⟩
    exact List.le_of_mem_argmax hmatch (Option.mem_def.mpr h)
  exact ⟨⟨hmem.1, hstarts⟩, hmax⟩

theorem find?_pairwise {β : Type} {p : β → Bool} {R : β → β → Prop} {l : List β} {a b : β}
    (hR : l.Pairwise R) (ha : l.find? p = some a) (hb : b ∈ l) (hpb : p b = true) :
    a = b ∨ R a b := by
  induction l with
  | nil => cases ha
  | cons x xs ih =>
    obtain ⟨hx, hxs⟩ := List.pairwise_cons.mp hR
    by_cases hpx : p x = true
    · obtain rfl : x = a := by simpa [hpx] using ha
      rcases List.mem_cons.mp hb with rfl | hb
      · exact Or.inl rfl
      · exact Or.inr (hx b hb)
    · have hrest : xs.find? p = some a := by simpa [hpx] using ha
      rcases List.mem_cons.mp hb with rfl | hb
      · exact absurd hpb hpx
      · exact ih hxs hrest hb

/-- Where no word of a list has a later one that continues it, but for the
pairs of `R`, an ordered choice takes the longest match, but for those pairs. -/
theorem find?_longestPrefix {R : List α → List α → Prop} {t a b : List α}
    (hR : words.Pairwise fun v w => v <+: w → R v w)
    (ha : words.find? (·.isPrefixOf t) = some a) (hb : longestPrefix words t = some b) :
    a = b ∨ R a b := by
  obtain ⟨⟨hmem, hbt⟩, hmax⟩ := longestPrefix_some hb
  have hat : a <+: t := by simpa using List.find?_some ha
  have hab : a <+: b :=
    List.prefix_of_prefix_length_le hat hbt (hmax a (List.mem_of_find?_eq_some ha) hat)
  rcases find?_pairwise hR ha hmem (List.isPrefixOf_iff_prefix.mpr hbt) with h | h
  · exact Or.inl h
  · exact Or.inr (h hab)

end LongestMatch

def longestOperator (t : Text) : Option (Text × Text) :=
  (longestPrefix ENCODED_OPERATORS t).map fun op => (op, t.drop op.length)

/-- `execEncodedTerm` with the longest operator. -/
def execLongestTerm (body : Text) : Option (Text × Text × Text) :=
  match body with
  | [] => none
  | c :: t =>
    if isFieldStart c then
      match longestOperator (t.dropWhile isFieldChar) with
      | some (op, value) =>
        if value.any isLineEnd then none else some (c :: t.takeWhile isFieldChar, op, value)
      | none => none
    else none

/-- The condition a term adds to its part, with the longest operator. -/
def longestTerm (raw : Text) : Option EncodedTerm :=
  if raw = [] ∨ raw = "EQ".toList ∨ isOrdering raw then none
  else (execLongestTerm (termBody raw)).map fun (field, operator, value) =>
    { field, operator, value, or := startsOr raw }

def longestPartsFrom (current : List EncodedTerm) : List Text → List (List EncodedTerm)
  | [] => [current]
  | raw :: rest =>
    if startsQuery raw then current :: longestPartsFrom (longestTerm raw).toList rest
    else longestPartsFrom (current ++ (longestTerm raw).toList) rest

/-- The `NQ` parts of a query, those without conditions among them. -/
def longestParts (text : Text) : List (List EncodedTerm) := longestPartsFrom [] (rawTerms text)

/-- A part the target answers from a subset of the table: one of its ANDed
clauses has selective operators only. -/
def PartScoped (part : List EncodedTerm) : Prop :=
  ∃ clause ∈ clausesOf part, ∀ t ∈ clause, t.operator ∈ ENCODED_SELECTIVE

/-! ## INSTANCEOF read as IN -/

def IN : Text := "IN".toList

def INSTANCEOF : Text := "INSTANCEOF".toList

/-- What `INSTANCEOF` leaves behind `IN`. -/
def STANCEOF : Text := "STANCEOF".toList

/-- A term `field INSTANCEOF class`, as the validator reads it. -/
def readsInstanceOf (t : EncodedTerm) : Bool :=
  decide (t.operator = IN) && STANCEOF.isPrefixOf t.value

/-- The term as it was written. -/
def widen (t : EncodedTerm) : EncodedTerm :=
  if readsInstanceOf t then { t with operator := INSTANCEOF, value := t.value.drop STANCEOF.length }
  else t

@[simp] theorem widen_or (t : EncodedTerm) : (widen t).or = t.or := by
  rw [widen]
  split <;> rfl

theorem widen_of_not_reads {t : EncodedTerm} (h : readsInstanceOf t = false) : widen t = t := by
  simp [widen, h]

theorem widen_selective (t : EncodedTerm) :
    (widen t).operator ∈ ENCODED_SELECTIVE
      ↔ t.operator ∈ ENCODED_SELECTIVE ∧ readsInstanceOf t = false := by
  by_cases h : readsInstanceOf t = true
  · have hout : INSTANCEOF ∉ ENCODED_SELECTIVE := by decide
    simp [widen, h, hout]
  · have hf : readsInstanceOf t = false := by simpa using h
    simp [widen_of_not_reads hf, hf]

theorem ordered_operators :
    ENCODED_OPERATORS.Pairwise fun v w => v <+: w → v = IN ∧ w = INSTANCEOF := by
  have hall : ENCODED_OPERATORS.Pairwise
      fun v w => v.isPrefixOf w = true → v = IN ∧ w = INSTANCEOF := by decide
  exact hall.imp fun h hvw => h (List.isPrefixOf_iff_prefix.mpr hvw)

theorem longestOperator_cases (t : Text) :
    (matchOperator ENCODED_OPERATORS t = none ∧ longestOperator t = none) ∨
      (∃ op value, matchOperator ENCODED_OPERATORS t = some (op, value) ∧
        longestOperator t = some (op, value) ∧
        ¬ (op = IN ∧ STANCEOF.isPrefixOf value = true)) ∨
      ∃ value, matchOperator ENCODED_OPERATORS t = some (IN, STANCEOF ++ value) ∧
        longestOperator t = some (INSTANCEOF, value) := by
  rw [matchOperator, longestOperator]
  cases hfirst : ENCODED_OPERATORS.find? (·.isPrefixOf t) with
  | none =>
    have hnone : longestPrefix ENCODED_OPERATORS t = none :=
      longestPrefix_eq_none.mpr fun w hw => by simpa using List.find?_eq_none.mp hfirst w hw
    exact Or.inl ⟨rfl, by rw [hnone]; rfl⟩
  | some a =>
    cases hlong : longestPrefix ENCODED_OPERATORS t with
    | none =>
      have hat : a <+: t := by simpa using List.find?_some hfirst
      exact absurd hat (longestPrefix_eq_none.mp hlong a (List.mem_of_find?_eq_some hfirst))
    | some b =>
      obtain ⟨⟨-, hbt⟩, hmax⟩ := longestPrefix_some hlong
      right
      rcases find?_longestPrefix ordered_operators hfirst hlong with rfl | ⟨rfl, rfl⟩
      · left
        refine ⟨a, t.drop a.length, rfl, rfl, ?_⟩
        -- were it an INSTANCEOF, that would be the longer match
        rintro ⟨rfl, hrest⟩
        obtain ⟨s, rfl⟩ := hbt
        obtain ⟨r, hr⟩ := List.isPrefixOf_iff_prefix.mp hrest
        have hs : STANCEOF ++ r = s := by simpa using hr
        have hlonger := hmax INSTANCEOF (by decide) ⟨r, by rw [← hs]; rfl⟩
        exact absurd hlonger (by decide)
      · right
        obtain ⟨s, rfl⟩ := hbt
        exact ⟨s, rfl, by simp⟩

theorem stanceof_plain : STANCEOF.any isLineEnd = false := by decide

theorem execLongestTerm_eq (body : Text) (or : Bool) :
    (execLongestTerm body).map (fun (field, operator, value) =>
        ({ field, operator, value, or } : EncodedTerm))
      = ((execEncodedTerm body).map fun (field, operator, value) =>
          ({ field, operator, value, or } : EncodedTerm)).map widen := by
  cases body with
  | nil => rfl
  | cons c t =>
    rw [execLongestTerm, execEncodedTerm]
    by_cases hc : isFieldStart c = true
    · rw [if_pos hc, if_pos hc]
      rcases longestOperator_cases (t.dropWhile isFieldChar) with
        ⟨hfirst, hlong⟩ | ⟨op, value, hfirst, hlong, hplain⟩ | ⟨value, hfirst, hlong⟩
      · rw [hfirst, hlong]
        rfl
      · have hreads : ∀ f, readsInstanceOf ⟨f, op, value, or⟩ = false := by
          intro f
          simp only [readsInstanceOf, Bool.and_eq_false_iff, decide_eq_false_iff_not]
          by_cases hop : op = IN
          · exact Or.inr (Bool.eq_false_iff.mpr fun h => hplain ⟨hop, h⟩)
          · exact Or.inl hop
        rw [hfirst, hlong]
        by_cases hend : value.any isLineEnd = true
        · simp [hend]
        · simp [hend, widen_of_not_reads (hreads _)]
      · have hwide : ∀ f, widen ⟨f, IN, STANCEOF ++ value, or⟩ = ⟨f, INSTANCEOF, value, or⟩ := by
          intro f
          have hreads : readsInstanceOf ⟨f, IN, STANCEOF ++ value, or⟩ = true := by
            simp [readsInstanceOf]
          simp [widen, hreads]
        have hend : (STANCEOF ++ value).any isLineEnd = value.any isLineEnd := by
          simp [List.any_append, stanceof_plain]
        rw [hfirst, hlong]
        by_cases hv : value.any isLineEnd = true
        · simp only [hend, hv, if_true, Option.map_none]
        · simp only [hend, hv, if_false, Bool.false_eq_true, Option.map_some, hwide]
    · rw [if_neg hc, if_neg hc]
      rfl

theorem longestTerm_eq (raw : Text) : longestTerm raw = (termOf raw).map widen := by
  rw [longestTerm, termOf]
  split
  case isTrue => rfl
  case isFalse => exact execLongestTerm_eq _ _

theorem longestPartsFrom_eq (current : List EncodedTerm) (raws : List Text) :
    longestPartsFrom (current.map widen) raws = (partsOf current raws).map (List.map widen) := by
  induction raws generalizing current with
  | nil => rfl
  | cons raw raws ih =>
    have hterm : (longestTerm raw).toList = (termOf raw).toList.map widen := by
      rw [longestTerm_eq]
      cases termOf raw <;> rfl
    rw [longestPartsFrom, partsOf, hterm]
    by_cases hq : startsQuery raw = true
    · rw [if_pos hq, if_pos hq, ih, List.map_cons]
    · rw [if_neg hq, if_neg hq, ← List.map_append, ih]

theorem longestParts_eq (text : Text) :
    longestParts text = (readQuery text).groups.map (List.map widen) := by
  rw [readQuery_groups, longestParts]
  exact longestPartsFrom_eq [] _

theorem addToClauses_map (clauses : List (List EncodedTerm)) (t : EncodedTerm) :
    addToClauses (clauses.map (List.map widen)) (widen t)
      = (addToClauses clauses t).map (List.map widen) := by
  rw [addToClauses, addToClauses, List.getLast?_map]
  cases clauses.getLast? with
  | none => simp
  | some clause =>
    by_cases hor : t.or = true
    · simp [hor, List.map_dropLast]
    · simp [hor]

theorem foldl_addToClauses_map (group : List EncodedTerm) (clauses : List (List EncodedTerm)) :
    (group.map widen).foldl addToClauses (clauses.map (List.map widen))
      = (group.foldl addToClauses clauses).map (List.map widen) := by
  induction group generalizing clauses with
  | nil => rfl
  | cons t group ih => rw [List.map_cons, List.foldl_cons, List.foldl_cons, addToClauses_map, ih]

theorem clausesOf_map (group : List EncodedTerm) :
    clausesOf (group.map widen) = (clausesOf group).map (List.map widen) :=
  foldl_addToClauses_map group []

theorem partScoped_widen (group : List EncodedTerm) :
    PartScoped (group.map widen) ↔
      ∃ clause ∈ clausesOf group,
        ∀ t ∈ clause, t.operator ∈ ENCODED_SELECTIVE ∧ readsInstanceOf t = false := by
  rw [PartScoped, clausesOf_map]
  simp [widen_selective]

theorem operator_of_encodedSelective {t : EncodedTerm} (h : encodedSelective t = true) :
    t.operator ∈ ENCODED_SELECTIVE := by
  rw [encodedSelective, Bool.and_eq_true] at h
  exact of_decide_eq_true h.1

theorem mem_scopeIssues {groups : List (List EncodedTerm)} {group : List EncodedTerm}
    (hg : group ∈ groups) (hscope : isScopedGroup group = false) : scopeIssues groups ≠ [] := by
  obtain ⟨i, hi, rfl⟩ := List.getElem_of_mem hg
  have hmem : (groups[i], i) ∈ groups.zipIdx := List.mk_mem_zipIdx_iff_getElem?.mpr (by simp [hi])
  intro hnil
  have hat := List.flatMap_eq_nil_iff.mp hnil _ hmem
  simp [hscope] at hat

theorem accepted_part {platform : Platform} {text : Text} {catalog : Option QueryIndexCatalog}
    (h : (validateEncodedQuery platform text catalog).valid = true) {group : List EncodedTerm}
    (hg : group ∈ (readQuery text).groups) (hne : group ≠ []) :
    ∃ clause ∈ clausesOf group, ∀ t ∈ clause, t.operator ∈ ENCODED_SELECTIVE := by
  have hscoped : isScopedGroup group = true := by
    by_contra hnot
    exact mem_scopeIssues hg (by simpa using hnot) (accepted_issues h).2.1
  rw [isScopedGroup, Bool.or_eq_true] at hscoped
  rcases hscoped with hempty | hany
  · exact absurd (List.isEmpty_iff.mp hempty) hne
  · obtain ⟨clause, hclause, hall⟩ := List.any_eq_true.mp hany
    exact ⟨clause, hclause, fun t ht =>
      operator_of_encodedSelective (List.all_eq_true.mp hall t ht)⟩

/-! ## Soundness of the scope check -/

/-- A part that has conditions, and a selective clause without an
`INSTANCEOF` where it has an `INSTANCEOF` at all. -/
def KeepsScope (part : List EncodedTerm) : Prop :=
  part ≠ [] ∧
    ((∃ t ∈ part, readsInstanceOf t = true) →
      ∃ clause ∈ clausesOf part,
        ∀ t ∈ clause, t.operator ∈ ENCODED_SELECTIVE ∧ readsInstanceOf t = false)

/-- Every part of an accepted query is scoped exactly when no part is empty
and none rests on an `INSTANCEOF`. -/
theorem encoded_scope_iff (platform : Platform) (text : Text) (catalog : Option QueryIndexCatalog)
    (h : (validateEncodedQuery platform text catalog).valid = true) :
    (∀ part ∈ longestParts text, PartScoped part) ↔
      ∀ part ∈ partsOf [] (rawTerms text), KeepsScope part := by
  rw [longestParts_eq, ← readQuery_groups]
  constructor
  · intro hscoped part hpart
    have hclause := (partScoped_widen part).mp (hscoped _ (List.mem_map_of_mem hpart))
    have hne : part ≠ [] := by
      rintro rfl
      obtain ⟨clause, hmem, -⟩ := hclause
      exact absurd hmem List.not_mem_nil
    exact ⟨hne, fun _ => hclause⟩
  · intro hkeeps part hpart
    obtain ⟨group, hgroup, rfl⟩ := List.mem_map.mp hpart
    obtain ⟨hne, hinstance⟩ := hkeeps group hgroup
    rw [partScoped_widen]
    by_cases hany : ∃ t ∈ group, readsInstanceOf t = true
    · exact hinstance hany
    · obtain ⟨clause, hclause, hall⟩ := accepted_part h hgroup hne
      refine ⟨clause, hclause, fun t ht => ⟨hall t ht, ?_⟩⟩
      by_contra hreads
      exact hany ⟨t, mem_of_mem_clausesOf hclause ht, by simpa using hreads⟩

theorem encoded_scope_two_parts :
    (∀ part ∈ longestParts "assignment_group=a^ORcmdb_ci=b^NQcallerSTARTSWITHx".toList,
        PartScoped part) ↔
      ∀ part ∈ partsOf [] (rawTerms "assignment_group=a^ORcmdb_ci=b^NQcallerSTARTSWITHx".toList),
        KeepsScope part :=
  encoded_scope_iff Platform.ascii _ none (by decide)

/-- `priority=1^NQ` is accepted, and its second part matches every record;
so is a part with nothing but `sys_class_nameINSTANCEOFcmdb_ci`. -/
theorem unscoped_part_accepted :
    ((validateEncodedQuery Platform.ascii "priority=1^NQ".toList none).valid = true ∧
        ¬ ∀ part ∈ longestParts "priority=1^NQ".toList, PartScoped part) ∧
      (validateEncodedQuery Platform.ascii "sys_class_nameINSTANCEOFcmdb_ci".toList none).valid
          = true ∧
        ¬ ∀ part ∈ longestParts "sys_class_nameINSTANCEOFcmdb_ci".toList, PartScoped part := by
  have hempty : [] ∈ longestParts "priority=1^NQ".toList := by decide
  have hclass : [⟨"sys_class_name".toList, INSTANCEOF, "cmdb_ci".toList, false⟩]
      ∈ longestParts "sys_class_nameINSTANCEOFcmdb_ci".toList := by decide
  refine ⟨⟨by decide, fun h => ?_⟩, by decide, fun h => ?_⟩
  · obtain ⟨clause, hclause, -⟩ := h _ hempty
    exact absurd hclause List.not_mem_nil
  · obtain ⟨clause, hclause, hall⟩ := h _ hclass
    obtain rfl := List.mem_singleton.mp hclause
    exact absurd (hall _ (List.mem_singleton_self _)) (by decide)

end Cadena.NativeQuery
