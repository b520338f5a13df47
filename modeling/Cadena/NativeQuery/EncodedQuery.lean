import Cadena.Base.Split
import Cadena.NativeQuery.Validation

/-!
# ServiceNow encoded queries

`validateEncodedQuery` and the grammar it reads a query by: single carets
separate terms, `NQ` starts a new part, a term marked `OR` belongs to the
clause before it.
-/

namespace Cadena.NativeQuery

open Cadena.Base

structure EncodedTerm where
  field : Text
  operator : Text
  value : Text
  or : Bool
  deriving DecidableEq

def ENCODED_OPERATORS : List Text :=
  ["NOT IN", "NOT LIKE", "!=", ">=", "<=", "=", ">", "<", "IN", "LIKE", "STARTSWITH", "ENDSWITH",
    "CONTAINS", "ISNOTEMPTY", "ISEMPTY", "BETWEEN", "SAMEAS", "NSAMEAS", "ANYTHING", "VALCHANGES",
    "CHANGESFROM", "CHANGESTO", "DYNAMIC", "INSTANCEOF", "MATCHES"].map String.toList

/-- `[a-z_]` -/
def isFieldStart (c : Char) : Bool := c.isLower || c == '_'

/-- `[a-z0-9_.]` -/
def isFieldChar (c : Char) : Bool := c.isLower || c.isDigit || c == '_' || c == '.'

/-- The characters `.` does not match. -/
def isLineEnd (c : Char) : Bool :=
  c == '\n' || c == '\r' || c.toNat == 0x2028 || c.toNat == 0x2029

/-- The first operator of the list that the text begins with, and the rest. -/
def matchOperator (ops : List Text) (t : Text) : Option (Text × Text) :=
  (ops.find? (·.isPrefixOf t)).map fun op => (op, t.drop op.length)

/-- `ENCODED_TERM.exec`: field, operator, value. The greedy field never
gives a character back, since no operator begins with a field character
(`operator_start`); a value holds no line terminator. -/
def execEncodedTerm (body : Text) : Option (Text × Text × Text) :=
  match body with
  | [] => none
  | c :: t =>
    if isFieldStart c then
      match matchOperator ENCODED_OPERATORS (t.dropWhile isFieldChar) with
      | some (op, value) =>
        if value.any isLineEnd then none else some (c :: t.takeWhile isFieldChar, op, value)
      | none => none
    else none

/-- `text.split(/(?<!\^)\^(?!\^)/).map((term) => term.trim())` -/
def rawTerms (text : Text) : List Text := (splitSingle '^' text).map trim

/-- The loop's variables; the group being filled is kept apart, so that
there always is one. -/
structure Reading where
  finished : List (List EncodedTerm)
  current : List EncodedTerm
  errors : List NativeQueryIssue

def Reading.groups (r : Reading) : List (List EncodedTerm) := r.finished ++ [r.current]

def orderByIssue (raw : Text) : NativeQueryIssue :=
  let term := String.ofList raw
  issue .orderByNotAllowed s!"The query contains '{term}'."
    "Remove ORDERBY/GROUPBY terms. Cadena orders scheduled queries by sys_updated_on then sys_id so the watermark advances safely."

def termIssue (raw : Text) : NativeQueryIssue :=
  let term := String.ofList raw
  issue .syntax_ s!"Cannot parse the term '{term}'."
    "Use field-name + operator + value, e.g. assignment_group=<sys_id>, and join terms with '^' or '^OR'."

/-- A term the loop passes over, or only reports. -/
def isOrdering (raw : Text) : Bool :=
  "ORDERBY".toList.isPrefixOf raw || "GROUPBY".toList.isPrefixOf raw

/-- `raw.startsWith('NQ')` -/
def startsQuery (raw : Text) : Bool := "NQ".toList.isPrefixOf raw

def startsOr (raw : Text) : Bool := !startsQuery raw && "OR".toList.isPrefixOf raw

/-- The term without its `NQ` or `OR`. -/
def termBody (raw : Text) : Text :=
  if startsQuery raw || startsOr raw then raw.drop 2 else raw

/-- One turn of the loop over the terms. -/
def readTerm (r : Reading) (raw : Text) : Reading :=
  if raw = [] ∨ raw = "EQ".toList then r
  else if isOrdering raw then { r with errors := r.errors ++ [orderByIssue raw] }
  else
    let r := if startsQuery raw then
        { r with finished := r.finished ++ [r.current], current := [] }
      else r
    if termBody raw = [] then r
    else match execEncodedTerm (termBody raw) with
      | none => { r with errors := r.errors ++ [termIssue raw] }
      | some (field, operator, value) =>
        { r with current := r.current ++ [{ field, operator, value, or := startsOr raw }] }

def emptyReading : Reading := { finished := [], current := [], errors := [] }

def readQuery (text : Text) : Reading := (rawTerms text).foldl readTerm emptyReading

/-- A term marked OR belongs to the clause before it. -/
def addToClauses (clauses : List (List EncodedTerm)) (term : EncodedTerm) :
    List (List EncodedTerm) :=
  match clauses.getLast? with
  | some clause => if term.or then clauses.dropLast ++ [clause ++ [term]] else clauses ++ [[term]]
  | none => clauses ++ [[term]]

/-- The ANDed clauses of a part. -/
def clausesOf (group : List EncodedTerm) : List (List EncodedTerm) :=
  group.foldl addToClauses []

def ENCODED_SELECTIVE : List Text :=
  ["=", "IN", "STARTSWITH", "BETWEEN", "SAMEAS"].map String.toList

/-- `/^(true|false)$/i` -/
def isBooleanText (value : Text) : Bool :=
  let lower := value.map Char.toLower
  lower = "true".toList || lower = "false".toList

def encodedSelective (term : EncodedTerm) : Bool :=
  decide (term.operator ∈ ENCODED_SELECTIVE)
    && !(decide (term.operator = "=".toList) && isBooleanText term.value)

def isScopedGroup (group : List EncodedTerm) : Bool :=
  group.isEmpty || (clausesOf group).any fun clause => clause.all encodedSelective

def scopeIssue (groups : List (List EncodedTerm)) (groupIndex : Nat) : NativeQueryIssue :=
  let part := toString (groupIndex + 1)
  issue .unboundedScan
    (if groups.length > 1 then
      s!"Query part {part} has no selective condition, so it would read every record in the table."
    else
      "The query has no selective condition, so each run would read every record changed in the table.")
    "Add an equality or IN condition on an indexed field that is not an OR-alternative to an unconstrained term, for example assignment_group=<sys_id> or cmdb_ci=<sys_id>. Boolean flags such as active=true, ranges, negations and LIKE/CONTAINS do not count."

def SYS_UPDATED_ON : Text := "sys_updated_on".toList

def watermarkIssues (groups : List (List EncodedTerm)) : List NativeQueryIssue :=
  if groups.any fun group => group.any fun term => decide (term.field = SYS_UPDATED_ON) then
    [issue .watermarkConflict
      "The query filters on sys_updated_on, which Cadena manages as the watermark."
      "Remove the sys_updated_on condition. Cadena adds sys_updated_on>=<watermark>; set start_from to control where the first run begins."]
  else []

def scopeIssues (groups : List (List EncodedTerm)) : List NativeQueryIssue :=
  groups.zipIdx.flatMap fun (group, groupIndex) =>
    if isScopedGroup group then [] else [scopeIssue groups groupIndex]

def validateEncodedQuery (platform : Platform) (text : Text)
    (catalog : Option QueryIndexCatalog) : NativeQueryValidation :=
  let errors := basicProblems text
  if errors ≠ [] then finish .encoded errors
  else
    let reading := readQuery text
    let groups := reading.groups
    if reading.errors ≠ [] then finish .encoded reading.errors
    else if groups.all List.isEmpty then
      finish .encoded
        [issue .emptyQuery "The query has no conditions."
          "Provide at least one condition such as assignment_group=<sys_id>."]
    else
      let fields := (groups.flatMap fun group => group.map (·.field)).filter (· ≠ SYS_UPDATED_ON)
      finish .encoded
        (watermarkIssues groups ++ scopeIssues groups
          ++ indexProblems platform (fields.map String.ofList) catalog)

/-! ## What one term does -/

/-- The condition a term adds to its part. -/
def termOf (raw : Text) : Option EncodedTerm :=
  if raw = [] ∨ raw = "EQ".toList ∨ isOrdering raw then none
  else (execEncodedTerm (termBody raw)).map fun (field, operator, value) =>
    { field, operator, value, or := startsOr raw }

theorem startsQuery_eq {raw : Text} (h : startsQuery raw = true) : ∃ t, raw = 'N' :: 'Q' :: t := by
  obtain ⟨t, ht⟩ := List.isPrefixOf_iff_prefix.mp h
  exact ⟨t, ht.symm⟩

theorem not_isOrdering_of_startsQuery {raw : Text} (h : startsQuery raw = true) :
    isOrdering raw = false := by
  obtain ⟨t, rfl⟩ := startsQuery_eq h
  simp [isOrdering, List.isPrefixOf]

/-- A term that starts a part closes the one before it; the condition of
the term, if it has one, goes to the part that is open then. -/
theorem readTerm_spec (r : Reading) (raw : Text) :
    (readTerm r raw).finished
        = (if startsQuery raw then r.finished ++ [r.current] else r.finished) ∧
      (readTerm r raw).current
        = (if startsQuery raw then [] else r.current) ++ (termOf raw).toList := by
  by_cases hblank : raw = [] ∨ raw = "EQ".toList
  · have hq : startsQuery raw = false := by rcases hblank with rfl | rfl <;> decide
    have ht : termOf raw = none := by
      rw [termOf, if_pos]
      rcases hblank with h | h
      · exact Or.inl h
      · exact Or.inr (Or.inl h)
    rw [readTerm, if_pos hblank, hq, ht]
    simp
  · by_cases hord : isOrdering raw = true
    · have hq : startsQuery raw = false := by
        by_contra h
        rw [not_isOrdering_of_startsQuery (by simpa using h)] at hord
        cases hord
      have ht : termOf raw = none := by rw [termOf, if_pos (Or.inr (Or.inr hord))]
      rw [readTerm, if_neg hblank, if_pos hord, hq, ht]
      simp
    · have ht : termOf raw = (execEncodedTerm (termBody raw)).map
          fun (field, operator, value) => { field, operator, value, or := startsOr raw } := by
        rw [termOf, if_neg]
        rintro (h | h | h)
        · exact hblank (Or.inl h)
        · exact hblank (Or.inr h)
        · exact hord h
      simp only [readTerm, hblank, hord, ht, if_false, Bool.false_eq_true]
      by_cases hb : termBody raw = []
      · rw [if_pos hb, hb]
        by_cases hq : startsQuery raw = true
        · simp [hq, execEncodedTerm]
        · simp [hq, execEncodedTerm]
      · rw [if_neg hb]
        cases hx : execEncodedTerm (termBody raw) with
        | none =>
          by_cases hq : startsQuery raw = true
          · simp [hq]
          · simp [hq]
        | some m =>
          by_cases hq : startsQuery raw = true
          · simp [hq]
          · simp [hq]

/-- The parts of a list of terms, the conditions of the first already
read up to here. -/
def partsOf (current : List EncodedTerm) : List Text → List (List EncodedTerm)
  | [] => [current]
  | raw :: rest =>
    if startsQuery raw then current :: partsOf (termOf raw).toList rest
    else partsOf (current ++ (termOf raw).toList) rest

theorem foldl_readTerm_groups (raws : List Text) (r : Reading) :
    (raws.foldl readTerm r).groups = r.finished ++ partsOf r.current raws := by
  induction raws generalizing r with
  | nil => rfl
  | cons raw raws ih =>
    obtain ⟨hfin, hcur⟩ := readTerm_spec r raw
    rw [List.foldl_cons, ih, hfin, hcur, partsOf]
    by_cases hq : startsQuery raw = true
    · simp [hq]
    · simp [hq]

theorem readQuery_groups (text : Text) : (readQuery text).groups = partsOf [] (rawTerms text) := by
  rw [readQuery, foldl_readTerm_groups]
  rfl

/-! ## The fields of an accepted query -/

theorem partsOf_ne_nil (current : List EncodedTerm) (raws : List Text) :
    partsOf current raws ≠ [] := by
  induction raws generalizing current with
  | nil => simp [partsOf]
  | cons raw raws ih =>
    rw [partsOf]
    split
    · exact List.cons_ne_nil _ _
    · exact ih _

theorem mem_partsOf (current : List EncodedTerm) {raws : List Text} {t : EncodedTerm}
    (h : t ∈ current ∨ ∃ raw ∈ raws, termOf raw = some t) :
    ∃ g ∈ partsOf current raws, t ∈ g := by
  induction raws generalizing current with
  | nil =>
    rcases h with h | ⟨raw, hraw, -⟩
    · exact ⟨current, List.mem_singleton_self _, h⟩
    · exact absurd hraw List.not_mem_nil
  | cons raw raws ih =>
    have hnext : (t ∈ (termOf raw).toList ∨ ∃ r ∈ raws, termOf r = some t) ∨ t ∈ current := by
      rcases h with h | ⟨r, hr, ht⟩
      · exact Or.inr h
      · rcases List.mem_cons.mp hr with rfl | hr
        · exact Or.inl (Or.inl (by rw [ht]; exact List.mem_singleton_self _))
        · exact Or.inl (Or.inr ⟨r, hr, ht⟩)
    rw [partsOf]
    by_cases hq : startsQuery raw = true
    · rw [if_pos hq]
      rcases hnext with h | h
      · obtain ⟨g, hg, htg⟩ := ih _ h
        exact ⟨g, List.mem_cons_of_mem _ hg, htg⟩
      · exact ⟨current, List.mem_cons_self, h⟩
    · rw [if_neg hq]
      refine ih _ ?_
      rcases hnext with (h | h) | h
      · exact Or.inl (List.mem_append_right _ h)
      · exact Or.inr h
      · exact Or.inl (List.mem_append_left _ h)

theorem accepted_issues {platform : Platform} {text : Text} {catalog : Option QueryIndexCatalog}
    (h : (validateEncodedQuery platform text catalog).valid = true) :
    watermarkIssues (readQuery text).groups = [] ∧ scopeIssues (readQuery text).groups = [] ∧
      indexProblems platform ((((readQuery text).groups.flatMap fun group => group.map (·.field)).filter
        (· ≠ SYS_UPDATED_ON)).map String.ofList) catalog = [] := by
  rw [validateEncodedQuery] at h
  by_cases hb : basicProblems text = []
  · simp only [hb, ne_eq, not_true_eq_false, if_false] at h
    by_cases he : (readQuery text).errors = []
    · simp only [he, not_true_eq_false, if_false] at h
      split at h
      · simp at h
      · rw [finish_valid, List.append_eq_nil_iff, List.append_eq_nil_iff, and_assoc] at h
        exact h
    · rw [if_pos he, finish_valid] at h
      exact absurd h he
  · rw [if_pos hb, finish_valid] at h
    exact absurd h hb

theorem accepted_field {platform : Platform} {text : Text} {catalog : Option QueryIndexCatalog}
    (h : (validateEncodedQuery platform text catalog).valid = true) {raw : Text} {t : EncodedTerm}
    (hraw : raw ∈ rawTerms text) (ht : termOf raw = some t) : t.field ≠ SYS_UPDATED_ON := by
  intro hfield
  obtain ⟨g, hg, htg⟩ := mem_partsOf [] (Or.inr ⟨raw, hraw, ht⟩)
  rw [← readQuery_groups] at hg
  have hw : watermarkIssues (readQuery text).groups ≠ [] := by
    have hany : ((readQuery text).groups.any fun group =>
        group.any fun term => decide (term.field = SYS_UPDATED_ON)) = true :=
      List.any_eq_true.mpr ⟨g, hg, List.any_eq_true.mpr ⟨t, htg, decide_eq_true hfield⟩⟩
    rw [watermarkIssues, if_pos hany]
    exact List.cons_ne_nil _ _
  exact hw (accepted_issues h).1

end Cadena.NativeQuery
