import Cadena.NativeQuery.Calendar
import Cadena.NativeQuery.EncodedQuery

/-!
# Query strings of the ServiceNow adapter

The `sysparm_query` text that `fetchChanges`, `fetchNativeQuery` and
`fetchBackfillPage` of `servicenow-connector.adapter.ts` send.
-/

namespace Cadena.NativeQuery

open Cadena.Base

/-- `query.split('^NQ').map((part) => `${part}^${bound}`).join('^NQ')` -/
def boundEveryPart (query bound : Text) : Text :=
  "^NQ".toList.intercalate
    ((splitText "^NQ".toList query).map fun part => part ++ '^' :: bound)

def orderBySuffix : Text := "^ORDERBYsys_updated_on^ORDERBYsys_id".toList

def sinceBound (calendar : Calendar) (timeZone : String) (since : Int) : Text :=
  "sys_updated_on>=".toList ++ formatInTimeZone calendar since timeZone

/-- `sys_updated_on>=from^sys_updated_on<to` -/
def windowBound (calendar : Calendar) (timeZone : String) (start to_ : Int) : Text :=
  sinceBound calendar timeZone start
    ++ '^' :: ("sys_updated_on<".toList ++ formatInTimeZone calendar to_ timeZone)

/-- The text `fetchNativeQuery` hands to `queryPages`; the cursor is the
parsed `cursorValue`. -/
def ServiceNow.fetchNativeQuery (calendar : Calendar) (timeZone : String) (query : Text)
    (cursor : Option Int) : Except String Text :=
  match cursor with
  | none => .error "A scheduled query needs a watermark; refusing to run it unbounded"
  | some since => .ok (boundEveryPart query (sinceBound calendar timeZone since) ++ orderBySuffix)

/-- Where a page starts and how many rows at that instant it skips. -/
def resumePoint (calendar : Calendar) (window : BackfillWindow) (pageToken : Option Text) :
    Except String (Int × Nat) :=
  match pageToken with
  | none | some [] => .ok (window.from_, 0)
  | some token =>
    match splitText ['|'] token with
    | stamp :: consumed :: _ =>
      match calendar.parseDate stamp with
      | some resumeAt =>
        if consumed ≠ [] ∧ consumed.all Char.isDigit then
          .ok (resumeAt, consumed.foldl (fun n c => 10 * n + (c.toNat - 48)) 0)
        else .error "The backfill page token is malformed"
      | none => .error "The backfill page token is malformed"
    | _ => .error "The backfill page token is malformed"

/-- The query text of `fetchBackfillPage`; `tables` are those the connector
is configured for. -/
def ServiceNow.fetchBackfillPage (calendar : Calendar) (timeZone : String) (tables : List String)
    (entityType : String) (window : BackfillWindow) (query : Option Text)
    (pageToken : Option Text) : Except String Text := do
  if entityType ∉ tables then
    throw s!"Table '{entityType}' is not configured on this connector"
  let (start, _) ← resumePoint calendar window pageToken
  let bound := windowBound calendar timeZone start window.to_
  let scopedQuery := match query with
    | none | some [] => bound
    | some query => boundEveryPart query bound
  return scopedQuery ++ orderBySuffix

/-! ## Bounds as terms -/

/-- A condition on the watermark's field, as the adapter writes one. -/
structure Bound where
  operator : Text
  isRange : operator = ">=".toList ∨ operator = "<".toList
  stamp : Text
  first : stamp.head? ≠ some '='
  chars : ∀ c ∈ stamp, c ≠ '^' ∧ isLineEnd c = false
  last : ∃ c, stamp.getLast? = some c ∧ isSpace c = false

namespace Bound

def text (b : Bound) : Text := SYS_UPDATED_ON ++ b.operator ++ b.stamp

def term (b : Bound) : EncodedTerm :=
  { field := SYS_UPDATED_ON, operator := b.operator, value := b.stamp, or := false }

theorem operator_plain (b : Bound) : '^' ∉ b.operator := by
  rcases b.isRange with h | h <;> rw [h] <;> decide

theorem text_eq (b : Bound) : ∃ r, b.text = 's' :: r := ⟨_, rfl⟩

theorem caret_not_mem_text (b : Bound) : '^' ∉ b.text := by
  intro h
  rw [text, List.mem_append, List.mem_append] at h
  rcases h with (h | h) | h
  · exact absurd h (by decide)
  · exact b.operator_plain h
  · exact (b.chars _ h).1 rfl

theorem text_getLast (b : Bound) : ∃ c, b.text.getLast? = some c ∧ isSpace c = false := by
  obtain ⟨c, hc, hs⟩ := b.last
  exact ⟨c, by rw [text, List.getLast?_append, hc, Option.some_or], hs⟩

theorem matchOperator_range (b : Bound) :
    matchOperator ENCODED_OPERATORS (b.operator ++ b.stamp) = some (b.operator, b.stamp) := by
  rcases b.isRange with h | h
  · rw [h]
    rfl
  · rw [h]
    have hfirst := b.first
    cases hs : b.stamp with
    | nil => rfl
    | cons c s =>
      -- `<` followed by `=` would be another operator
      have hc : c ≠ '=' := by simpa [hs] using hfirst
      simp [matchOperator, ENCODED_OPERATORS, List.isPrefixOf, Ne.symm hc]

theorem execEncodedTerm_cons {c : Char} {t : Text} (hc : isFieldStart c = true) :
    execEncodedTerm (c :: t) =
      match matchOperator ENCODED_OPERATORS (t.dropWhile isFieldChar) with
      | some (op, value) =>
        if value.any isLineEnd then none else some (c :: t.takeWhile isFieldChar, op, value)
      | none => none := if_pos hc

theorem termOf_text (b : Bound) : termOf b.text = some b.term := by
  have hop : isFieldChar (b.operator.headD ' ') = false := by
    rcases b.isRange with h | h <;> rw [h] <;> decide
  have hne : b.operator ≠ [] := by
    rcases b.isRange with h | h <;> rw [h] <;> decide
  obtain ⟨o, ops, ho⟩ := List.exists_cons_of_ne_nil hne
  rw [ho, List.headD_cons] at hop
  have hline : b.stamp.any isLineEnd = false := by
    rw [List.any_eq_false]
    exact fun c hc => by simp [(b.chars c hc).2]
  have htake : (SYS_UPDATED_ON ++ (b.operator ++ b.stamp)).tail.takeWhile isFieldChar
      = SYS_UPDATED_ON.tail := by
    show SYS_UPDATED_ON.tail ++ (b.operator ++ b.stamp).takeWhile isFieldChar = _
    rw [ho, List.cons_append, List.takeWhile_cons_of_neg (by simp [hop]), List.append_nil]
  have hdrop : (SYS_UPDATED_ON ++ (b.operator ++ b.stamp)).tail.dropWhile isFieldChar
      = b.operator ++ b.stamp := by
    show (b.operator ++ b.stamp).dropWhile isFieldChar = _
    rw [ho, List.cons_append, List.dropWhile_cons_of_neg (by simp [hop])]
  have hexec : execEncodedTerm b.text = some (SYS_UPDATED_ON, b.operator, b.stamp) := by
    rw [text, List.append_assoc]
    refine (execEncodedTerm_cons (c := 's') (t := (SYS_UPDATED_ON ++ (b.operator ++ b.stamp)).tail) (by decide)).trans ?_
    rw [hdrop, htake, matchOperator_range]
    simp only [hline, Bool.false_eq_true, if_false]
    rfl
  obtain ⟨r, hr⟩ := b.text_eq
  have hbody : termBody b.text = b.text := by
    rw [hr]
    rfl
  have hor : startsOr b.text = false := by
    rw [hr]
    rfl
  have hplain : ¬ (b.text = [] ∨ b.text = "EQ".toList ∨ isOrdering b.text = true) := by
    rw [hr]
    rintro (h | h | h)
    · cases h
    · exact absurd (List.cons.inj h).1 (by decide)
    · cases h
  rw [termOf, if_neg hplain, hbody, hexec, hor]
  rfl

theorem startsQuery_text (b : Bound) : startsQuery b.text = false := by
  obtain ⟨r, hr⟩ := b.text_eq
  rw [hr]
  rfl

end Bound

theorem isStampChar_spec {c : Char} (h : isStampChar c = true) :
    c ≠ '^' ∧ c ≠ '=' ∧ isLineEnd c = false := by
  refine ⟨?_, ?_, ?_⟩
  · rintro rfl
    exact absurd h (by decide)
  · rintro rfl
    exact absurd h (by decide)
  · by_contra hl
    simp only [isLineEnd, Bool.not_eq_false, Bool.or_eq_true, beq_iff_eq] at hl
    rcases hl with ((rfl | rfl) | hl) | hl
    · exact absurd h (by decide)
    · exact absurd h (by decide)
    · have : c = Char.ofNat 0x2028 := by rw [← hl, Char.ofNat_toNat]
      rw [this] at h
      exact absurd h (by decide)
    · have : c = Char.ofNat 0x2029 := by rw [← hl, Char.ofNat_toNat]
      rw [this] at h
      exact absurd h (by decide)

/-- `sys_updated_on` with an operator and a formatted instant. -/
def instantBound (operator : Text) (isRange : operator = ">=".toList ∨ operator = "<".toList)
    (calendar : Calendar) (timeZone : String) (instant : Int) : Bound where
  operator := operator
  isRange := isRange
  stamp := formatInTimeZone calendar instant timeZone
  first := fun h =>
    (isStampChar_spec (formatInTimeZone_chars _ _ _ '=' (List.mem_of_head? h))).2.1 rfl
  chars := fun c hc =>
    let h := isStampChar_spec (formatInTimeZone_chars _ _ _ c hc)
    ⟨h.1, h.2.2⟩
  last := by
    let second := (calendar.formatToParts instant timeZone).second
    obtain ⟨c, hc⟩ := Option.isSome_iff_exists.mp
      (List.getLast?_isSome.mpr second.nonempty)
    refine ⟨c, ?_, isDigit_not_space (second.digits c (List.mem_of_getLast? hc))⟩
    rw [formatInTimeZone, List.getLast?_append, List.getLast?_cons]
    show (some (second.chars.getLast?.getD ':')).or _ = _
    rw [hc]
    rfl

def lowerBound (calendar : Calendar) (timeZone : String) (instant : Int) : Bound :=
  instantBound ">=".toList (Or.inl rfl) calendar timeZone instant

def upperBound (calendar : Calendar) (timeZone : String) (instant : Int) : Bound :=
  instantBound "<".toList (Or.inr rfl) calendar timeZone instant

end Cadena.NativeQuery
