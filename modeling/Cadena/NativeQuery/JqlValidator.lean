import Cadena.NativeQuery.Validation
import Mathlib.Algebra.Order.BigOperators.Group.List

/-!
# The JQL validator

`validateJql` and the lexical helpers of `native-query-validator.ts`. The
helpers scan a text for quotes and parentheses without knowing escapes.
-/

namespace Cadena.NativeQuery

open Cadena.Base

/-! ## Lexical helpers -/

/-- `balanceProblem`: `brackets` is set for WIQL only. -/
def balanceFrom (brackets : Bool) : Nat → Option Char → Text → Option String
  | _, some quote, [] =>
    some (if quote = ']' then "a [field] bracket is not closed"
      else "a quoted string is not closed")
  | depth, none, [] => if depth > 0 then some "an opening parenthesis is not closed" else none
  | depth, some quote, char :: rest =>
    balanceFrom brackets depth (if char = quote then none else some quote) rest
  | depth, none, char :: rest =>
    if char = '"' ∨ char = '\'' then balanceFrom brackets depth (some char) rest
    else if brackets ∧ char = '[' then balanceFrom brackets depth (some ']') rest
    else if char = '(' then balanceFrom brackets (depth + 1) none rest
    else if char = ')' then
      match depth with
      | 0 => some "a closing parenthesis has no matching opening parenthesis"
      | depth + 1 => balanceFrom brackets depth none rest
    else balanceFrom brackets depth none rest

def balanceProblem (text : Text) (brackets : Bool) : Option String :=
  balanceFrom brackets 0 none text

/-- The text behind a word, matched without regard to case; the word is
given in lower case. -/
def stripWord : Text → Text → Option Text
  | [], text => some text
  | p :: word, c :: text => if c.toLower = p then stripWord word text else none
  | _ :: _, [] => none

/-- `(?=[\s(]|$)` -/
def keywordEnds : Text → Bool
  | [] => true
  | c :: _ => isSpace c || c == '('

def matchKeyword (keyword : String) (text : Text) : Option Nat :=
  match stripWord keyword.toList text with
  | some rest => if keywordEnds rest then some keyword.length else none
  | none => none

/-- `order\s+by` -/
def matchOrderBy (text : Text) : Option Nat :=
  match stripWord "order".toList text with
  | some rest =>
    let spaces := rest.takeWhile isSpace
    if spaces = [] then none
    else match stripWord "by".toList (rest.drop spaces.length) with
      | some rest => if keywordEnds rest then some (5 + spaces.length + 2) else none
      | none => none
  | none => none

/-- The loop of `splitTopLevel`: `skip` characters of a keyword are still
to be passed over, `part` is the text since the last one. -/
def splitFrom (matcher : Text → Option Nat) (brackets : Bool) :
    Nat → Int → Option Char → Char → Text → Text → List Text
  | _, _, _, _, part, [] => [part]
  | skip + 1, depth, quote, _, part, char :: rest =>
    splitFrom matcher brackets skip depth quote char part rest
  | 0, depth, some quote, _, part, char :: rest =>
    splitFrom matcher brackets 0 depth (if char = quote then none else some quote) char
      (part ++ [char]) rest
  | 0, depth, none, previous, part, char :: rest =>
    if char = '"' ∨ char = '\'' then
      splitFrom matcher brackets 0 depth (some char) char (part ++ [char]) rest
    else if brackets ∧ char = '[' then
      splitFrom matcher brackets 0 depth (some ']') char (part ++ [char]) rest
    else if char = '(' then
      splitFrom matcher brackets 0 (depth + 1) none char (part ++ [char]) rest
    else if char = ')' then
      splitFrom matcher brackets 0 (depth - 1) none char (part ++ [char]) rest
    else
      match (if depth = 0 ∧ (isSpace previous ∨ previous = ')') ∧ part ≠ []
        then matcher (char :: rest) else none) with
      | some hit => part :: splitFrom matcher brackets (hit - 1) depth none char [] rest
      | none => splitFrom matcher brackets 0 depth none char (part ++ [char]) rest

def splitTopLevel (matcher : Text → Option Nat) (brackets : Bool) (text : Text) : List Text :=
  ((splitFrom matcher brackets 0 0 none ' ' [] text).map trim).filter (· ≠ [])

/-- Whether the first parenthesis is closed by the last one. -/
def wrapsAllFrom : Int → Option Char → Text → Bool
  | _, _, [] => true
  | depth, some quote, char :: rest =>
    wrapsAllFrom depth (if char = quote then none else some quote) rest
  | depth, none, char :: rest =>
    if char = '"' ∨ char = '\'' then wrapsAllFrom depth (some char) rest
    else if char = '(' then wrapsAllFrom (depth + 1) none rest
    else if char = ')' then
      if depth - 1 = 0 ∧ rest ≠ [] then false else wrapsAllFrom (depth - 1) none rest
    else wrapsAllFrom depth none rest

/-- One turn of the loop of `stripOuterParens`. -/
def stripOnce (current : Text) : Option Text :=
  if current.head? = some '(' ∧ current.getLast? = some ')' ∧ wrapsAllFrom 0 none current then
    some (trim (current.drop 1).dropLast)
  else none

/-- Every turn takes two characters away. -/
def stripOuterFrom : Nat → Text → Text
  | 0, current => current
  | fuel + 1, current =>
    match stripOnce current with
    | some inner => stripOuterFrom fuel inner
    | none => current

def stripOuterParens (text : Text) : Text := stripOuterFrom text.length (trim text)

/-- `isScoped`, at most `fuel` levels deep (`isScopedFrom_fuel`). -/
def isScopedFrom (isSelective : Text → Bool) (brackets : Bool) : Nat → Text → Bool
  | 0, _ => false
  | fuel + 1, expression =>
    let stripped := stripOuterParens expression
    let branches := splitTopLevel (matchKeyword "or") brackets stripped
    if branches.length > 1 then branches.all (isScopedFrom isSelective brackets fuel)
    else
      let conjuncts := splitTopLevel (matchKeyword "and") brackets stripped
      if conjuncts.length > 1 then conjuncts.any (isScopedFrom isSelective brackets fuel)
      else isSelective stripped

def isScoped (expression : Text) (isSelective : Text → Bool) (brackets : Bool) : Bool :=
  isScopedFrom isSelective brackets (expression.length + 1) expression

/-- `/^not\s+/i` -/
def stripNot (text : Text) : Option Text :=
  match stripWord "not".toList text with
  | some rest => if (rest.takeWhile isSpace) = [] then none else some (rest.dropWhile isSpace)
  | none => none

def leafPredicatesFrom (brackets : Bool) : Nat → Text → List Text
  | 0, _ => []
  | fuel + 1, expression =>
    let stripped := stripOuterParens expression
    match stripNot stripped with
    | some negated => leafPredicatesFrom brackets fuel negated
    | none =>
      let branches := splitTopLevel (matchKeyword "or") brackets stripped
      if branches.length > 1 then branches.flatMap (leafPredicatesFrom brackets fuel)
      else
        let conjuncts := splitTopLevel (matchKeyword "and") brackets stripped
        if conjuncts.length > 1 then conjuncts.flatMap (leafPredicatesFrom brackets fuel)
        else if stripped = [] then [] else [stripped]

def leafPredicates (expression : Text) (brackets : Bool) : List Text :=
  leafPredicatesFrom brackets (expression.length + 1) expression

/-! ## JQL predicates -/

/-- `\w` -/
def isWordChar (c : Char) : Bool := c.isAlphanum || c == '_'

/-- `\b` behind a word character. -/
def atBoundary : Text → Bool
  | [] => true
  | c :: _ => !isWordChar c

/-- A nonempty run up to the closing quote. -/
def quotedField (quote : Char) : Text → List (Text × Text)
  | [] => []
  | c :: text =>
    let name := text.takeWhile (· ≠ quote)
    match text.drop name.length with
    | q :: rest => if c = quote ∧ name ≠ [] then [(c :: name ++ [q], rest)] else []
    | [] => []

/-- `cf\[\d+\]` -/
def customField (text : Text) : List (Text × Text) :=
  match stripWord "cf[".toList text with
  | some rest =>
    let digits := rest.takeWhile Char.isDigit
    match rest.drop digits.length with
    | ']' :: after =>
      if digits ≠ [] then [(text.take (digits.length + 4), after)] else []
    | _ => []
  | none => []

/-- `[A-Za-z][\w.]*`, the longest match first. -/
def plainField : Text → List (Text × Text)
  | [] => []
  | c :: text =>
    if c.isAlpha then
      let run := (text.takeWhile fun d => isWordChar d || d == '.').length
      (List.range (run + 1)).reverse.map fun n => (c :: text.take n, text.drop n)
    else []

/-- What `("[^"]+"|'[^']+'|cf\[\d+\]|[A-Za-z][\w.]*)` tries, in order, with
the text behind it. -/
def fieldCandidates (predicate : Text) : List (Text × Text) :=
  quotedField '"' predicate ++ quotedField '\'' predicate ++ customField predicate
    ++ plainField predicate

/-- A word of the operators, with `\b` behind it. -/
def startsWithWord (word : String) (text : Text) : Bool :=
  match stripWord word.toList text with
  | some rest => atBoundary rest
  | none => false

/-- The first field behind which, after white space, an operator stands. -/
def fieldBefore (operator : Text → Bool) (predicate : Text) : Option Text :=
  ((fieldCandidates predicate).find? fun (_, rest) => operator (rest.dropWhile isSpace)).map (·.1)

/-- `field.replace(/^["']|["']$/g, '')` -/
def unquote (field : Text) : Text :=
  let isMark := fun c => c = '"' || c = '\''
  let opened := if (field.head?.map isMark).getD false then field.drop 1 else field
  if (opened.getLast?.map isMark).getD false then opened.dropLast else opened

def JQL_SCOPE_FIELDS : List String :=
  ["project", "key", "issuekey", "id", "issue", "filter", "parent", "epic link", "sprint",
    "component", "fixversion", "labels", "assignee", "reporter", "team"]

/-- `=|in\b|was\b` -/
def isScopeOperator (text : Text) : Bool :=
  text.head? = some '=' || startsWithWord "in" text || startsWithWord "was" text

def jqlSelective (platform : Platform) (predicate : Text) : Bool :=
  match fieldBefore isScopeOperator predicate with
  | some field => decide (platform.toLowerCase (String.ofList (unquote field)) ∈ JQL_SCOPE_FIELDS)
  | none => false

/-- `!?=|!?~|>=|<=|>|<|not\s+in\b|in\b|is\b|was\b|changed\b` -/
def isJqlOperator (text : Text) : Bool :=
  text.head? = some '=' || text.head? = some '~' || text.head? = some '>' || text.head? = some '<'
    || "!=".toList.isPrefixOf text || "!~".toList.isPrefixOf text
    || (match stripNot text with | some rest => startsWithWord "in" rest | none => false)
    || startsWithWord "in" text || startsWithWord "is" text || startsWithWord "was" text
    || startsWithWord "changed" text

def jqlFieldReferences (body : Text) : List String :=
  (leafPredicates body false).filterMap fun predicate =>
    (fieldBefore isJqlOperator predicate).map fun field => String.ofList (unquote field)

/-! ## The validator -/

/-- Whether the test holds at some position; it is given the character
before the position. -/
def testAnywhere (test : Option Char → Text → Bool) : Option Char → Text → Bool
  | previous, [] => test previous []
  | previous, c :: text => test previous (c :: text) || testAnywhere test (some c) text

/-- `/\bin\s*\(\s*\)/i` -/
def hasEmptyIn (text : Text) : Bool :=
  testAnywhere (fun previous t =>
    !(previous.map isWordChar).getD false &&
      match stripWord "in".toList t with
      | some rest =>
        match rest.dropWhile isSpace with
        | '(' :: inner => (inner.dropWhile isSpace).head? = some ')'
        | _ => false
      | none => false) none text

/-- `>=|<=|>|<|=|!=` -/
def isComparison (text : Text) : Bool :=
  text.head? = some '>' || text.head? = some '<' || text.head? = some '='
    || "!=".toList.isPrefixOf text

/-- `(^|[\s(])(updated|updateddate)\s*(>=|<=|>|<|=|!=)`, or `updated` with
`after`, `before`, `during` or `by`. -/
def filtersOnUpdated (text : Text) : Bool :=
  testAnywhere (fun previous t =>
    (match previous with
      | none => true
      | some c => isSpace c || c == '(') &&
      match stripWord "updated".toList t with
      | some rest =>
        isComparison (rest.dropWhile isSpace)
          || (match stripWord "date".toList rest with
            | some rest => isComparison (rest.dropWhile isSpace)
            | none => false)
          || ((rest.takeWhile isSpace ≠ []) &&
            let after := rest.dropWhile isSpace
            startsWithWord "after" after || startsWithWord "before" after
              || startsWithWord "during" after || startsWithWord "by" after)
      | none => false) none text

def validateJql (platform : Platform) (text : Text) (catalog : Option QueryIndexCatalog) :
    NativeQueryValidation :=
  let errors := basicProblems text
  if errors ≠ [] then finish .jql errors
  else match balanceProblem text false with
    | some unbalanced =>
      finish .jql [issue .syntax_ s!"Malformed JQL: {unbalanced}."
        "Fix the quoting or parentheses."]
    | none =>
      if hasEmptyIn text then
        finish .jql [issue .syntax_ "Malformed JQL: an IN list is empty."
          "List at least one value, e.g. project in (\"CAD\")."]
      else
        let parts := splitTopLevel matchOrderBy false text
        let errors :=
          (if parts.length > 1 then
            [issue .orderByNotAllowed "The query has its own ORDER BY."
              "Remove it. Cadena orders scheduled queries by \"updated ASC, key ASC\" so the watermark advances safely."]
            else [])
          ++ (if filtersOnUpdated text then
            [issue .watermarkConflict
              "The query filters on \"updated\", which Cadena manages as the watermark."
              "Remove the \"updated\" clause. Cadena adds \"updated >= <watermark>\"; set start_from to control where the first run begins."]
            else [])
        let body := parts.headD []
        let scope :=
          if errors = [] ∧ isScoped body (jqlSelective platform) false = false then
            [issue .unboundedScan
              "The query has no selective scope, so each run would read every issue changed anywhere on the Jira site."
              "Add a positive scope to every OR branch, for example project = \"CAD\" (or project in (\"CAD\", \"OPS\")). Negations, status, priority and text searches do not count as a scope."]
          else []
        finish .jql
          (errors ++ scope ++ indexProblems platform (jqlFieldReferences body) catalog)

/-! ## The recursion ends

The pieces of a split, and what stands inside parentheses, are shorter
than the expression they come from, so that the number of levels given to
`isScopedFrom` and `leafPredicatesFrom` is never used up.
-/

theorem trim_length_le (t : Text) : (trim t).length ≤ t.length := by
  have hstart : (trimStart t).length ≤ t.length := (List.dropWhile_sublist _).length_le
  have hend : (trimEnd (trimStart t)).length ≤ (trimStart t).length := by
    rw [trimEnd, List.length_reverse, ← @List.length_reverse _ (trimStart t)]
    exact (List.dropWhile_sublist _).length_le
  exact hend.trans hstart

theorem splitFrom_length (matcher : Text → Option Nat) (brackets : Bool) (text : Text) :
    ∀ (skip : Nat) (depth : Int) (quote : Option Char) (previous : Char) (part : Text),
      ((splitFrom matcher brackets skip depth quote previous part text).map List.length).sum
        + (splitFrom matcher brackets skip depth quote previous part text).length
      ≤ part.length + text.length + 1 := by
  induction text with
  | nil =>
    intro skip depth quote previous part
    cases skip <;> cases quote <;> simp [splitFrom]
  | cons char rest ih =>
    intro skip depth quote previous part
    have hkeep : ∀ (depth : Int) (quote : Option Char),
        ((splitFrom matcher brackets 0 depth quote char (part ++ [char]) rest).map
            List.length).sum
          + (splitFrom matcher brackets 0 depth quote char (part ++ [char]) rest).length
        ≤ part.length + (char :: rest).length + 1 := fun depth quote => by
      have := ih 0 depth quote char (part ++ [char])
      simp only [List.length_append, List.length_cons, List.length_nil] at this ⊢
      omega
    cases skip with
    | succ skip =>
      have := ih skip depth quote char part
      simp only [splitFrom, List.length_cons]
      omega
    | zero =>
      cases quote with
      | some quote => exact hkeep _ _
      | none =>
        rw [splitFrom]
        split_ifs
        · exact hkeep _ _
        · exact hkeep _ _
        · exact hkeep _ _
        · exact hkeep _ _
        all_goals
          split
          case h_1 hit _ =>
            have := ih (hit - 1) depth none char []
            simp only [List.map_cons, List.sum_cons, List.length_cons, List.length_nil]
              at this ⊢
            omega
          case h_2 => exact hkeep _ _

theorem length_lt_of_mem_splitTopLevel {matcher : Text → Option Nat} {brackets : Bool}
    {text part : Text} (hpart : part ∈ splitTopLevel matcher brackets text)
    (hmany : (splitTopLevel matcher brackets text).length > 1) : part.length < text.length := by
  have hlen := splitFrom_length matcher brackets text 0 0 none ' ' []
  generalize hpieces : splitFrom matcher brackets 0 0 none ' ' [] text = pieces at hlen
  rw [splitTopLevel, hpieces] at hpart hmany
  have hcount := lt_of_lt_of_le hmany (List.length_filter_le _ _)
  rw [List.length_map] at hcount
  obtain ⟨piece, hpiece, rfl⟩ := List.mem_map.mp (List.mem_filter.mp hpart).1
  have hsum : piece.length ≤ (pieces.map List.length).sum :=
    List.le_sum_of_mem (List.mem_map_of_mem hpiece)
  have := trim_length_le piece
  simp only [List.length_nil] at hlen
  omega

theorem stripOuterParens_length_le (text : Text) : (stripOuterParens text).length ≤ text.length := by
  have hfrom : ∀ (fuel : Nat) (current : Text),
      (stripOuterFrom fuel current).length ≤ current.length := by
    intro fuel
    induction fuel with
    | zero => exact fun current => le_refl _
    | succ fuel ih =>
      intro current
      rw [stripOuterFrom]
      split
      case h_1 inner hinner =>
        rw [stripOnce] at hinner
        split at hinner
        case isFalse => cases hinner
        case isTrue =>
          obtain rfl := Option.some.inj hinner
          have := trim_length_le (current.drop 1).dropLast
          have := ih (trim (current.drop 1).dropLast)
          simp only [List.length_dropLast, List.length_drop] at *
          omega
      case h_2 => exact le_refl _
  exact (hfrom _ _).trans (trim_length_le text)

theorem all_congr_of_mem {parts : List Text} {f g : Text → Bool}
    (h : ∀ part ∈ parts, f part = g part) : parts.all f = parts.all g := by
  rw [Bool.eq_iff_iff, List.all_eq_true, List.all_eq_true]
  exact forall₂_congr fun part hp => by rw [h part hp]

theorem any_congr_of_mem {parts : List Text} {f g : Text → Bool}
    (h : ∀ part ∈ parts, f part = g part) : parts.any f = parts.any g := by
  rw [Bool.eq_iff_iff, List.any_eq_true, List.any_eq_true]
  exact exists_congr fun part => and_congr_right fun hp => by rw [h part hp]

theorem stripWord_length {word text rest : Text} (h : stripWord word text = some rest) :
    rest.length + word.length = text.length := by
  induction word generalizing text with
  | nil =>
    obtain rfl : text = rest := by simpa [stripWord] using h
    simp
  | cons p word ih =>
    cases text with
    | nil => cases h
    | cons c text =>
      rw [stripWord] at h
      split at h
      case isTrue =>
        have := ih h
        simp only [List.length_cons]
        omega
      case isFalse => cases h

theorem stripNot_length {text negated : Text} (h : stripNot text = some negated) :
    negated.length < text.length := by
  rw [stripNot] at h
  split at h
  case h_1 rest hrest =>
    have hlen := stripWord_length hrest
    split at h
    case isTrue => cases h
    case isFalse =>
      obtain rfl := Option.some.inj h
      have := (List.dropWhile_sublist isSpace (l := rest)).length_le
      have hthree : "not".toList.length = 3 := rfl
      omega
  case h_2 => cases h

section Parts

variable {matcher : Text → Option Nat} {brackets : Bool} {expression part : Text}
  (hmany : (splitTopLevel matcher brackets (stripOuterParens expression)).length > 1)
  (hpart : part ∈ splitTopLevel matcher brackets (stripOuterParens expression))

include hmany hpart

theorem part_shorter : part.length < expression.length :=
  (length_lt_of_mem_splitTopLevel hpart hmany).trans_le (stripOuterParens_length_le expression)

theorem parts_congr {β : Type} {n m : Nat} {f : Nat → Text → β}
    (hshorter : ∀ {m : Nat} {part : Text}, part.length < n → part.length < m → f n part = f m part)
    (hn : expression.length < n + 1) (hm : expression.length < m + 1) : f n part = f m part := by
  have hlt := part_shorter hmany hpart
  exact hshorter (by omega) (by omega)

end Parts

theorem isScopedFrom_fuel (isSelective : Text → Bool) (brackets : Bool) :
    ∀ {n m : Nat} {expression : Text}, expression.length < n → expression.length < m →
      isScopedFrom isSelective brackets n expression
        = isScopedFrom isSelective brackets m expression := by
  intro n
  induction n with
  | zero => intro m expression h; omega
  | succ n ih =>
    intro m expression hn hm
    cases m with
    | zero => omega
    | succ m =>
      rw [isScopedFrom, isScopedFrom]
      dsimp only
      split_ifs with hor hand
      · exact all_congr_of_mem fun part hp => parts_congr hor hp ih hn hm
      · exact any_congr_of_mem fun part hp => parts_congr hand hp ih hn hm
      · rfl

theorem leafPredicatesFrom_fuel (brackets : Bool) :
    ∀ {n m : Nat} {expression : Text}, expression.length < n → expression.length < m →
      leafPredicatesFrom brackets n expression = leafPredicatesFrom brackets m expression := by
  intro n
  induction n with
  | zero => intro m expression h; omega
  | succ n ih =>
    intro m expression hn hm
    cases m with
    | zero => omega
    | succ m =>
      have hstrip := stripOuterParens_length_le expression
      rw [leafPredicatesFrom, leafPredicatesFrom]
      cases hnot : stripNot (stripOuterParens expression) with
      | some negated =>
        have hshort := stripNot_length hnot
        exact ih (by omega) (by omega)
      | none =>
        dsimp only
        split_ifs with hor hand
        · exact List.flatMap_congr fun part hp => parts_congr hor hp ih hn hm
        · exact List.flatMap_congr fun part hp => parts_congr hand hp ih hn hm
        · rfl
        · rfl

end Cadena.NativeQuery
