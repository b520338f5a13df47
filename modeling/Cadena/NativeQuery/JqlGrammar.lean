import Cadena.NativeQuery.JqlPieces
import Cadena.NativeQuery.JqlValidator

/-!
# The grammar of JQL conditions

The conditions of a query as a tree: OR binds weakest, then AND, then NOT;
parentheses group; a clause is a field, an operator and an operand. A tree
is `scoped` when every OR branch of it has an ANDed positive clause on a
scope field.
-/

namespace Cadena.NativeQuery

open Cadena.Base

/-! ## Clauses -/

inductive JqlOperator where
  | equals | notEquals | contains | notContains
  | greater | greaterEquals | less | lessEquals
  | in_ | notIn | is_ | isNot | was | wasNot | wasIn | wasNotIn | changed
  deriving DecidableEq

def JqlOperator.words : JqlOperator → List String
  | .equals => ["="]
  | .notEquals => ["!", "="]
  | .contains => ["~"]
  | .notContains => ["!", "~"]
  | .greater => [">"]
  | .greaterEquals => [">", "="]
  | .less => ["<"]
  | .lessEquals => ["<", "="]
  | .in_ => ["in"]
  | .notIn => ["not", "in"]
  | .is_ => ["is"]
  | .isNot => ["is", "not"]
  | .was => ["was"]
  | .wasNot => ["was", "not"]
  | .wasIn => ["was", "in"]
  | .wasNotIn => ["was", "not", "in"]
  | .changed => ["changed"]

/-- The operators that name what a field is. -/
def JqlOperator.positive : JqlOperator → Bool
  | .equals | .in_ | .was | .wasIn => true
  | _ => false

/-- Words that are neither a field nor part of an operand. -/
def JQL_RESERVED : List String := ["and", "or", "not", "in", "is", "was", "changed", "order"]

/-- A sign, or a word in lower case. -/
def JqlToken.lexeme : JqlToken → String
  | .symbol c => String.singleton c
  | .word w => String.ofList (w.map Char.toLower)
  | _ => ""

def isReserved (t : JqlToken) : Bool := decide (t.lexeme ∈ JQL_RESERVED)

/-- The name a field token stands for, as it was written. -/
def fieldName : JqlToken → Option Text
  | .str _ content => if content = [] then none else some content
  | .word w => if isReserved (.word w) then none else some w
  | _ => none

structure JqlClause where
  field : JqlToken
  operator : JqlOperator
  operatorTokens : List JqlToken
  operand : List JqlToken

def JqlClause.tokens (c : JqlClause) : List JqlToken := c.field :: c.operatorTokens ++ c.operand

def JqlClause.name (c : JqlClause) : Text := (fieldName c.field).getD []

/-- CHANGED alone needs no operand. -/
structure JqlClause.WellFormed (c : JqlClause) : Prop where
  field : (fieldName c.field).isSome = true
  operator : c.operatorTokens.map JqlToken.lexeme = c.operator.words
  operand : c.operand ≠ [] ∨ c.operator = .changed
  nested : Nested JqlToken.weight 0 0 c.operand
  free : ∀ t ∈ c.operand, isReserved t = false

def JqlClause.scoped (platform : Platform) (c : JqlClause) : Bool :=
  c.operator.positive && decide (platform.toLowerCase (String.ofList c.name) ∈ JQL_SCOPE_FIELDS)

/-! ## Trees -/

inductive JqlTree where
  | clause (c : JqlClause)
  | not (t : JqlTree)
  | and (t u : JqlTree)
  | or (t u : JqlTree)

/-- Every OR branch has an ANDed positive clause on a scope field; nothing
under NOT counts. -/
def JqlTree.scoped (platform : Platform) : JqlTree → Bool
  | .clause c => c.scoped platform
  | .not _ => false
  | .and t u => t.scoped platform || u.scoped platform
  | .or t u => t.scoped platform && u.scoped platform

/-- The leaf conditions. -/
def JqlTree.clauses : JqlTree → List JqlClause
  | .clause c => [c]
  | .not t => t.clauses
  | .and t u => t.clauses ++ u.clauses
  | .or t u => t.clauses ++ u.clauses

def isNot : JqlToken → Bool := isKeyword "not"

/-- What binds weaker stands outside. -/
inductive Level where
  | or
  | and
  | not

inductive Parses : Level → List JqlToken → JqlTree → Prop where
  | clause {c : JqlClause} : c.WellFormed → Parses .not c.tokens (.clause c)
  | group {ts : List JqlToken} {t : JqlTree} :
      Parses .or ts t → Parses .not (.openParen :: ts ++ [.closeParen]) t
  | not {k : JqlToken} {ts : List JqlToken} {t : JqlTree} :
      isNot k = true → Parses .not ts t → Parses .not (k :: ts) (.not t)
  | andOne {ts : List JqlToken} {t : JqlTree} : Parses .not ts t → Parses .and ts t
  | and {k : JqlToken} {as bs : List JqlToken} {t u : JqlTree} :
      Parses .not as t → isAnd k = true → Parses .and bs u → Parses .and (as ++ k :: bs) (.and t u)
  | orOne {ts : List JqlToken} {t : JqlTree} : Parses .and ts t → Parses .or ts t
  | or {k : JqlToken} {as bs : List JqlToken} {t u : JqlTree} :
      Parses .and as t → isOr k = true → Parses .or bs u → Parses .or (as ++ k :: bs) (.or t u)

/-- A query is its conditions, ORDER BY and what it sorts by; without
conditions it matches every issue. -/
inductive ReadsQuery : List JqlToken → Option JqlTree → Prop where
  | conditions {ts : List JqlToken} {t : JqlTree} : Parses .or ts t → ReadsQuery ts (some t)
  | ordered {ts sort : List JqlToken} {t : JqlTree} {order by_ : JqlToken} : Parses .or ts t →
      isOrder order = true → by_.lexeme = "by" → sort ≠ [] →
        ReadsQuery (ts ++ order :: by_ :: sort) (some t)
  | everything {sort : List JqlToken} {order by_ : JqlToken} :
      isOrder order = true → by_.lexeme = "by" → sort ≠ [] →
        ReadsQuery (order :: by_ :: sort) none

/-- A negation sign stands directly before the sign it negates. -/
def SignsJoined (p q : JqlPiece) : Prop :=
  p = .tok (.symbol '!') → q = .tok (.symbol '=') ∨ q = .tok (.symbol '~')

instance (p q : JqlPiece) : Decidable (SignsJoined p q) := inferInstanceAs (Decidable (_ → _))

def ReadsText (text : Text) (t : Option JqlTree) : Prop :=
  ∃ ps, jqlPieces text = some ps ∧ ps.IsChain SignsJoined ∧ ReadsQuery (tokensOf ps) t

theorem isKeyword_eq {keyword : String} {t : JqlToken} (h : isKeyword keyword t = true) :
    ∃ w, t = .word w ∧ w.map Char.toLower = keyword.toList := by
  cases t with
  | word w => exact ⟨w, rfl, by simpa [isKeyword] using h⟩
  | str quote content => cases h
  | openParen => cases h
  | closeParen => cases h
  | symbol c => cases h

theorem isKeyword_lexeme {keyword : String} {t : JqlToken} (h : isKeyword keyword t = true) :
    t.lexeme = keyword := by
  obtain ⟨w, rfl, hw⟩ := isKeyword_eq h
  rw [JqlToken.lexeme, hw, String.ofList_toList]

theorem not_isKeyword_of_free {keyword : String} {t : JqlToken} (hmem : keyword ∈ JQL_RESERVED)
    (h : isReserved t = false) : isKeyword keyword t = false := by
  rw [Bool.eq_false_iff]
  intro hk
  rw [isReserved, isKeyword_lexeme hk, decide_eq_false_iff_not] at h
  exact h hmem

theorem JqlOperator.words_ne_nil (op : JqlOperator) : op.words ≠ [] := by cases op <;> simp [words]

theorem weight_of_lexeme {t : JqlToken} (h : t.lexeme ≠ "") : t.weight = 0 := by
  cases t with
  | str quote content => rfl
  | openParen => exact absurd rfl h
  | closeParen => exact absurd rfl h
  | symbol c => rfl
  | word w => rfl

theorem JqlOperator.mem_words {op : JqlOperator} {s : String} (h : s ∈ op.words) :
    s ≠ "" ∧ s ≠ "and" ∧ s ≠ "or" ∧ s ≠ "order" := by
  have hall : ∀ op : JqlOperator, op.words.all (fun s =>
      decide (s ≠ "" ∧ s ≠ "and" ∧ s ≠ "or" ∧ s ≠ "order")) = true := by
    intro op
    cases op <;> decide
  exact of_decide_eq_true (List.all_eq_true.mp (hall op) s h)

end Cadena.NativeQuery
