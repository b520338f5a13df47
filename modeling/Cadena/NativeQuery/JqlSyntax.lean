import Cadena.Base.Nesting
import Cadena.Base.Text

/-!
# The reading of a JQL text

JQL by its lexical rules: a string stands in single or double quotes and
a backslash in it escapes the next character; parentheses nest; AND binds
tighter than OR; ORDER BY ends the conditions. This is the provider's
reading, not the validator's, whose scanner knows no escapes.
-/

namespace Cadena.NativeQuery

open Cadena.Base

/-! ## Tokens -/

inductive JqlToken where
  | str (quote : Char) (content : Text)
  | openParen
  | closeParen
  | symbol (c : Char)
  | word (w : Text)
  deriving DecidableEq

def JqlToken.weight : JqlToken → Int
  | .openParen => 1
  | .closeParen => -1
  | _ => 0

def isQuote (c : Char) : Bool := c == '"' || c == '\''

def isJqlSymbol (c : Char) : Bool :=
  c == '=' || c == '!' || c == '<' || c == '>' || c == '~' || c == ','

/-- What the lexer is in the middle of. -/
inductive Pending where
  | none
  | word (w : Text)
  | str (quote : Char) (content : Text) (escaped : Bool)
  deriving DecidableEq

def Pending.flush : Pending → List JqlToken
  | .word w => [.word w]
  | _ => []

structure JqlLexer where
  out : List JqlToken
  pending : Pending
  deriving DecidableEq

def JqlLexer.start : JqlLexer := { out := [], pending := .none }

/-- One character outside a string: the tokens it completes and what the
lexer is in then. -/
def plainStep (p : Pending) (c : Char) : List JqlToken × Pending :=
  if isQuote c then (p.flush, .str c [] false)
  else if c = '(' then (p.flush ++ [.openParen], .none)
  else if c = ')' then (p.flush ++ [.closeParen], .none)
  else if isSpace c then (p.flush, .none)
  else if isJqlSymbol c then (p.flush ++ [.symbol c], .none)
  else match p with
    | .word w => ([], .word (w ++ [c]))
    | _ => ([], .word [c])

def pendingStep (p : Pending) (c : Char) : List JqlToken × Pending :=
  match p with
  | .str quote content escaped =>
    if escaped then ([], .str quote (content ++ [c]) false)
    else if c = '\\' then ([], .str quote (content ++ [c]) true)
    else if c = quote then ([.str quote content], .none)
    else ([], .str quote (content ++ [c]) false)
  | p => plainStep p c

def lexStep (s : JqlLexer) (c : Char) : JqlLexer :=
  { out := s.out ++ (pendingStep s.pending c).1, pending := (pendingStep s.pending c).2 }

def lexFrom (s : JqlLexer) (t : Text) : JqlLexer := t.foldl lexStep s

/-- A text that ends inside a string has no reading. -/
def JqlLexer.finish (s : JqlLexer) : Option (List JqlToken) :=
  match s.pending with
  | .str _ _ _ => none
  | p => some (s.out ++ p.flush)

def lexJql (t : Text) : Option (List JqlToken) := (lexFrom .start t).finish

/-! ## Structure -/

def isKeyword (keyword : String) : JqlToken → Bool
  | .word w => w.map Char.toLower = keyword.toList
  | _ => false

def isAnd : JqlToken → Bool := isKeyword "and"

def isOr : JqlToken → Bool := isKeyword "or"

/-- ORDER is reserved: as a bare word it can only begin `ORDER BY`. -/
def isOrder : JqlToken → Bool := isKeyword "order"

def Balanced (tokens : List JqlToken) : Prop := Nested JqlToken.weight 0 0 tokens

instance (tokens : List JqlToken) : Decidable (Balanced tokens) :=
  inferInstanceAs (Decidable (Nested _ _ _ _))

/-- The pieces at ORDER BY, at OR and at AND that stand outside parentheses. -/
def orderParts (tokens : List JqlToken) : List (List JqlToken) :=
  splitTop JqlToken.weight isOrder 0 tokens

def orBranches (tokens : List JqlToken) : List (List JqlToken) :=
  splitTop JqlToken.weight isOr 0 tokens

def andConjuncts (tokens : List JqlToken) : List (List JqlToken) :=
  splitTop JqlToken.weight isAnd 0 tokens

/-- The conditions of a query: all of it, or what stands before its one
ORDER BY. -/
def conditionsOf (tokens : List JqlToken) : Option (List JqlToken) :=
  match orderParts tokens with
  | [body] => some body
  | [body, _] => some body
  | _ => none

/-- The text is a conjunction, and these clauses are among its conjuncts. -/
def ParsesWith (clauses : List Text) (jql : Text) : Prop :=
  ∃ tokens body, lexJql jql = some tokens ∧ Balanced tokens ∧
    conditionsOf tokens = some body ∧ orBranches body = [body] ∧
      ∀ clause ∈ clauses, ∃ c, lexJql clause = some c ∧ c ∈ andConjuncts body

/-- An issue matches when all the conjuncts of some branch hold of it;
`holds` says which do. -/
def Matches (holds : List JqlToken → Prop) (jql : Text) : Prop :=
  ∃ tokens body, lexJql jql = some tokens ∧ Balanced tokens ∧
    conditionsOf tokens = some body ∧
      ∃ branch ∈ orBranches body, ∀ c ∈ andConjuncts branch, holds c

theorem ParsesWith.holds {clauses : List Text} {jql : Text} (h : ParsesWith clauses jql)
    {holds : List JqlToken → Prop} (hm : Matches holds jql) :
    ∀ clause ∈ clauses, ∃ c, lexJql clause = some c ∧ holds c := by
  obtain ⟨tokens, body, hlex, -, hbody, hone, hall⟩ := h
  obtain ⟨tokens', body', hlex', -, hbody', branch, hbranch, hholds⟩ := hm
  obtain rfl : tokens = tokens' := Option.some.inj (hlex.symm.trans hlex')
  obtain rfl : body = body' := Option.some.inj (hbody.symm.trans hbody')
  rw [hone, List.mem_singleton] at hbranch
  intro clause hclause
  obtain ⟨c, hc, hmem⟩ := hall clause hclause
  exact ⟨c, hc, hholds c (hbranch ▸ hmem)⟩

theorem lexFrom_append (s : JqlLexer) (a b : Text) :
    lexFrom s (a ++ b) = lexFrom (lexFrom s a) b := by
  rw [lexFrom, List.foldl_append]
  rfl

theorem lexFrom_cons (s : JqlLexer) (c : Char) (t : Text) :
    lexFrom s (c :: t) = lexFrom (lexStep s c) t := rfl

theorem lexFrom_out (t : Text) (out : List JqlToken) (p : Pending) :
    lexFrom { out, pending := p } t
      = { out := out ++ (lexFrom { out := [], pending := p } t).out,
          pending := (lexFrom { out := [], pending := p } t).pending } := by
  induction t generalizing out p with
  | nil => simp [lexFrom]
  | cons c t ih =>
    rw [lexFrom_cons, lexFrom_cons, lexStep, lexStep, ih (out ++ _), ih ([] ++ _)]
    simp

theorem lexJql_append {a b : Text} {tokens : List JqlToken}
    (ha : lexFrom .start a = { out := tokens, pending := .none }) :
    lexJql (a ++ b) = (lexJql b).map (tokens ++ ·) := by
  rw [lexJql, lexFrom_append, ha, lexFrom_out, lexJql]
  cases hp : (lexFrom JqlLexer.start b).pending with
  | none => simp [JqlLexer.finish, JqlLexer.start] at hp ⊢; simp [hp]
  | word w => simp [JqlLexer.finish, JqlLexer.start] at hp ⊢; simp [hp]
  | str quote content escaped => simp [JqlLexer.finish, JqlLexer.start] at hp ⊢; simp [hp]

end Cadena.NativeQuery
