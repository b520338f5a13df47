import Cadena.NativeQuery.JqlSyntax
import Mathlib.Data.List.Chain

/-!
# A JQL text as pieces

The lexer drops the white space between tokens. Here it is kept: a text
with a reading is the concatenation of its tokens and of the spaces
between them (`spell_pieces`), so that what a scanner does on the text can
be said of the tokens.
-/

namespace Cadena.NativeQuery

open Cadena.Base

/-- A token, or a character of white space between tokens. -/
inductive JqlPiece where
  | gap (c : Char)
  | tok (t : JqlToken)
  deriving DecidableEq

def JqlToken.spell : JqlToken → Text
  | .str quote content => quote :: content ++ [quote]
  | .openParen => ['(']
  | .closeParen => [')']
  | .symbol c => [c]
  | .word w => w

def JqlPiece.spell : JqlPiece → Text
  | .gap c => [c]
  | .tok t => t.spell

def spell (ps : List JqlPiece) : Text := ps.flatMap JqlPiece.spell

def JqlPiece.token : JqlPiece → Option JqlToken
  | .gap _ => none
  | .tok t => some t

def tokensOf (ps : List JqlPiece) : List JqlToken := ps.filterMap JqlPiece.token

@[simp] theorem spell_nil : spell [] = [] := rfl

@[simp] theorem spell_cons (p : JqlPiece) (ps : List JqlPiece) :
    spell (p :: ps) = p.spell ++ spell ps := rfl

@[simp] theorem spell_append (ps qs : List JqlPiece) : spell (ps ++ qs) = spell ps ++ spell qs := by
  simp [spell]

theorem spell_tok (ts : List JqlToken) : spell (ts.map .tok) = ts.flatMap JqlToken.spell := by
  induction ts with
  | nil => rfl
  | cons t ts ih => simp [JqlPiece.spell, ih]

@[simp] theorem tokensOf_nil : tokensOf [] = [] := rfl

@[simp] theorem tokensOf_gap (c : Char) (ps : List JqlPiece) :
    tokensOf (.gap c :: ps) = tokensOf ps := rfl

@[simp] theorem tokensOf_tok (t : JqlToken) (ps : List JqlPiece) :
    tokensOf (.tok t :: ps) = t :: tokensOf ps := rfl

@[simp] theorem tokensOf_append (ps qs : List JqlPiece) :
    tokensOf (ps ++ qs) = tokensOf ps ++ tokensOf qs := by
  simp [tokensOf]

@[simp] theorem tokensOf_map_tok (ts : List JqlToken) : tokensOf (ts.map .tok) = ts := by
  induction ts with
  | nil => rfl
  | cons t ts ih => simp [ih]

def gapOf (p : Pending) (c : Char) : List JqlPiece :=
  match p with
  | .str _ _ _ => []
  | _ => if isSpace c then [.gap c] else []

def pieceStep (p : Pending) (c : Char) : List JqlPiece :=
  (pendingStep p c).1.map .tok ++ gapOf p c

def piecesFrom : Pending → Text → Option (List JqlPiece)
  | .str _ _ _, [] => none
  | p, [] => some (p.flush.map .tok)
  | p, c :: rest => (piecesFrom (pendingStep p c).2 rest).map (pieceStep p c ++ ·)

/-- The pieces of a text, if its strings are closed. -/
def jqlPieces (text : Text) : Option (List JqlPiece) := piecesFrom .none text

variable {ps : List JqlPiece} {p : Pending}

theorem piecesFrom_cons {c : Char} {t : Text} (h : piecesFrom p (c :: t) = some ps) :
    ∃ qs, piecesFrom (pendingStep p c).2 t = some qs ∧ pieceStep p c ++ qs = ps := by
  simpa [piecesFrom] using h

theorem tokensOf_pieceStep (p : Pending) (c : Char) :
    tokensOf (pieceStep p c) = (pendingStep p c).1 := by
  have hgap : tokensOf (gapOf p c) = [] := by
    unfold gapOf
    split
    · rfl
    · split <;> rfl
  simp [pieceStep, hgap]

theorem piecesFrom_tokens (t : Text) (out : List JqlToken) (p : Pending) :
    (lexFrom { out, pending := p } t).finish = (piecesFrom p t).map (out ++ tokensOf ·) := by
  induction t generalizing out p with
  | nil =>
    cases p with
    | none => simp [lexFrom, JqlLexer.finish, piecesFrom, Pending.flush]
    | word w => simp [lexFrom, JqlLexer.finish, piecesFrom, Pending.flush]
    | str quote content escaped => rfl
  | cons c t ih =>
    rw [lexFrom_cons, lexStep, ih, piecesFrom]
    cases piecesFrom (pendingStep p c).2 t with
    | none => rfl
    | some ps => simp [tokensOf_pieceStep]

theorem lexJql_eq (text : Text) : lexJql text = (jqlPieces text).map tokensOf := by
  rw [lexJql, JqlLexer.start, piecesFrom_tokens, jqlPieces]
  rfl

/-! ## What a piece is made of -/

/-- A character of a word. -/
def isPlain (c : Char) : Bool :=
  !isQuote c && c != '(' && c != ')' && !isSpace c && !isJqlSymbol c

def JqlPiece.Proper : JqlPiece → Prop
  | .gap c => isSpace c = true
  | .tok (.str quote _) => isQuote quote = true
  | .tok (.symbol c) => isJqlSymbol c = true
  | .tok (.word w) => w ≠ [] ∧ ∀ c ∈ w, isPlain c = true
  | .tok _ => True

def JqlPiece.isWord : JqlPiece → Bool
  | .tok (.word _) => true
  | _ => false

/-- What the lexer has read of the token it is in. -/
def Pending.spell : Pending → Text
  | .none => []
  | .word w => w
  | .str quote content _ => quote :: content

def Pending.Proper : Pending → Prop
  | .none => True
  | .word w => w ≠ [] ∧ ∀ c ∈ w, isPlain c = true
  | .str quote _ _ => isQuote quote = true

theorem pieceStep_str (quote : Char) (content : Text) (escaped : Bool) (c : Char) :
    (pieceStep (.str quote content escaped) c = [] ∧
        ∃ e, (pendingStep (.str quote content escaped) c).2 = .str quote (content ++ [c]) e) ∨
      (c = quote ∧ pieceStep (.str quote content escaped) c = [.tok (.str quote content)] ∧
        (pendingStep (.str quote content escaped) c).2 = .none) := by
  unfold pieceStep pendingStep gapOf
  simp only [List.append_nil]
  by_cases hescaped : escaped = true
  · exact Or.inl (by simp [hescaped])
  · by_cases hback : c = '\\'
    · exact Or.inl (by simp [hescaped, hback])
    · by_cases hquote : c = quote
      · exact Or.inr ⟨hquote, by rw [if_neg hescaped, if_neg hback, if_pos hquote]; exact ⟨rfl, rfl⟩⟩
      · exact Or.inl (by simp [hescaped, hback, hquote])

theorem isQuote_eq {c : Char} (h : isQuote c = true) : c = '"' ∨ c = '\'' := by
  simpa [isQuote] using h

theorem isSpace_of_isQuote {c : Char} (h : isQuote c = true) : isSpace c = false := by
  rcases isQuote_eq h with rfl | rfl <;> decide

theorem plainStep_cases (p : Pending) (c : Char) :
    (isQuote c = true ∧ plainStep p c = (p.flush, .str c [] false)) ∨
      (∃ t : JqlToken, (JqlPiece.tok t).Proper ∧ (JqlPiece.tok t).isWord = false ∧ t.spell = [c] ∧
        isSpace c = false ∧ plainStep p c = (p.flush ++ [t], .none)) ∨
      (isSpace c = true ∧ plainStep p c = (p.flush, .none)) ∨
      (isPlain c = true ∧ isSpace c = false ∧ plainStep p c = ([], .word (match p with
        | .word w => w ++ [c]
        | _ => [c]))) := by
  unfold plainStep
  by_cases hquote : isQuote c = true
  · exact Or.inl ⟨hquote, by rw [if_pos hquote]⟩
  · rw [if_neg hquote]
    by_cases hopen : c = '('
    · subst hopen
      exact Or.inr (Or.inl ⟨.openParen, trivial, rfl, rfl, by decide, by rw [if_pos (rfl : '(' = '(')]⟩)
    · rw [if_neg hopen]
      by_cases hclose : c = ')'
      · subst hclose
        exact Or.inr (Or.inl ⟨.closeParen, trivial, rfl, rfl, by decide, by rw [if_pos (rfl : ')' = ')')]⟩)
      · rw [if_neg hclose]
        by_cases hspace : isSpace c = true
        · exact Or.inr (Or.inr (Or.inl ⟨hspace, by rw [if_pos hspace]⟩))
        · have hspace' : isSpace c = false := by simpa using hspace
          rw [if_neg hspace]
          by_cases hsymbol : isJqlSymbol c = true
          · exact Or.inr (Or.inl ⟨.symbol c, hsymbol, rfl, rfl, hspace', by rw [if_pos hsymbol]⟩)
          · have hplain : isPlain c = true := by
              rw [isPlain, hspace', Bool.eq_false_iff.mpr hquote, Bool.eq_false_iff.mpr hsymbol]
              simp [hopen, hclose]
            rw [if_neg hsymbol]
            exact Or.inr (Or.inr (Or.inr ⟨hplain, hspace', by cases p <;> rfl⟩))

theorem pieceStep_outside (hp : ∀ quote content escaped, p ≠ .str quote content escaped) (c : Char) :
    (isQuote c = true ∧ pieceStep p c = p.flush.map .tok ∧ (pendingStep p c).2 = .str c [] false) ∨
      (∃ q : JqlPiece, q.Proper ∧ q.isWord = false ∧ q.spell = [c] ∧
        pieceStep p c = p.flush.map .tok ++ [q] ∧ (pendingStep p c).2 = .none) ∨
      (isPlain c = true ∧ pieceStep p c = [] ∧ (pendingStep p c).2 = .word (p.spell ++ [c])) := by
  have hstep : pendingStep p c = plainStep p c := by
    cases p with
    | none => rfl
    | word w => rfl
    | str quote content escaped => exact absurd rfl (hp quote content escaped)
  have hgap : gapOf p c = if isSpace c then [.gap c] else [] := by
    cases p with
    | none => rfl
    | word w => rfl
    | str quote content escaped => exact absurd rfl (hp quote content escaped)
  rw [pieceStep, hstep, hgap]
  rcases plainStep_cases p c with
    ⟨hquote, h⟩ | ⟨t, ht, hword, hspell, hspace, h⟩ | ⟨hspace, h⟩ | ⟨hplain, hspace, h⟩
  · exact Or.inl ⟨hquote, by rw [h, isSpace_of_isQuote hquote]; simp, by rw [h]⟩
  · exact Or.inr (Or.inl ⟨.tok t, ht, hword, hspell, by rw [h, hspace]; simp, by rw [h]⟩)
  · exact Or.inr (Or.inl ⟨.gap c, hspace, rfl, rfl, by rw [h, if_pos hspace], by rw [h]⟩)
  · refine Or.inr (Or.inr ⟨hplain, by rw [h, hspace]; simp, ?_⟩)
    rw [h]
    cases p with
    | none => rfl
    | word w => rfl
    | str quote content escaped => exact absurd rfl (hp quote content escaped)

theorem spell_flush (hp : ∀ quote content escaped, p ≠ .str quote content escaped) :
    spell (p.flush.map .tok) = p.spell := by
  cases p with
  | none => rfl
  | word w => simp [Pending.flush, Pending.spell, JqlPiece.spell, JqlToken.spell]
  | str quote content escaped => exact absurd rfl (hp quote content escaped)

theorem pieceStep_spell (p : Pending) (c : Char) :
    spell (pieceStep p c) ++ (pendingStep p c).2.spell = p.spell ++ [c] := by
  have houtside : (∀ quote content escaped, p ≠ .str quote content escaped) →
      spell (pieceStep p c) ++ (pendingStep p c).2.spell = p.spell ++ [c] := by
    intro hp
    rcases pieceStep_outside hp c with ⟨-, hout, hnext⟩ | ⟨q, -, -, hq, hout, hnext⟩ | ⟨-, hout, hnext⟩
    · rw [hout, hnext, spell_flush hp]
      rfl
    · rw [hout, hnext, spell_append, spell_flush hp]
      simp [hq, Pending.spell]
    · rw [hout, hnext]
      rfl
  cases p with
  | none => exact houtside nofun
  | word w => exact houtside nofun
  | str quote content escaped =>
    rcases pieceStep_str quote content escaped c with ⟨hout, e, hnext⟩ | ⟨rfl, hout, hnext⟩
    · rw [hout, hnext]
      simp [Pending.spell]
    · rw [hout, hnext]
      simp [Pending.spell, JqlPiece.spell, JqlToken.spell]

theorem piecesFrom_spell {t : Text} (h : piecesFrom p t = some ps) : spell ps = p.spell ++ t := by
  induction t generalizing p ps with
  | nil =>
    cases p with
    | none =>
      obtain rfl := Option.some.inj h
      rfl
    | word w =>
      obtain rfl := Option.some.inj h
      simp [Pending.flush, Pending.spell, JqlPiece.spell, JqlToken.spell]
    | str quote content escaped => cases h
  | cons c t ih =>
    obtain ⟨qs, hqs, rfl⟩ := piecesFrom_cons h
    rw [spell_append, ih hqs, ← List.append_assoc, pieceStep_spell]
    simp

theorem spell_pieces {text : Text} (h : jqlPieces text = some ps) : spell ps = text :=
  piecesFrom_spell h

/-! ## The pieces of a text -/

/-- Two words never stand side by side. -/
def Apart (p q : JqlPiece) : Prop := ¬ (p.isWord = true ∧ q.isWord = true)

/-- Pieces that are the pieces of some text. -/
structure Spelled (ps : List JqlPiece) : Prop where
  proper : ∀ p ∈ ps, p.Proper
  apart : ps.IsChain Apart

theorem chain_within {R : JqlPiece → JqlPiece → Prop} {qs : List JqlPiece} (h : ps.IsChain R)
    (hqs : qs <:+: ps) : qs.IsChain R :=
  List.IsChain.infix h hqs

theorem Spelled.within {qs : List JqlPiece} (h : Spelled ps) (hqs : qs <:+: ps) : Spelled qs :=
  ⟨fun p hp => h.proper p (hqs.subset hp), chain_within h.apart hqs⟩

theorem Spelled.cons {p : JqlPiece} (hp : p.Proper) (hword : p.isWord = false)
    (h : Spelled ps) : Spelled (p :: ps) where
  proper q hq := by
    rcases List.mem_cons.mp hq with rfl | hq
    · exact hp
    · exact h.proper q hq
  apart := h.apart.cons fun q _ hwords => by
    rw [hword] at hwords
    exact Bool.false_ne_true hwords.1

theorem Spelled.flush {q : JqlPiece} (hp : p.Proper) (hword : q.isWord = false) (h : Spelled (q :: ps)) :
    Spelled (p.flush.map .tok ++ q :: ps) := by
  cases p with
  | none => exact h
  | str quote content escaped => exact h
  | word w =>
    refine ⟨fun r hr => ?_, h.apart.cons fun r hr hwords => ?_⟩
    · rcases List.mem_cons.mp hr with rfl | hr
      · exact hp
      · exact h.proper r hr
    · obtain rfl : q = r := by simpa using hr
      rw [hword] at hwords
      exact Bool.false_ne_true hwords.2

theorem piecesFrom_str {t : Text} {quote : Char} {content : Text} {escaped : Bool}
    (h : piecesFrom (.str quote content escaped) t = some ps) :
    ∃ content' ps', ps = .tok (.str quote content') :: ps' := by
  induction t generalizing content escaped ps with
  | nil => cases h
  | cons c t ih =>
    obtain ⟨qs, hqs, rfl⟩ := piecesFrom_cons h
    rcases pieceStep_str quote content escaped c with ⟨hout, e, hnext⟩ | ⟨-, hout, hnext⟩
    · rw [hnext] at hqs
      rw [hout]
      exact ih hqs
    · exact ⟨content, qs, by rw [hout]; rfl⟩

theorem piecesFrom_spelled {t : Text} (hp : p.Proper) (h : piecesFrom p t = some ps) : Spelled ps := by
  induction t generalizing p ps with
  | nil =>
    cases p with
    | none =>
      obtain rfl := Option.some.inj h
      exact ⟨nofun, .nil⟩
    | word w =>
      obtain rfl := Option.some.inj h
      refine ⟨fun q hq => ?_, .singleton _⟩
      obtain rfl := List.mem_singleton.mp hq
      exact hp
    | str quote content escaped => cases h
  | cons c t ih =>
    obtain ⟨qs, hqs, rfl⟩ := piecesFrom_cons h
    have houtside : (∀ quote content escaped, p ≠ .str quote content escaped) →
        Spelled (pieceStep p c ++ qs) := by
      intro hstr
      rcases pieceStep_outside hstr c with
        ⟨hquote, hout, hnext⟩ | ⟨q, hq, hword, -, hout, hnext⟩ | ⟨hplain, hout, hnext⟩
      · rw [hnext] at hqs
        have hrest : Spelled qs := ih (p := .str c [] false) hquote hqs
        obtain ⟨content, qs', rfl⟩ := piecesFrom_str hqs
        rw [hout]
        exact hrest.flush hp rfl
      · rw [hnext] at hqs
        rw [hout, List.append_assoc]
        exact ((ih (p := .none) trivial hqs).cons hq hword).flush hp hword
      · rw [hnext] at hqs
        rw [hout]
        refine ih (p := .word (p.spell ++ [c])) ⟨by simp, fun d hd => ?_⟩ hqs
        rcases List.mem_append.mp hd with hd | hd
        · cases p with
          | none => cases hd
          | word w => exact hp.2 d hd
          | str quote content escaped => exact absurd rfl (hstr quote content escaped)
        · obtain rfl := List.mem_singleton.mp hd
          exact hplain
    cases p with
    | none => exact houtside nofun
    | word w => exact houtside nofun
    | str quote content escaped =>
      rcases pieceStep_str quote content escaped c with ⟨hout, e, hnext⟩ | ⟨-, hout, hnext⟩
      · rw [hnext] at hqs
        rw [hout]
        exact ih (p := .str quote (content ++ [c]) e) hp hqs
      · rw [hnext] at hqs
        rw [hout]
        exact (ih (p := .none) trivial hqs).cons hp rfl

theorem spelled_pieces {text : Text} (h : jqlPieces text = some ps) : Spelled ps :=
  piecesFrom_spelled (p := .none) trivial h

end Cadena.NativeQuery
