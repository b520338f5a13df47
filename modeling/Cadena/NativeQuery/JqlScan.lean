import Mathlib
import Cadena.NativeQuery.JqlGrammar

/-!
# The validator's scanners on pieces

`splitTopLevel` and `stripOuterParens` go through a text character by
character. On a text whose strings hold no escaped quotation mark and
whose connectives stand apart from them (`Scannable`), each piece is passed
over as a whole (`splitFrom_piece`), and the text is cut exactly where the
grammar cuts it (`splitFrom_spell`).
-/

namespace Cadena.NativeQuery

open Cadena.Base

def JqlPiece.weight : JqlPiece → Int
  | .gap _ => 0
  | .tok t => t.weight

def onToken (sep : JqlToken → Bool) : JqlPiece → Bool
  | .gap _ => false
  | .tok t => sep t

/-- A string that holds its own quotation mark, escaped, ends too early for
the scanners. -/
def JqlPiece.Unbroken : JqlPiece → Prop
  | .tok (.str quote content) => quote ∉ content
  | _ => True

def JqlPiece.isConnective (p : JqlPiece) : Bool := onToken isAnd p || onToken isOr p

/-- What the scanners want before a connective: white space, or a closing
parenthesis. -/
def JqlPiece.endsClause : JqlPiece → Bool
  | .gap _ => true
  | .tok .closeParen => true
  | _ => false

/-- What they want behind it. -/
def JqlPiece.startsClause : JqlPiece → Bool
  | .gap _ => true
  | .tok .openParen => true
  | _ => false

def StandsFree (p q : JqlPiece) : Prop :=
  (q.isConnective = true → p.endsClause = true) ∧ (p.isConnective = true → q.startsClause = true)

instance (p q : JqlPiece) : Decidable (StandsFree p q) := inferInstanceAs (Decidable (_ ∧ _))

instance : (p : JqlPiece) → Decidable p.Unbroken
  | .tok (.str quote content) => inferInstanceAs (Decidable (quote ∉ content))
  | .gap _ => isTrue trivial
  | .tok .openParen => isTrue trivial
  | .tok .closeParen => isTrue trivial
  | .tok (.symbol _) => isTrue trivial
  | .tok (.word _) => isTrue trivial

structure Scannable (ps : List JqlPiece) : Prop extends Spelled ps where
  unbroken : ∀ p ∈ ps, p.Unbroken
  free : ps.IsChain StandsFree

variable {ps : List JqlPiece} {c : Char}

theorem Scannable.within {qs : List JqlPiece} (h : Scannable ps) (hqs : qs <:+: ps) : Scannable qs where
  toSpelled := h.toSpelled.within hqs
  unbroken p hp := h.unbroken p (hqs.subset hp)
  free := chain_within h.free hqs

theorem Scannable.tail {p : JqlPiece} (h : Scannable (p :: ps)) : Scannable ps :=
  h.within (List.suffix_cons p ps).isInfix

theorem rise_pieces (ps : List JqlPiece) :
    rise JqlPiece.weight ps = rise JqlToken.weight (tokensOf ps) := by
  induction ps with
  | nil => rfl
  | cons p ps ih =>
    cases p with
    | gap c => simp [ih, JqlPiece.weight]
    | tok t => simp [ih, JqlPiece.weight]

theorem nested_pieces {d e : Int} (hd : 0 ≤ d)
    (h : Nested JqlToken.weight d e (tokensOf ps)) : Nested JqlPiece.weight d e ps := by
  induction ps generalizing d with
  | nil => exact h
  | cons p ps ih =>
    cases p with
    | gap c => exact ⟨by simpa [JqlPiece.weight] using hd, by simpa [JqlPiece.weight] using ih hd h⟩
    | tok t => exact ⟨h.1, ih h.1 h.2⟩

theorem quiet_pieces {sep : JqlToken → Bool} {d : Int} (h : Quiet JqlToken.weight sep d (tokensOf ps)) :
    Quiet JqlPiece.weight (onToken sep) d ps := by
  induction ps generalizing d with
  | nil => trivial
  | cons p ps ih =>
    cases p with
    | gap c => exact ⟨by simp [onToken], by simpa [JqlPiece.weight] using ih h⟩
    | tok t => exact ⟨h.1, ih h.2⟩

/-! ## Characters -/

theorem range_of_isAlpha (h : c.isAlpha = true) :
    (65 ≤ c.toNat ∧ c.toNat ≤ 90) ∨ (97 ≤ c.toNat ∧ c.toNat ≤ 122) := by
  simp only [Char.isAlpha, Char.isUpper, Char.isLower, Bool.or_eq_true, Bool.and_eq_true,
    decide_eq_true_eq, ge_iff_le, UInt32.le_iff_toNat_le] at h
  exact h

theorem isPlain_of_range (hrange : (48 ≤ c.toNat ∧ c.toNat ≤ 57) ∨ (65 ≤ c.toNat ∧ c.toNat ≤ 122)) :
    isPlain c = true := by
  have hne : ∀ d : Char, (d.toNat < 48 ∨ (57 < d.toNat ∧ d.toNat < 65) ∨ 122 < d.toNat) →
      c ≠ d := by
    rintro d hd rfl
    omega
  have hquote : isQuote c = false := by
    rw [isQuote, Bool.or_eq_false_iff]
    exact ⟨by simpa using hne '"' (by decide), by simpa using hne '\'' (by decide)⟩
  have hspace : isSpace c = false := by
    rw [Bool.eq_false_iff]
    intro hc
    simp only [isSpace, Bool.or_eq_true, Bool.and_eq_true, decide_eq_true_eq, beq_iff_eq] at hc
    omega
  have hsymbol : isJqlSymbol c = false := by
    simp only [isJqlSymbol, Bool.or_eq_false_iff, beq_eq_false_iff_ne]
    exact ⟨⟨⟨⟨⟨hne _ (by decide), hne _ (by decide)⟩, hne _ (by decide)⟩, hne _ (by decide)⟩,
      hne _ (by decide)⟩, hne _ (by decide)⟩
  rw [isPlain, hquote, hspace, hsymbol]
  simp [hne '(' (by decide), hne ')' (by decide)]

theorem isPlain_of_isAlpha (h : c.isAlpha = true) : isPlain c = true := by
  have hrange := range_of_isAlpha h
  exact isPlain_of_range (by omega)

theorem toLower_of_not_isAlpha (h : c.isAlpha = false) : c.toLower = c := by
  rw [Char.isAlpha, Bool.or_eq_false_iff] at h
  have hupper := h.1
  simp only [Char.isUpper, Char.toLower] at hupper ⊢
  split
  · rename_i hc
    exact absurd (by simpa using hc) (by simpa using hupper)
  · rfl

theorem isAlpha_of_toLower {p : Char} (hp : p.isLower = true) (h : c.toLower = p) : c.isAlpha = true := by
  by_contra hno
  have hno' : c.isAlpha = false := by simpa using hno
  rw [toLower_of_not_isAlpha hno'] at h
  rw [Char.isAlpha, h, hp, Bool.or_true] at hno'
  cases hno'

/-- A word of the grammar, given in lower case. -/
def IsLowerWord (word : Text) : Prop := word ≠ [] ∧ word.all Char.isLower = true

/-- What stands behind a word that was read to its end. -/
def EndsWord (rest : Text) : Prop := ∀ c ∈ rest.head?, isPlain c = false

theorem stripWord_of_not_plain {word : Text} (hword : IsLowerWord word) {t : Text}
    (hc : isPlain c = false) : stripWord word (c :: t) = none := by
  obtain ⟨hne, hall⟩ := hword
  cases word with
  | nil => exact absurd rfl hne
  | cons p word =>
    rw [List.all_cons, Bool.and_eq_true] at hall
    rw [stripWord, if_neg]
    intro hlower
    rw [isPlain_of_isAlpha (isAlpha_of_toLower hall.1 hlower)] at hc
    cases hc

theorem stripWord_word {word w rest : Text} (hword : word.all Char.isLower = true)
    (hrest : EndsWord rest) :
    stripWord word (w ++ rest)
      = if word <+: w.map Char.toLower then some (w.drop word.length ++ rest) else none := by
  induction word generalizing w with
  | nil => simp [stripWord]
  | cons p word ih =>
    rw [List.all_cons, Bool.and_eq_true] at hword
    cases w with
    | nil =>
      have hnone : stripWord (p :: word) rest = none := by
        cases rest with
        | nil => rfl
        | cons c rest =>
          exact stripWord_of_not_plain ⟨List.cons_ne_nil _ _, by simp [hword]⟩
            (hrest c (by simp))
      simpa using hnone
    | cons c w =>
      rw [List.cons_append, stripWord, ih hword.2]
      by_cases hc : c.toLower = p
      · simp [hc]
      · have hno : ¬ p = c.toLower := fun h => hc h.symm
        simp [hc, hno]

/-- A keyword is matched at a word exactly when it is that word, and white
space, a parenthesis or the end follows. -/
theorem matchKeyword_word {keyword : String} (hkeyword : IsLowerWord keyword.toList) {w rest : Text}
    (hw : ∀ c ∈ w, isPlain c = true) (hrest : EndsWord rest) :
    matchKeyword keyword (w ++ rest)
      = if w.map Char.toLower = keyword.toList ∧ keywordEnds rest = true then some w.length
        else none := by
  rw [matchKeyword, stripWord_word hkeyword.2 hrest]
  by_cases hstarts : keyword.toList <+: w.map Char.toLower
  · rw [if_pos hstarts]
    by_cases heq : w.map Char.toLower = keyword.toList
    · have hlen : keyword.toList.length = w.length := by rw [← heq, List.length_map]
      have hlen' : keyword.length = w.length := by rw [← hlen, String.length_toList]
      simp [heq, hlen, hlen']
    · -- the word goes on, with a character that ends no keyword
      have hlonger : keyword.toList.length < w.length := by
        rcases Nat.lt_or_ge keyword.toList.length w.length with h | h
        · exact h
        · exact absurd (hstarts.eq_of_length_le (by simpa using h)).symm heq
      obtain ⟨c, w', hdrop⟩ : ∃ c w', w.drop keyword.toList.length = c :: w' := by
        cases hd : w.drop keyword.toList.length with
        | nil =>
          have := congrArg List.length hd
          simp only [List.length_drop, List.length_nil] at this
          omega
        | cons c w' => exact ⟨c, w', rfl⟩
      have hplain := hw c (List.mem_of_mem_drop (by rw [hdrop]; exact List.mem_cons_self))
      have hends : keywordEnds (c :: (w' ++ rest)) = false := by
        have hparts : (isQuote c = false ∧ c ≠ '(' ∧ c ≠ ')') ∧ isSpace c = false ∧
            isJqlSymbol c = false := by
          simpa [isPlain, and_assoc] using hplain
        simp [keywordEnds, hparts]
      rw [if_neg (fun h => heq h.1)]
      simp [hdrop, hends]
  · rw [if_neg hstarts, if_neg]
    rintro ⟨heq, -⟩
    exact hstarts (heq ▸ List.prefix_refl _)

/-! ## A piece under the scanner -/

theorem isPlain_spec (h : isPlain c = true) :
    ¬ (c = '"' ∨ c = '\'') ∧ c ≠ '(' ∧ c ≠ ')' ∧ isSpace c = false ∧ isJqlSymbol c = false := by
  have hparts : (isQuote c = false ∧ c ≠ '(' ∧ c ≠ ')') ∧ isSpace c = false ∧
      isJqlSymbol c = false := by
    simpa [isPlain, and_assoc] using h
  obtain ⟨⟨hquote, hopen, hclose⟩, hspace, hsymbol⟩ := hparts
  exact ⟨by simpa [isQuote] using hquote, hopen, hclose, hspace, hsymbol⟩

/-- The last character of a piece, which the scanner remembers. -/
def JqlPiece.last : JqlPiece → Char
  | .gap c => c
  | .tok (.str quote _) => quote
  | .tok .openParen => '('
  | .tok .closeParen => ')'
  | .tok (.symbol c) => c
  | .tok (.word w) => (w.getLast?).getD ' '

theorem splitFrom_quoted (matcher : Text → Option Nat) (depth : Int) {quote : Char} {content : Text}
    (hcontent : quote ∉ content) (previous : Char) (part rest : Text) :
    splitFrom matcher false 0 depth (some quote) previous part (content ++ quote :: rest)
      = splitFrom matcher false 0 depth none quote (part ++ (content ++ [quote])) rest := by
  induction content generalizing previous part with
  | nil =>
    rw [List.nil_append, splitFrom, if_pos rfl]
    rfl
  | cons c content ih =>
    obtain ⟨hc, hrest⟩ := not_or.mp (fun h => hcontent (List.mem_cons.mpr h))
    rw [List.cons_append, splitFrom, if_neg (fun h => hc h.symm), ih hrest]
    simp

theorem splitFrom_char {matcher : Text → Option Nat} {depth : Int} {previous : Char}
    {part rest : Text} (hquote : ¬ (c = '"' ∨ c = '\'')) (hopen : c ≠ '(') (hclose : c ≠ ')')
    (hmiss : depth = 0 → (isSpace previous = true ∨ previous = ')') → part ≠ [] →
      matcher (c :: rest) = none) :
    splitFrom matcher false 0 depth none previous part (c :: rest)
      = splitFrom matcher false 0 depth none c (part ++ [c]) rest := by
  rw [splitFrom, if_neg hquote, if_neg (by simp), if_neg hopen, if_neg hclose]
  by_cases hcut : depth = 0 ∧ (isSpace previous = true ∨ previous = ')') ∧ part ≠ []
  · rw [if_pos hcut, hmiss hcut.1 hcut.2.1 hcut.2.2]
  · rw [if_neg hcut]

theorem splitFrom_word_rest (matcher : Text → Option Nat) (depth : Int) {w : Text}
    (hw : ∀ c ∈ w, isPlain c = true) {previous : Char} (hprevious : isPlain previous = true)
    (part rest : Text) :
    splitFrom matcher false 0 depth none previous part (w ++ rest)
      = splitFrom matcher false 0 depth none ((w.getLast?).getD previous) (part ++ w) rest := by
  induction w generalizing previous part with
  | nil => simp
  | cons c w ih =>
    have hc := hw c List.mem_cons_self
    obtain ⟨hquote, hopen, hclose, -, -⟩ := isPlain_spec hc
    obtain ⟨-, -, hprevclose, hprevspace, -⟩ := isPlain_spec hprevious
    have hlast : ((c :: w).getLast?).getD previous = (w.getLast?).getD c := by
      rw [List.getLast?_cons, Option.getD_some]
    rw [List.cons_append, splitFrom_char hquote hopen hclose, ih (fun d hd =>
      hw d (List.mem_cons_of_mem _ hd)) hc, hlast, List.append_assoc]
    · rfl
    · intro _ hprev
      rcases hprev with h | h
      · rw [hprevspace] at h
        cases h
      · exact absurd h hprevclose

section Scanning

variable {matcher : Text → Option Nat}

theorem splitFrom_piece (hother : ∀ c t, isPlain c = false → matcher (c :: t) = none)
    {p : JqlPiece} (hp : p.Proper) (hstr : p.Unbroken) {depth : Int} {previous : Char}
    {part rest : Text}
    (hmiss : ∀ w, p = .tok (.word w) → depth = 0 → (isSpace previous = true ∨ previous = ')') →
      part ≠ [] → matcher (w ++ rest) = none) :
    splitFrom matcher false 0 depth none previous part (p.spell ++ rest)
      = splitFrom matcher false 0 (depth + p.weight) none p.last (part ++ p.spell) rest := by
  have hstep {c : Char} (hplain : isPlain c = false) (hdouble : c ≠ '"') (hsingle : c ≠ '\'') (hopen : c ≠ '(')
      (hclose : c ≠ ')') : splitFrom matcher false 0 depth none previous part (c :: rest) =
        splitFrom matcher false 0 depth none c (part ++ [c]) rest :=
    splitFrom_char (not_or.mpr ⟨hdouble, hsingle⟩) hopen hclose fun _ _ _ => hother c rest hplain
  cases p with
  | gap c =>
    have hplain : isPlain c = false := by
      rw [Bool.eq_false_iff]
      intro h
      obtain ⟨-, -, -, hspace, -⟩ := isPlain_spec h
      rw [show isSpace c = true from hp] at hspace
      cases hspace
    have hne : ∀ d : Char, isSpace d = false → c ≠ d := by
      rintro d hd rfl
      rw [show isSpace c = true from hp] at hd
      cases hd
    simpa [JqlPiece.spell, JqlPiece.weight, JqlPiece.last] using hstep hplain (hne _ (by decide)) (hne _ (by decide))
      (hne _ (by decide)) (hne _ (by decide))
  | tok t =>
    cases t with
    | openParen =>
      simp [JqlPiece.spell, JqlToken.spell, JqlPiece.weight, JqlToken.weight, JqlPiece.last,
        splitFrom]
    | closeParen =>
      simp [JqlPiece.spell, JqlToken.spell, JqlPiece.weight, JqlToken.weight, JqlPiece.last,
        splitFrom, sub_eq_add_neg]
    | str quote content =>
      have hquote : quote = '"' ∨ quote = '\'' := isQuote_eq hp
      show splitFrom matcher false 0 depth none previous part
        (quote :: content ++ [quote] ++ rest) = _
      rw [List.append_assoc, List.cons_append, splitFrom, if_pos hquote]
      show splitFrom matcher false 0 depth (some quote) quote (part ++ [quote])
        (content ++ quote :: rest) = _
      rw [splitFrom_quoted matcher depth hstr]
      simp [JqlPiece.spell, JqlToken.spell, JqlPiece.weight, JqlToken.weight, JqlPiece.last]
    | symbol c =>
      have hplain : isPlain c = false := by
        rw [Bool.eq_false_iff]
        intro h
        obtain ⟨-, -, -, -, hsymbol⟩ := isPlain_spec h
        rw [show isJqlSymbol c = true from hp] at hsymbol
        cases hsymbol
      have hne : ∀ d : Char, isJqlSymbol d = false → c ≠ d := by
        rintro d hd rfl
        rw [show isJqlSymbol c = true from hp] at hd
        cases hd
      simpa [JqlPiece.spell, JqlToken.spell, JqlPiece.weight, JqlToken.weight, JqlPiece.last]
        using hstep hplain (hne _ (by decide)) (hne _ (by decide)) (hne _ (by decide)) (hne _ (by decide))
    | word w =>
      obtain ⟨hne, hw⟩ := hp
      cases w with
      | nil => exact absurd rfl hne
      | cons c w =>
        have hc := hw c List.mem_cons_self
        obtain ⟨hquote, hopen, hclose, -, -⟩ := isPlain_spec hc
        show splitFrom matcher false 0 depth none previous part (c :: (w ++ rest)) = _
        have hfirst : depth = 0 → (isSpace previous = true ∨ previous = ')') → part ≠ [] →
            matcher (c :: (w ++ rest)) = none := hmiss (c :: w) rfl
        rw [splitFrom_char hquote hopen hclose hfirst,
          splitFrom_word_rest matcher depth (fun d hd => hw d (List.mem_cons_of_mem _ hd)) hc]
        have hlast : (JqlPiece.tok (.word (c :: w))).last = (w.getLast?).getD c := by
          rw [JqlPiece.last, List.getLast?_cons, Option.getD_some]
        rw [hlast]
        simp [JqlPiece.spell, JqlToken.spell, JqlPiece.weight, JqlToken.weight]

theorem JqlPiece.spell_ne_nil {p : JqlPiece} (hp : p.Proper) : p.spell ≠ [] := by
  cases p with
  | gap c => exact List.cons_ne_nil _ _
  | tok t =>
    cases t with
    | str quote content => exact List.cons_ne_nil _ _
    | openParen => exact List.cons_ne_nil _ _
    | closeParen => exact List.cons_ne_nil _ _
    | symbol c => exact List.cons_ne_nil _ _
    | word w => exact hp.1

theorem splitFrom_quiet (hother : ∀ c t, isPlain c = false → matcher (c :: t) = none)
    {ps : List JqlPiece} (hproper : ∀ p ∈ ps, p.Proper) (hstr : ∀ p ∈ ps, p.Unbroken)
    (hmiss : ∀ as w bs, ps = as ++ .tok (.word w) :: bs → matcher (w ++ spell bs) = none)
    (depth : Int) (previous : Char) (part : Text) :
    splitFrom matcher false 0 depth none previous part (spell ps) = [part ++ spell ps] := by
  induction ps generalizing depth previous part with
  | nil => simp [splitFrom]
  | cons p ps ih =>
    rw [spell_cons, splitFrom_piece hother (hproper p List.mem_cons_self)
      (hstr p List.mem_cons_self), ih (fun q hq => hproper q (List.mem_cons_of_mem _ hq))
      (fun q hq => hstr q (List.mem_cons_of_mem _ hq)), List.append_assoc]
    · rintro as w bs rfl
      exact hmiss (p :: as) w bs rfl
    · rintro w rfl - - -
      exact hmiss [] w ps rfl

end Scanning

/-! ## The cuts -/

theorem endsWord_spell {w : Text} (h : Spelled (.tok (.word w) :: ps)) : EndsWord (spell ps) := by
  intro c hc
  cases ps with
  | nil => cases hc
  | cons p ps =>
    have hp := h.proper p (by simp)
    have hword : p.isWord = false := by
      have hapart : Apart (.tok (.word w)) p := h.apart.rel_head? (by simp)
      rw [Bool.eq_false_iff]
      exact fun hw => hapart ⟨rfl, hw⟩
    rw [Bool.eq_false_iff]
    intro hplain
    obtain ⟨hquote, hopen, hclose, hspace, hsymbol⟩ := isPlain_spec hplain
    cases p with
    | gap d =>
      obtain rfl : d = c := by simpa [JqlPiece.spell] using hc
      rw [show isSpace d = true from hp] at hspace
      cases hspace
    | tok t =>
      cases t with
      | str quote content =>
        obtain rfl : quote = c := by simpa [JqlPiece.spell, JqlToken.spell] using hc
        exact hquote (isQuote_eq hp)
      | openParen => exact hopen (by simpa [JqlPiece.spell, JqlToken.spell] using hc.symm)
      | closeParen => exact hclose (by simpa [JqlPiece.spell, JqlToken.spell] using hc.symm)
      | symbol d =>
        obtain rfl : d = c := by simpa [JqlPiece.spell, JqlToken.spell] using hc
        rw [show isJqlSymbol d = true from hp] at hsymbol
        cases hsymbol
      | word v => cases hword

theorem keywordEnds_spell (hproper : ∀ p ∈ ps, p.Proper)
    (h : ∀ p ∈ ps.head?, p.startsClause = true) : keywordEnds (spell ps) = true := by
  cases ps with
  | nil => rfl
  | cons p ps =>
    have hstart := h p (by simp)
    have hp := hproper p List.mem_cons_self
    cases p with
    | gap c => simp [JqlPiece.spell, keywordEnds, show isSpace c = true from hp]
    | tok t =>
      cases t with
      | openParen => rfl
      | str quote content => cases hstart
      | closeParen => cases hstart
      | symbol c => cases hstart
      | word w => cases hstart

/-- The parts of a scan, the first continued. -/
def continued (part : Text) : List (List JqlPiece) → List Text
  | [] => [part]
  | s :: ss => (part ++ spell s) :: ss.map spell

theorem continued_consHead (part : Text) (p : JqlPiece) (ss : List (List JqlPiece))
    (h : ss ≠ []) : continued part (consHead p ss) = continued (part ++ p.spell) ss := by
  cases ss with
  | nil => exact absurd rfl h
  | cons s ss => simp [consHead, continued]

theorem continued_nil (ss : List (List JqlPiece)) (h : ss ≠ []) : continued [] ss = ss.map spell := by
  cases ss with
  | nil => exact absurd rfl h
  | cons s ss => rfl

theorem splitFrom_skip (matcher : Text → Option Nat) (depth : Int) (w : Text) (previous : Char)
    (part rest : Text) :
    splitFrom matcher false w.length depth none previous part (w ++ rest)
      = splitFrom matcher false 0 depth none ((w.getLast?).getD previous) part rest := by
  induction w generalizing previous with
  | nil => rfl
  | cons c w ih =>
    have hlast : ((c :: w).getLast?).getD previous = (w.getLast?).getD c := by
      rw [List.getLast?_cons, Option.getD_some]
    rw [List.cons_append, List.length_cons, splitFrom, ih, hlast]

theorem splitFrom_spell {keyword : String} (hkeyword : IsLowerWord keyword.toList)
    (hconnective : ∀ t, isKeyword keyword t = true → (JqlPiece.tok t).isConnective = true)
    (h : Scannable ps) (depth : Int) (previous : Char) (part : Text)
    (hstart : ∀ p ∈ ps.head?, onToken (isKeyword keyword) p = true →
      (isSpace previous = true ∨ previous = ')') ∧ part ≠ []) :
    splitFrom (matchKeyword keyword) false 0 depth none previous part (spell ps)
      = continued part (splitTop JqlPiece.weight (onToken (isKeyword keyword)) depth ps) := by
  have hother : ∀ c t, isPlain c = false → matchKeyword keyword (c :: t) = none := by
    intro c t hc
    rw [matchKeyword, stripWord_of_not_plain hkeyword hc]
  induction ps generalizing depth previous part with
  | nil => simp [splitFrom, splitTop, continued]
  | cons p ps ih =>
    have hp := h.proper p List.mem_cons_self
    have hcut : splitTop JqlPiece.weight (onToken (isKeyword keyword)) (depth + p.weight) ps ≠ [] :=
      splitTop_ne_nil _ _ _
    rw [splitTop]
    by_cases hsep : depth = 0 ∧ onToken (isKeyword keyword) p = true
    · obtain ⟨hprevious, hpart⟩ := hstart p (by simp) hsep.2
      rw [if_pos hsep]
      cases p with
      | gap c => cases hsep.2
      | tok t =>
        obtain ⟨w, rfl, hw⟩ := isKeyword_eq hsep.2
        have hconn : (JqlPiece.tok (.word w)).isConnective = true := hconnective (.word w) hsep.2
        have hfree : ∀ q ∈ ps.head?, q.startsClause = true :=
          fun q hq => (h.free.rel_head? hq).2 hconn
        have hhit : matchKeyword keyword (w ++ spell ps) = some w.length := by
          rw [matchKeyword_word hkeyword hp.2 (endsWord_spell h.toSpelled), if_pos ⟨hw,
            keywordEnds_spell (fun q hq => h.proper q (List.mem_cons_of_mem _ hq)) hfree⟩]
        obtain ⟨hne, hplain⟩ := hp
        cases w with
        | nil => exact absurd rfl hne
        | cons c w =>
          obtain ⟨hquote, hopen, hclose, -, -⟩ := isPlain_spec (hplain c List.mem_cons_self)
          have hnext := ih h.tail depth ((w.getLast?).getD c) [] (fun q hq hk => by
            -- what follows a connective is none itself
            have hq' := hfree q hq
            cases q with
            | gap d => cases hk
            | tok u =>
              cases u with
              | openParen => cases hk
              | str quote content => cases hk
              | closeParen => cases hk
              | symbol d => cases hk
              | word v => cases hq')
          rw [spell_cons]
          show splitFrom _ false 0 depth none previous part (c :: (w ++ spell ps)) = _
          rw [splitFrom, if_neg hquote, if_neg (by simp), if_neg hopen, if_neg hclose,
            if_pos ⟨hsep.1, hprevious, hpart⟩]
          rw [List.cons_append] at hhit
          rw [hhit]
          have hweight : depth + (JqlPiece.tok (.word (c :: w))).weight = depth := by
            simp [JqlPiece.weight, JqlToken.weight]
          rw [hweight] at hcut ⊢
          show part :: splitFrom _ false w.length depth none c [] (w ++ spell ps) = _
          rw [splitFrom_skip, hnext, continued_nil _ hcut]
          simp [continued]
    · rw [if_neg hsep, continued_consHead _ _ _ hcut, spell_cons]
      have hmiss : ∀ w, p = .tok (.word w) → depth = 0 →
          (isSpace previous = true ∨ previous = ')') → part ≠ [] →
            matchKeyword keyword (w ++ spell ps) = none := by
        rintro w rfl hdepth - -
        rw [matchKeyword_word hkeyword hp.2 (endsWord_spell h.toSpelled), if_neg]
        rintro ⟨hw, -⟩
        exact hsep ⟨hdepth, by simpa [onToken, isKeyword] using hw⟩
      rw [splitFrom_piece hother hp (h.unbroken p List.mem_cons_self) hmiss]
      refine ih h.tail _ _ _ fun q hq hk => ?_
      have hqconn : q.isConnective = true := by
        cases q with
        | gap c => cases hk
        | tok t => exact hconnective t hk
      have hends := (h.free.rel_head? hq).1 hqconn
      refine ⟨?_, by simp [JqlPiece.spell_ne_nil hp]⟩
      cases p with
      | gap c => exact Or.inl hp
      | tok t =>
        cases t with
        | closeParen => exact Or.inr rfl
        | str quote content => cases hends
        | openParen => cases hends
        | symbol c => cases hends
        | word w => cases hends

end Cadena.NativeQuery
