import Cadena.NativeQuery.JiraQuery

/-!
# Scope of a scheduled JQL query

The adapter puts the operator's text in parentheses and ANDs it with the
project clause and the bounds. Read by JQL's rules the result is such a
conjunction exactly when the text, read from inside the parenthesis, ends
outside a string and leaves nothing at the outer level that binds weaker
than AND (`StaysWrapped`). The validator guarantees this for texts with
no backslash only.
-/

namespace Cadena.NativeQuery

open Cadena.Base

/-! ## Strings and what the lexer is in -/

def Pending.InString (p : Pending) : Prop :=
  ∃ quote content, p = .str quote content false ∧ isQuote quote = true

def Pending.Outside : Pending → Prop
  | .str _ _ _ => False
  | _ => True

/-- A character with no meaning for strings. -/
def isInert (c : Char) : Bool := !isQuote c && c != '\\'

/-- A text whose double quotes come in pairs, without a backslash. -/
inductive Paired : Text → Prop
  | nil : Paired []
  | inert {c : Char} {t : Text} : isInert c = true → Paired t → Paired (c :: t)
  | quoted {x t : Text} : (∀ c ∈ x, isInert c = true) → Paired t → Paired (quoted x ++ t)

theorem Paired.append {a b : Text} (ha : Paired a) (hb : Paired b) : Paired (a ++ b) := by
  induction ha with
  | nil => exact hb
  | inert hc _ ih => exact Paired.inert hc ih
  | quoted hx _ ih =>
    rw [List.append_assoc]
    exact Paired.quoted hx ih

variable {content t : Text} {c quote : Char} {p : Pending} {s : JqlLexer}

theorem paired_of_inert (h : ∀ c ∈ t, isInert c = true) : Paired t := by
  induction t with
  | nil => exact Paired.nil
  | cons c t ih =>
    exact Paired.inert (h c List.mem_cons_self) (ih fun d hd => h d (List.mem_cons_of_mem _ hd))

theorem paired_of_all (h : t.all isInert = true) : Paired t :=
  paired_of_inert (List.all_eq_true.mp h)

theorem isInert_spec (h : isInert c = true) : isQuote c = false ∧ c ≠ '\\' := by
  simpa [isInert] using h

theorem plainStep_isQuote (hc : isQuote c = true) : plainStep p c = (p.flush, .str c [] false) := if_pos hc

theorem plainStep_close (p : Pending) :
    plainStep p ')' = (p.flush ++ [.closeParen], .none) := by
  unfold plainStep
  rw [if_neg (by decide), if_neg (by decide), if_pos rfl]

theorem outside_plainStep (hc : isQuote c = false) : (plainStep p c).2.Outside := by
  unfold plainStep
  rw [if_neg (by simp [hc])]
  by_cases hopen : c = '('
  · rw [if_pos hopen]
    exact trivial
  rw [if_neg hopen]
  by_cases hclose : c = ')'
  · rw [if_pos hclose]
    exact trivial
  rw [if_neg hclose]
  by_cases hspace : isSpace c = true
  · rw [if_pos hspace]
    exact trivial
  rw [if_neg hspace]
  by_cases hsymbol : isJqlSymbol c = true
  · rw [if_pos hsymbol]
    exact trivial
  rw [if_neg hsymbol]
  cases p <;> exact trivial

theorem pendingStep_none (c : Char) : pendingStep .none c = plainStep .none c := rfl

theorem pendingStep_word (w : Text) (c : Char) :
    pendingStep (.word w) c = plainStep (.word w) c := rfl

theorem outside_pendingStep (hp : p.Outside) (hc : isQuote c = false) : (pendingStep p c).2.Outside := by
  cases p with
  | none =>
    rw [pendingStep_none]
    exact outside_plainStep hc
  | word w =>
    rw [pendingStep_word]
    exact outside_plainStep hc
  | str quote content escaped => exact hp.elim

theorem outside_lexFrom (ht : ∀ c ∈ t, isInert c = true)
    (hs : s.pending.Outside) : (lexFrom s t).pending.Outside := by
  induction t generalizing s with
  | nil => exact hs
  | cons c t ih =>
    rw [lexFrom_cons]
    refine ih (fun d hd => ht d (List.mem_cons_of_mem _ hd)) ?_
    exact outside_pendingStep hs (isInert_spec (ht c List.mem_cons_self)).1

theorem lexFrom_str (ht : ∀ c ∈ t, isInert c = true) (hq : isQuote quote = true)
    (hs : s.pending = .str quote content false) :
    ∃ content', (lexFrom s t).pending = .str quote content' false := by
  induction t generalizing s content with
  | nil => exact ⟨content, hs⟩
  | cons c t ih =>
    obtain ⟨hc, hb⟩ := isInert_spec (ht c List.mem_cons_self)
    have hne : c ≠ quote := by
      rintro rfl
      rw [hq] at hc
      cases hc
    rw [lexFrom_cons]
    have hnext : (lexStep s c).pending = .str quote (content ++ [c]) false := by
      simp [lexStep, pendingStep, hs, hb, hne]
    exact ih (fun d hd => ht d (List.mem_cons_of_mem _ hd)) hnext

theorem pendingStep_quote_outside (hp : p.Outside) : (pendingStep p '"').2 = .str '"' [] false := by
  cases p with
  | none => rfl
  | word w => rfl
  | str quote content escaped => exact hp.elim

/-- Inside a string a paired text ends inside a string: each of its quotes
that closes one has a partner that opens the next. -/
theorem Paired.inString (ht : Paired t) (hs : s.pending.InString) : (lexFrom s t).pending.InString := by
  induction ht generalizing s with
  | nil => exact hs
  | @inert c t hc _ ih =>
    obtain ⟨quote, content, hp, hq⟩ := hs
    obtain ⟨content', hp'⟩ := lexFrom_str (t := [c]) (by simpa using hc) hq hp
    exact ih ⟨quote, content', hp', hq⟩
  | @quoted x t hx _ ih =>
    obtain ⟨quote, content, hp, hq⟩ := hs
    rw [lexFrom_append]
    refine ih ?_
    rw [NativeQuery.quoted, List.cons_append, lexFrom_cons, lexFrom_append]
    by_cases hquote : quote = '"'
    · -- closed, and opened again
      have hout : (lexStep s '"').pending = .none := by
        simp [lexStep, pendingStep, hp, hquote]
      have hmid : (lexFrom (lexStep s '"') x).pending.Outside :=
        outside_lexFrom hx (by rw [hout]; exact trivial)
      exact ⟨'"', [], pendingStep_quote_outside hmid, by decide⟩
    · -- a string in single quotes goes on
      have hin : (lexStep s '"').pending = .str quote (content ++ ['"']) false := by
        simp [lexStep, pendingStep, hp, Ne.symm hquote]
      obtain ⟨content', hp'⟩ := lexFrom_str hx hq hin
      refine ⟨quote, content' ++ ['"'], ?_, hq⟩
      show (pendingStep _ '"').2 = _
      rw [hp']
      simp [pendingStep, Ne.symm hquote]

theorem plainStep_quote {escaped : Bool}
    (h : (plainStep p c).2 = .str quote content escaped) : isQuote quote = true := by
  by_cases hc : isQuote c = true
  · rw [plainStep_isQuote hc] at h
    obtain ⟨rfl, -, -⟩ := Pending.str.inj h
    exact hc
  · have hno : isQuote c = false := eq_false_of_ne_true hc
    have hout := outside_plainStep (p := p) hno
    rw [h] at hout
    exact hout.elim

theorem lexFrom_quote (t : Text)
    (hs : ∀ quote content escaped, s.pending = .str quote content escaped → isQuote quote = true) :
    ∀ quote content escaped, (lexFrom s t).pending = .str quote content escaped →
      isQuote quote = true := by
  induction t generalizing s with
  | nil => exact hs
  | cons c t ih =>
    rw [lexFrom_cons]
    refine ih fun quote content escaped h => ?_
    rw [lexStep] at h
    cases hp : s.pending with
    | none =>
      rw [hp, pendingStep_none] at h
      exact plainStep_quote h
    | word w =>
      rw [hp, pendingStep_word] at h
      exact plainStep_quote h
    | str quote' content' escaped' =>
      have hq := hs quote' content' escaped' hp
      rw [hp] at h
      simp only [pendingStep] at h
      split_ifs at h
      all_goals
        simp only [Pending.str.injEq] at h
        rw [← h.1]
        exact hq

/-! ## The clauses the adapter adds -/

/-- A text that the lexer reads as these tokens and leaves between tokens;
nothing in them opens or closes a level for good or stands outside
parentheses as a keyword. -/
structure IsClause (clause : Text) (tokens : List JqlToken) : Prop where
  lexed : lexFrom .start clause = { out := tokens, pending := .none }
  nested : Nested JqlToken.weight 0 0 tokens
  quietOrder : Quiet JqlToken.weight isOrder 0 tokens
  quietOr : Quiet JqlToken.weight isOr 0 tokens
  quietAnd : Quiet JqlToken.weight isAnd 0 tokens
  paired : Paired clause

theorem IsClause.lexJql {clause : Text} {tokens : List JqlToken} (h : IsClause clause tokens) :
    lexJql clause = some tokens := by
  rw [NativeQuery.lexJql, h.lexed]
  simp [JqlLexer.finish, Pending.flush]

theorem lexFrom_quoted {x : Text} (hx : ∀ c ∈ x, isInert c = true) (out : List JqlToken) :
    lexFrom { out, pending := .none } (quoted x)
      = { out := out ++ [.str '"' x], pending := .none } := by
  have hinner : ∀ (t content : Text), (∀ c ∈ t, isInert c = true) →
      lexFrom { out, pending := .str '"' content false } t
        = { out, pending := .str '"' (content ++ t) false } := by
    intro t
    induction t with
    | nil => intro content _; simp [lexFrom]
    | cons c t ih =>
      intro content ht
      obtain ⟨hc, hb⟩ := isInert_spec (ht c List.mem_cons_self)
      have hne : c ≠ '"' := by
        rintro rfl
        exact absurd hc (by decide)
      have hstep : lexStep { out, pending := .str '"' content false } c
          = { out, pending := .str '"' (content ++ [c]) false } := by
        simp [lexStep, pendingStep, hb, hne]
      rw [lexFrom_cons, hstep, ih _ fun d hd => ht d (List.mem_cons_of_mem _ hd)]
      simp
  have hopen : lexStep { out, pending := .none } '"' = { out, pending := .str '"' [] false } := by
    simp [lexStep, pendingStep_none, plainStep_isQuote, isQuote, Pending.flush]
  have hclose : lexStep { out, pending := .str '"' x false } '"'
      = { out := out ++ [.str '"' x], pending := .none } := by
    simp [lexStep, pendingStep]
  rw [quoted, List.cons_append, lexFrom_cons, hopen, lexFrom_append, hinner x [] hx,
    List.nil_append]
  exact hclose

theorem ProjectKey.inert (key : ProjectKey) : ∀ c ∈ key.chars, isInert c = true := by
  have hchar : ∀ c : Char, (c.isUpper || c.isDigit || c == '_') = true → isInert c = true := by
    intro c hc
    by_contra hbad
    simp only [isInert, isQuote, Bool.and_eq_true, Bool.not_eq_true', Bool.or_eq_false_iff,
      bne_iff_ne, not_and_or, beq_eq_false_iff_ne, ne_eq, not_not] at hbad
    rcases hbad with (rfl | rfl) | rfl
    · exact absurd hc (by decide)
    · exact absurd hc (by decide)
    · exact absurd hc (by decide)
  obtain ⟨chars, hwf⟩ := key
  cases chars with
  | nil => cases hwf
  | cons c rest =>
    simp only [isProjectKey, Bool.and_eq_true, List.all_eq_true] at hwf
    intro d hd
    rcases List.mem_cons.mp hd with rfl | hd
    · exact hchar d (by rw [hwf.1.1]; rfl)
    · exact hchar d (hwf.1.2 d hd)

/-- The tokens of `"A", "B", …`. -/
def keyTokens : List ProjectKey → List JqlToken
  | [] => []
  | [key] => [.str '"' key.chars]
  | key :: keys => .str '"' key.chars :: .symbol ',' :: keyTokens keys

def projectTokens (keys : List ProjectKey) : List JqlToken :=
  .word "project".toList :: .word "in".toList :: .openParen :: keyTokens keys ++ [.closeParen]

theorem lexFrom_keys (keys : List ProjectKey) (out : List JqlToken) :
    lexFrom { out, pending := .none } (", ".toList.intercalate (keys.map fun k => quoted k.chars))
      = { out := out ++ keyTokens keys, pending := .none } := by
  induction keys generalizing out with
  | nil => simp [lexFrom, keyTokens]
  | cons key keys ih =>
    cases keys with
    | nil => simpa [keyTokens] using lexFrom_quoted key.inert out
    | cons key' keys =>
      have hcomma : ∀ out, lexFrom { out, pending := .none } ", ".toList
          = { out := out ++ [.symbol ','], pending := .none } := fun out => by
        rw [lexFrom_out]
        rfl
      rw [List.map_cons, List.map_cons, List.intercalate_cons_cons, lexFrom_append,
        lexFrom_append, lexFrom_quoted key.inert, hcomma]
      rw [List.map_cons] at ih
      rw [ih]
      simp [keyTokens]

theorem keyTokens_nested (keys : List ProjectKey) :
    Nested JqlToken.weight 0 0 (keyTokens keys) := by
  induction keys with
  | nil => rfl
  | cons key keys ih =>
    cases keys with
    | nil => exact ⟨le_refl _, rfl⟩
    | cons key' keys => exact ⟨le_refl _, le_refl _, ih⟩

theorem projectTokens_quiet (keys : List ProjectKey) {sep : JqlToken → Bool}
    (hproject : sep (.word "project".toList) = false) (hin : sep (.word "in".toList) = false)
    (hopen : sep .openParen = false) : Quiet JqlToken.weight sep 0 (projectTokens keys) := by
  have hkeys := keyTokens_nested keys
  have hrise := hkeys.rise_eq
  refine ⟨fun h => ?_, fun h => ?_, fun h => ?_, quiet_append.mpr ⟨?_, ?_⟩⟩
  · rw [hproject] at h
    cases h.2
  · rw [hin] at h
    cases h.2
  · rw [hopen] at h
    cases h.2
  · exact (hkeys.inner (le_refl _)).2 sep
  · refine ⟨fun h => ?_, trivial⟩
    have hzero := h.1
    simp only [JqlToken.weight] at hzero
    omega

theorem projectClause_isClause (keys : List ProjectKey) :
    IsClause (projectClause keys) (projectTokens keys) where
  lexed := by
    have hhead : lexFrom .start "project in (".toList
        = { out := [.word "project".toList, .word "in".toList, .openParen], pending := .none } := by
      decide
    have hlast : ∀ out, lexFrom { out, pending := .none } [')']
        = { out := out ++ [.closeParen], pending := .none } := fun out => by
      rw [lexFrom_out]
      rfl
    unfold projectClause projectTokens
    rw [lexFrom_append, lexFrom_append, hhead, lexFrom_keys, hlast]
    simp only [List.cons_append, List.nil_append]
  nested := by
    have hkeys := keyTokens_nested keys
    have hrise : rise JqlToken.weight (keyTokens keys) = 0 := by
      have := hkeys.rise_eq
      omega
    have hin : Nested JqlToken.weight 1 1 (keyTokens keys) := (hkeys.inner (le_refl _)).1
    have htail : Nested JqlToken.weight 1 0 (keyTokens keys ++ [.closeParen]) := by
      refine nested_append.mpr ?_
      rw [hrise]
      exact ⟨hin, by decide, rfl⟩
    exact ⟨by decide, by decide, by decide, htail⟩
  quietOrder := projectTokens_quiet keys (by decide) (by decide) rfl
  quietOr := projectTokens_quiet keys (by decide) (by decide) rfl
  quietAnd := projectTokens_quiet keys (by decide) (by decide) rfl
  paired := by
    have hkeys : ∀ keys : List ProjectKey,
        Paired (", ".toList.intercalate (keys.map fun k => quoted k.chars)) := by
      intro keys
      induction keys with
      | nil => exact Paired.nil
      | cons key keys ih =>
        have hkey : Paired (quoted key.chars) := by
          simpa using Paired.quoted key.inert Paired.nil
        cases keys with
        | nil => simpa using hkey
        | cons key' keys =>
          rw [List.map_cons, List.map_cons, List.intercalate_cons_cons]
          exact (hkey.append (paired_of_all (by decide))).append ih
    exact ((paired_of_all (by decide)).append (hkeys keys)).append (paired_of_all (by decide))

theorem jqlInstant_inert (calendar : Calendar) (timeZone : String) (instant : Int) :
    ∀ c ∈ jqlInstant calendar timeZone instant, isInert c = true := by
  intro c hc
  obtain ⟨d, hd, rfl⟩ := List.mem_map.mp hc
  have hstamp := formatInTimeZone_chars calendar instant timeZone d (List.mem_of_mem_take hd)
  by_cases hdash : d = '-'
  · rw [if_pos hdash]
    decide
  · rw [if_neg hdash]
    by_contra hbad
    simp only [isInert, isQuote, Bool.and_eq_true, Bool.not_eq_true', Bool.or_eq_false_iff,
      bne_iff_ne, not_and_or, beq_eq_false_iff_ne, ne_eq, not_not] at hbad
    rcases hbad with (rfl | rfl) | rfl
    · exact absurd hstamp (by decide)
    · exact absurd hstamp (by decide)
    · exact absurd hstamp (by decide)

theorem updatedClause_isClause (calendar : Calendar) (timeZone : String) (instant : Int)
    {operator : Text} (h : operator = ">=".toList ∨ operator = "<".toList) :
    IsClause (updatedClause calendar timeZone operator instant)
      (.word "updated".toList :: operator.map JqlToken.symbol
        ++ [.str '"' (jqlInstant calendar timeZone instant)]) := by
  have hstamp := jqlInstant_inert calendar timeZone instant
  have hhead : lexFrom .start ("updated ".toList ++ operator ++ [' '])
      = { out := .word "updated".toList :: operator.map JqlToken.symbol, pending := .none } := by
    rcases h with rfl | rfl <;> decide
  have hquoted : Paired (quoted (jqlInstant calendar timeZone instant)) := by
    simpa using Paired.quoted hstamp Paired.nil
  have hplain : ∀ c ∈ "updated ".toList ++ operator ++ [' '], isInert c = true := by
    refine List.all_eq_true.mp ?_
    rcases h with rfl | rfl <;> decide
  have htext : updatedClause calendar timeZone operator instant
      = ("updated ".toList ++ operator ++ [' ']) ++ quoted (jqlInstant calendar timeZone instant) := by
    unfold updatedClause
    rw [List.append_assoc _ [' '], List.singleton_append]
  refine ⟨?_, ?_, ?_, ?_, ?_, ?_⟩
  · rw [htext, lexFrom_append, hhead, lexFrom_quoted hstamp]
  · rcases h with rfl | rfl
    · exact ⟨le_refl _, le_refl _, le_refl _, le_refl _, rfl⟩
    · exact ⟨le_refl _, le_refl _, le_refl _, rfl⟩
  · rcases h with rfl | rfl <;> simp [Quiet, isOrder, isKeyword]
  · rcases h with rfl | rfl <;> simp [Quiet, isOr, isKeyword]
  · rcases h with rfl | rfl <;> simp [Quiet, isAnd, isKeyword]
  · rw [htext]
    exact (paired_of_inert hplain).append hquoted

/-! ## The text that is sent -/

/-- A query in parentheses with clauses behind it, sorted. -/
def wrapQuery (query : Text) (clauses : List Text) : Text :=
  '(' :: query ++ ')' :: andClauses clauses ++ jqlOrder

def andTokens (clauses : List (List JqlToken)) : List JqlToken :=
  clauses.flatMap (.word "AND".toList :: ·)

def orderTokens : List JqlToken :=
  [.word "ORDER".toList, .word "BY".toList, .word "updated".toList, .word "ASC".toList,
    .symbol ',', .word "key".toList, .word "ASC".toList]

section Suffix

variable {clauses : List Text} {tokens : List (List JqlToken)}

theorem lexJql_suffix (h : List.Forall₂ IsClause clauses tokens) :
    lexJql (andClauses clauses ++ jqlOrder) = some (andTokens tokens ++ orderTokens) := by
  induction h with
  | nil => decide
  | @cons clause toks clauses tokens hclause _ ih =>
    have hand : lexFrom .start " AND ".toList
        = { out := [.word "AND".toList], pending := .none } := by decide
    have hfirst : lexFrom .start (" AND ".toList ++ clause)
        = { out := .word "AND".toList :: toks, pending := .none } := by
      have hlex := hclause.lexed
      rw [JqlLexer.start] at hlex
      rw [lexFrom_append, hand, lexFrom_out, hlex]
      rfl
    have hjoin : andClauses (clause :: clauses) ++ jqlOrder
        = (" AND ".toList ++ clause) ++ (andClauses clauses ++ jqlOrder) := by
      unfold andClauses
      rw [List.flatMap_cons, List.append_assoc]
    rw [hjoin, lexJql_append hfirst, ih]
    simp only [Option.map_some, andTokens, List.flatMap_cons, List.append_assoc,
      List.cons_append]

theorem paired_suffix (h : List.Forall₂ IsClause clauses tokens) :
    Paired (andClauses clauses ++ jqlOrder) := by
  induction h with
  | nil => exact paired_of_all (by decide)
  | @cons clause toks clauses tokens hclause _ ih =>
    have hjoin : andClauses (clause :: clauses) ++ jqlOrder
        = (" AND ".toList ++ clause) ++ (andClauses clauses ++ jqlOrder) := by
      unfold andClauses
      rw [List.flatMap_cons, List.append_assoc]
    rw [hjoin]
    exact ((paired_of_all (by decide)).append hclause.paired).append ih

theorem nested_andTokens (h : List.Forall₂ IsClause clauses tokens) :
    Nested JqlToken.weight 0 0 (andTokens tokens) := by
  induction h with
  | nil => rfl
  | cons hclause _ ih =>
    refine ⟨le_refl _, nested_append.mpr ?_⟩
    have hrise := hclause.nested.rise_eq
    rw [zero_add] at hrise
    rw [hrise]
    exact ⟨hclause.nested, ih⟩

theorem quiet_andTokens (h : List.Forall₂ IsClause clauses tokens) :
    Quiet JqlToken.weight isOrder 0 (andTokens tokens) ∧
      Quiet JqlToken.weight isOr 0 (andTokens tokens) := by
  induction h with
  | nil => exact ⟨trivial, trivial⟩
  | cons hclause _ ih =>
    have hrise := hclause.nested.rise_eq
    rw [zero_add] at hrise
    refine ⟨⟨by decide, quiet_append.mpr ?_⟩, ⟨by decide, quiet_append.mpr ?_⟩⟩
    · rw [hrise]
      exact ⟨hclause.quietOrder, ih.1⟩
    · rw [hrise]
      exact ⟨hclause.quietOr, ih.2⟩

theorem splitTop_andTokens (h : List.Forall₂ IsClause clauses tokens) {a : List JqlToken}
    (ha : rise JqlToken.weight a = 0) :
    splitTop JqlToken.weight isAnd 0 (a ++ andTokens tokens)
      = splitTop JqlToken.weight isAnd 0 a ++ tokens := by
  induction h generalizing a with
  | nil => simp [andTokens]
  | @cons clause toks clauses tokens hclause hrest ih =>
    have hrise := hclause.nested.rise_eq
    rw [zero_add] at hrise
    have hcons : a ++ andTokens (toks :: tokens)
        = a ++ .word "AND".toList :: (toks ++ andTokens tokens) := rfl
    rw [hcons, splitTop_append (by rw [ha, add_zero]) (by decide)]
    show _ ++ splitTop JqlToken.weight isAnd 0 (toks ++ andTokens tokens) = _
    rw [ih hrise, splitTop_of_quiet hclause.quietAnd, List.singleton_append]

end Suffix

/-- Read from inside a parenthesis, the text ends outside a string, at the
level it began on, never closes more than that parenthesis, and has no OR
and no ORDER BY outside it. -/
@[irreducible]
def StaysWrapped (query : Text) : Prop :=
  match lexJql query with
  | some tokens =>
    Nested JqlToken.weight 1 1 tokens ∧ Quiet JqlToken.weight isOrder 1 tokens ∧
      Quiet JqlToken.weight isOr 1 tokens
  | none => False

instance (query : Text) : Decidable (StaysWrapped query) :=
  match h : lexJql query with
  | some tokens =>
    decidable_of_iff (Nested JqlToken.weight 1 1 tokens ∧
      Quiet JqlToken.weight isOrder 1 tokens ∧ Quiet JqlToken.weight isOr 1 tokens)
      (by rw [StaysWrapped, h])
  | none => isFalse (by rw [StaysWrapped, h]; exact id)

theorem finish_outside (h : s.pending.Outside) : s.finish = some (s.out ++ s.pending.flush) := by
  obtain ⟨out, p⟩ := s
  cases p with
  | none => rfl
  | word w => rfl
  | str quote content escaped => exact h.elim

theorem finish_str {escaped : Bool} (h : s.pending = .str quote content escaped) : s.finish = none := by
  rw [JqlLexer.finish, h]

theorem pendingStep_outside (h : p.Outside) (c : Char) : pendingStep p c = plainStep p c := by
  cases p with
  | none => rfl
  | word w => rfl
  | str quote content escaped => exact h.elim

theorem lexFrom_close {query : Text} (h : (lexFrom .start query).pending.Outside) :
    ∃ tq, lexJql query = some tq ∧
      lexFrom .start (query ++ [')']) = { out := tq ++ [.closeParen], pending := .none } := by
  refine ⟨_, finish_outside h, ?_⟩
  rw [lexFrom_append]
  show lexStep _ ')' = _
  rw [lexStep, pendingStep_outside h, plainStep_close, List.append_assoc]

theorem lexJql_wrapQuery (query : Text) {clauses : List Text} {tokens : List (List JqlToken)}
    (h : List.Forall₂ IsClause clauses tokens) :
    lexJql (wrapQuery query clauses) = (lexJql query).map fun tq =>
      (.openParen :: tq ++ .closeParen :: andTokens tokens) ++ orderTokens := by
  have hopen : lexFrom .start ['('] = { out := [.openParen], pending := .none } := by
    decide
  have htext : wrapQuery query clauses
      = ['('] ++ ((query ++ [')']) ++ (andClauses clauses ++ jqlOrder)) := by
    unfold wrapQuery
    simp only [List.append_assoc, List.cons_append, List.nil_append]
  rw [htext, lexJql_append hopen]
  by_cases hout : (lexFrom .start query).pending.Outside
  · obtain ⟨tq, htq, hread⟩ := lexFrom_close hout
    rw [htq, lexJql_append hread, lexJql_suffix h]
    simp only [Option.map_some, List.cons_append, List.nil_append, List.append_assoc]
  · -- the parenthesis and the clauses are read inside the open string
    obtain ⟨quote, content, escaped, hp⟩ :
        ∃ quote content escaped, (lexFrom .start query).pending = .str quote content escaped := by
      cases hp : (lexFrom .start query).pending with
      | none =>
        rw [hp] at hout
        exact absurd trivial hout
      | word w =>
        rw [hp] at hout
        exact absurd trivial hout
      | str quote content escaped => exact ⟨quote, content, escaped, rfl⟩
    have hq := lexFrom_quote query (s := .start) (fun _ _ _ h => by cases h) _ _ _ hp
    have hin : (lexFrom .start (query ++ [')'])).pending.InString := by
      have hne : ')' ≠ quote := by
        rintro rfl
        exact absurd hq (by decide)
      refine ⟨quote, content ++ [')'], ?_, hq⟩
      rw [lexFrom_append]
      show (pendingStep _ ')').2 = _
      rw [hp]
      cases escaped <;> simp [pendingStep, hne]
    obtain ⟨quote', content', hp', -⟩ := (paired_suffix h).inString hin
    have hnone : lexJql ((query ++ [')']) ++ (andClauses clauses ++ jqlOrder)) = none := by
      rw [lexJql, lexFrom_append]
      exact finish_str hp'
    rw [hnone, lexJql, finish_str hp]
    rfl

section Wrapped

variable {clauses : List Text} {tokens : List (List JqlToken)}

/-- The query in its parenthesis, with the clauses. -/
def wrapTokens (tq : List JqlToken) (tokens : List (List JqlToken)) : List JqlToken :=
  .openParen :: tq ++ .closeParen :: andTokens tokens

theorem rise_wrapTokens (h : List.Forall₂ IsClause clauses tokens) (tq : List JqlToken) :
    rise JqlToken.weight (wrapTokens tq tokens) = rise JqlToken.weight tq := by
  have hand := (nested_andTokens h).rise_eq
  simp only [wrapTokens, List.cons_append, rise_cons, rise_append, JqlToken.weight]
  omega

theorem balanced_wrapTokens_iff (h : List.Forall₂ IsClause clauses tokens) (tq : List JqlToken) :
    Balanced (wrapTokens tq tokens ++ orderTokens) ↔ Nested JqlToken.weight 1 1 tq := by
  have hand := nested_andTokens h
  have hrise := hand.rise_eq
  have horder : Nested JqlToken.weight 0 0 orderTokens := by decide
  have hrest : ∀ d : Int, Nested JqlToken.weight d 0 (.closeParen :: andTokens tokens ++ orderTokens)
      ↔ d = 1 := fun d => by
    rw [List.cons_append, Nested, nested_append]
    constructor
    · rintro ⟨-, hnested, hlast⟩
      have hend := hlast.rise_eq
      have horise := horder.rise_eq
      simp only [JqlToken.weight] at hend horise ⊢
      omega
    · rintro rfl
      rw [zero_add] at hrise
      show _ ∧ Nested JqlToken.weight 0 (0 + _) _ ∧ Nested JqlToken.weight (0 + _) 0 _
      rw [hrise]
      exact ⟨by decide, hand, horder⟩
  have hlist : wrapTokens tq tokens ++ orderTokens
      = .openParen :: (tq ++ (.closeParen :: andTokens tokens ++ orderTokens)) := by
    simp only [wrapTokens, List.cons_append, List.append_assoc]
  rw [Balanced, hlist, Nested, nested_append, hrest]
  show _ ∧ Nested JqlToken.weight 1 (1 + _) tq ∧ 1 + _ = (1 : Int) ↔ _
  constructor
  · rintro ⟨-, hnested, hend⟩
    rwa [hend] at hnested
  · intro hnested
    have hend := hnested.rise_eq
    rw [hend]
    exact ⟨by decide, hnested, rfl⟩

/-- A separator that no clause has outside parentheses is in the wrapped
query only where it is in the query. -/
theorem quiet_wrapTokens_iff {sep : JqlToken → Bool} (hopen : sep .openParen = false)
    (hclose : sep .closeParen = false) (hand : Quiet JqlToken.weight sep 0 (andTokens tokens))
    {tq : List JqlToken} (htq : rise JqlToken.weight tq = 0) :
    Quiet JqlToken.weight sep 0 (wrapTokens tq tokens) ↔ Quiet JqlToken.weight sep 1 tq := by
  rw [wrapTokens, List.cons_append, Quiet, quiet_append, Quiet, hopen, hclose]
  show _ ∧ Quiet JqlToken.weight sep 1 tq ∧ _ ∧ Quiet JqlToken.weight sep (1 + _ + -1) _ ↔ _
  rw [htq]
  constructor
  · exact fun h => h.2.1
  · exact fun h => ⟨fun e => Bool.false_ne_true e.2, h, fun e => Bool.false_ne_true e.2, hand⟩

theorem conditionsOf_sorted {body : List JqlToken} (hbody : rise JqlToken.weight body = 0)
    {found : List JqlToken} :
    conditionsOf (body ++ orderTokens) = some found ↔
      found = body ∧ Quiet JqlToken.weight isOrder 0 body := by
  have hparts : orderParts (body ++ orderTokens)
      = splitTop JqlToken.weight isOrder 0 body ++ [orderTokens.tail] := by
    have hsplit : splitTop JqlToken.weight isOrder 0
        (body ++ .word "ORDER".toList :: orderTokens.tail) = _ :=
      splitTop_append (by rw [hbody, add_zero]) (by decide)
    exact hsplit.trans (congrArg _ (splitTop_of_quiet (by decide)))
  rw [conditionsOf, hparts]
  constructor
  · intro h
    have hq : Quiet JqlToken.weight isOrder 0 body := by
      by_contra hq
      have hlen := two_le_length_splitTop hq
      split at h
      case h_1 heq =>
        have hcount := congrArg List.length heq
        simp only [List.length_append, List.length_cons, List.length_nil] at hcount
        omega
      case h_2 heq =>
        have hcount := congrArg List.length heq
        simp only [List.length_append, List.length_cons, List.length_nil] at hcount
        omega
      case h_3 => cases h
    rw [splitTop_of_quiet hq] at h
    exact ⟨(Option.some.inj h).symm, hq⟩
  · rintro ⟨rfl, hq⟩
    rw [splitTop_of_quiet hq]
    rfl

/-- The wrapped text is a conjunction with its clauses among the conjuncts
exactly when the query stays inside its parenthesis. -/
theorem wrapQuery_parsesWith_iff (h : List.Forall₂ IsClause clauses tokens) (query : Text) :
    ParsesWith clauses (wrapQuery query clauses) ↔ StaysWrapped query := by
  have hlex := lexJql_wrapQuery query h
  obtain ⟨hquietOrder, hquietOr⟩ := quiet_andTokens h
  cases hq : lexJql query with
  | none =>
    rw [StaysWrapped, hq]
    refine iff_of_false ?_ id
    rintro ⟨all, body, hall, -⟩
    rw [hlex, hq] at hall
    cases hall
  | some tq =>
    rw [StaysWrapped, hq]
    have hall : lexJql (wrapQuery query clauses)
        = some (wrapTokens tq tokens ++ orderTokens) := by
      rw [hlex, hq]
      rfl
    constructor
    · rintro ⟨all, body, hsome, hbalanced, hbody, hone, -⟩
      obtain rfl := Option.some.inj (hall.symm.trans hsome)
      have hnested := (balanced_wrapTokens_iff h tq).mp hbalanced
      have htq : rise JqlToken.weight tq = 0 := by
        have := hnested.rise_eq
        omega
      have hrise := (rise_wrapTokens h tq).trans htq
      obtain ⟨rfl, horder⟩ := (conditionsOf_sorted hrise).mp hbody
      refine ⟨hnested, (quiet_wrapTokens_iff rfl rfl hquietOrder htq).mp horder, ?_⟩
      exact (quiet_wrapTokens_iff rfl rfl hquietOr htq).mp (splitTop_eq_singleton.mp hone)
    · rintro ⟨hnested, horder, hor⟩
      have htq : rise JqlToken.weight tq = 0 := by
        have := hnested.rise_eq
        omega
      have hrise := (rise_wrapTokens h tq).trans htq
      refine ⟨_, wrapTokens tq tokens, hall, (balanced_wrapTokens_iff h tq).mpr hnested,
        (conditionsOf_sorted hrise).mpr ⟨rfl, ?_⟩, ?_, fun clause hclause => ?_⟩
      · exact (quiet_wrapTokens_iff rfl rfl hquietOrder htq).mpr horder
      · exact splitTop_of_quiet ((quiet_wrapTokens_iff rfl rfl hquietOr htq).mpr hor)
      · have hconjuncts : andConjuncts (wrapTokens tq tokens)
            = splitTop JqlToken.weight isAnd 0 (.openParen :: tq ++ [.closeParen]) ++ tokens := by
          have hsplit := splitTop_andTokens h (a := .openParen :: tq ++ [.closeParen]) (by
            simp only [List.cons_append, rise_cons, rise_append, rise_nil, htq, JqlToken.weight]
            omega)
          rw [← hsplit, andConjuncts, wrapTokens]
          simp only [List.cons_append, List.append_assoc, List.nil_append]
        obtain ⟨toks, htoks, hc⟩ : ∃ toks ∈ tokens, IsClause clause toks := by
          obtain ⟨i, hi, rfl⟩ := List.mem_iff_getElem.mp hclause
          have hi' : i < tokens.length := by rwa [← h.length_eq]
          exact ⟨tokens[i], List.getElem_mem hi', (List.forall₂_iff_get.mp h).2 i hi hi'⟩
        refine ⟨toks, hc.lexJql, ?_⟩
        rw [hconjuncts]
        exact List.mem_append_right _ htoks

end Wrapped

/-! ## The validator's scanner and the lexer -/

/-- The scanner's quote is the one of the string the lexer is in. -/
def SameQuote : Option Char → Pending → Prop
  | none, p => p.Outside
  | some quote, p => ∃ content, p = .str quote content false

theorem nested_flush (p : Pending) (d : Int) (hd : 0 ≤ d) :
    Nested JqlToken.weight d d p.flush := by
  cases p with
  | none => rfl
  | word w => exact ⟨by simpa [JqlToken.weight] using hd, by simp [Nested, JqlToken.weight]⟩
  | str quote content escaped => rfl

theorem finish_map (s : JqlLexer) (t : Text) :
    (lexFrom s t).finish = (lexFrom { out := [], pending := s.pending } t).finish.map (s.out ++ ·) := by
  have hout := lexFrom_out t s.out s.pending
  have hs : s = { out := s.out, pending := s.pending } := rfl
  rw [← hs] at hout
  rw [hout]
  generalize lexFrom { out := [], pending := s.pending } t = r
  obtain ⟨out, p⟩ := r
  cases p with
  | none => simp [JqlLexer.finish, Pending.flush]
  | word w => simp [JqlLexer.finish, Pending.flush]
  | str quote content escaped => rfl

theorem plainStep_other (hp : p.Outside) (hquote : isQuote c = false) (hopen : c ≠ '(') (hclose : c ≠ ')') :
    (plainStep p c).2.Outside ∧ ∀ d : Int, 0 ≤ d →
      Nested JqlToken.weight d d (plainStep p c).1 := by
  refine ⟨outside_plainStep hquote, fun d hd => ?_⟩
  unfold plainStep
  rw [if_neg (by simp [hquote]), if_neg hopen, if_neg hclose]
  by_cases hspace : isSpace c = true
  · rw [if_pos hspace]
    exact nested_flush p d hd
  rw [if_neg hspace]
  by_cases hsymbol : isJqlSymbol c = true
  · rw [if_pos hsymbol]
    have hflush := nested_flush p d hd
    refine nested_append.mpr ?_
    rw [hflush.rise_eq]
    exact ⟨hflush, by simpa [JqlToken.weight] using hd, by simp [Nested, JqlToken.weight]⟩
  rw [if_neg hsymbol]
  cases p with
  | none => rfl
  | word w => rfl
  | str quote content escaped => exact hp.elim

theorem nested_of_balanced (hplain : '\\' ∉ t) {d : Nat} {quote : Option Char}
    (hsame : SameQuote quote p) (h : balanceFrom false d quote t = none) :
    ∃ tokens, (lexFrom { out := [], pending := p } t).finish = some tokens ∧
      Nested JqlToken.weight d 0 tokens := by
  induction t generalizing d quote p with
  | nil =>
    cases quote with
    | some q => cases h
    | none =>
      obtain rfl : d = 0 := by
        by_contra hd
        simp [balanceFrom, Nat.pos_of_ne_zero hd] at h
      exact ⟨_, finish_outside hsame, nested_flush p 0 (le_refl _)⟩
  | cons c t ih =>
    rw [List.mem_cons, not_or] at hplain
    obtain ⟨hc, hplain⟩ := hplain
    -- what the character completes comes in front of what the rest completes
    have hstep : ∀ (emitted : List JqlToken) (p' : Pending) (d' : Nat) (quote' : Option Char),
        pendingStep p c = (emitted, p') → Nested JqlToken.weight d d' emitted →
        SameQuote quote' p' → balanceFrom false d' quote' t = none →
        ∃ tokens, (lexFrom { out := [], pending := p } (c :: t)).finish = some tokens ∧
          Nested JqlToken.weight d 0 tokens := by
      intro emitted p' d' quote' hp' hemitted hsame' hrest
      obtain ⟨tokens, htokens, hnested⟩ := ih hplain hsame' hrest
      refine ⟨emitted ++ tokens, ?_, nested_append.mpr ?_⟩
      · rw [lexFrom_cons, lexStep, finish_map]
        simp only [hp', List.nil_append, htokens, Option.map_some]
      · rw [hemitted.rise_eq]
        exact ⟨hemitted, hnested⟩
    cases quote with
    | some q =>
      obtain ⟨content, rfl⟩ := hsame
      by_cases hq : c = q
      · refine hstep [.str q content] .none d none ?_ ?_ trivial ?_
        · simp [pendingStep, hq, Ne.symm (hq ▸ hc)]
        · exact ⟨by simp [JqlToken.weight], by simp [Nested, JqlToken.weight]⟩
        · rwa [balanceFrom, if_pos hq] at h
      · refine hstep [] (.str q (content ++ [c]) false) d (some q) ?_ rfl ⟨_, rfl⟩ ?_
        · simp [pendingStep, hq, Ne.symm hc]
        · rwa [balanceFrom, if_neg hq] at h
    | none =>
      have hout : p.Outside := hsame
      have hp := pendingStep_outside hout c
      have hflush := nested_flush p d (Int.natCast_nonneg d)
      unfold balanceFrom at h
      by_cases hquote : c = '"' ∨ c = '\''
      · rw [if_pos hquote] at h
        have hisQuote : isQuote c = true := by simpa [isQuote] using hquote
        refine hstep p.flush (.str c [] false) d (some c) ?_ hflush ⟨[], rfl⟩ h
        rw [hp, plainStep_isQuote hisQuote]
      have hisQuote : isQuote c = false := by
        rw [not_or] at hquote
        simp [isQuote, hquote.1, hquote.2]
      rw [if_neg hquote, if_neg (by simp)] at h
      by_cases hopen : c = '('
      · rw [if_pos hopen] at h
        refine hstep (p.flush ++ [.openParen]) .none (d + 1) none ?_ ?_ trivial h
        · rw [hp, hopen]
          unfold plainStep
          rw [if_neg (by decide), if_pos rfl]
        · refine nested_append.mpr ?_
          rw [hflush.rise_eq]
          refine ⟨hflush, ?_, ?_⟩
          · simp only [JqlToken.weight]
            omega
          · simp [Nested, JqlToken.weight]
      rw [if_neg hopen] at h
      by_cases hclose : c = ')'
      · rw [if_pos hclose] at h
        cases d with
        | zero => cases h
        | succ d =>
          refine hstep (p.flush ++ [.closeParen]) .none d none ?_ ?_ trivial h
          · rw [hp, hclose, plainStep_close]
          · refine nested_append.mpr ?_
            rw [hflush.rise_eq]
            refine ⟨hflush, ?_, ?_⟩
            · simp only [JqlToken.weight]
              omega
            · simp [Nested, JqlToken.weight]
      rw [if_neg hclose] at h
      obtain ⟨hnext, hemitted⟩ := plainStep_other hout hisQuote hopen hclose
      exact hstep _ _ d none hp (hemitted d (Int.natCast_nonneg d)) hnext h

theorem staysWrapped_of_accepted {platform : Platform} {query : Text}
    {catalog : Option QueryIndexCatalog}
    (haccepted : (validateJql platform query catalog).valid = true) (hplain : '\\' ∉ query) :
    StaysWrapped query := by
  have hbalance : balanceProblem query false = none := by
    rw [validateJql] at haccepted
    by_cases hbasic : basicProblems query = []
    · rw [if_neg (not_not_intro hbasic)] at haccepted
      cases hb : balanceProblem query false with
      | none => rfl
      | some problem =>
        rw [hb, finish_valid] at haccepted
        cases haccepted
    · rw [if_pos hbasic, finish_valid] at haccepted
      exact absurd haccepted hbasic
  have hsame : SameQuote none .none := trivial
  obtain ⟨tokens, htokens, hnested⟩ := nested_of_balanced hplain hsame hbalance
  obtain ⟨hinner, hquiet⟩ := hnested.inner (le_refl _)
  have hlex : lexJql query = some tokens := htokens
  rw [StaysWrapped, hlex]
  exact ⟨hinner, hquiet isOrder, hquiet isOr⟩

/-! ## The queries the adapter sends -/

/-- The text is a conjunction with the clauses among its conjuncts, so that
every issue it matches satisfies them. -/
def Scoped (clauses : List Text) (jql : Text) : Prop :=
  ParsesWith clauses jql ∧ ∀ holds, Matches holds jql →
    ∀ clause ∈ clauses, ∃ c, lexJql clause = some c ∧ holds c

theorem scoped_iff (clauses : List Text) (jql : Text) :
    Scoped clauses jql ↔ ParsesWith clauses jql :=
  ⟨And.left, fun h => ⟨h, fun _ => h.holds⟩⟩

theorem fetchNativeQuery_parsesWith (calendar : Calendar) (timeZone : String)
    (keys : List ProjectKey) (query : Text) (watermark : Int) :
    ∃ jql, Jira.fetchNativeQuery calendar timeZone keys "issue" query (some watermark) = .ok jql ∧
      (ParsesWith [projectClause keys,
          updatedSince calendar timeZone (watermark - JQL_OVERLAP_MS)] jql ↔
        StaysWrapped query) := by
  refine ⟨_, rfl, ?_⟩
  have hproject := projectClause_isClause keys
  have hsince := updatedClause_isClause calendar timeZone (watermark - JQL_OVERLAP_MS) (Or.inl rfl)
  exact wrapQuery_parsesWith_iff (.cons hproject (.cons hsince .nil)) query

theorem fetchBackfillPage_parsesWith (calendar : Calendar) (timeZone : String)
    (keys : List ProjectKey) (query : Text) (hquery : query ≠ []) (window : BackfillWindow) :
    ∃ jql, Jira.fetchBackfillPage calendar timeZone keys "issue" window (some query) = .ok jql ∧
      (ParsesWith [projectClause keys, updatedSince calendar timeZone window.from_,
          updatedBefore calendar timeZone window.to_] jql ↔ StaysWrapped query) := by
  obtain ⟨c, t, rfl⟩ := List.exists_cons_of_ne_nil hquery
  have hproject := projectClause_isClause keys
  have hsince := updatedClause_isClause calendar timeZone window.from_ (Or.inl rfl)
  have hbefore := updatedClause_isClause calendar timeZone window.to_ (Or.inr rfl)
  refine ⟨wrapQuery (c :: t) [projectClause keys, updatedSince calendar timeZone window.from_,
    updatedBefore calendar timeZone window.to_], ?_,
    wrapQuery_parsesWith_iff (.cons hproject (.cons hsince (.cons hbefore .nil))) (c :: t)⟩
  unfold Jira.fetchBackfillPage wrapQuery andClauses
  rw [if_neg (not_not_intro rfl)]
  simp only [List.flatMap_cons, List.flatMap_nil, List.append_nil, List.append_assoc,
    List.cons_append]

/-- An accepted scheduled query cannot leave its project scope and
watermark, nor an accepted backfill query its window, exactly when it
stays inside the parenthesis the adapter puts it in; it does when it holds
no backslash. -/
theorem accepted_jql_scoped_iff (platform : Platform) (catalog : Option QueryIndexCatalog)
    (calendar : Calendar) (timeZone : String) (keys : List ProjectKey) (query : Text)
    (haccepted : (validateJql platform query catalog).valid = true) :
    (∀ watermark, ∃ jql,
        Jira.fetchNativeQuery calendar timeZone keys "issue" query (some watermark) = .ok jql ∧
        (Scoped [projectClause keys,
            updatedSince calendar timeZone (watermark - JQL_OVERLAP_MS)] jql ↔
          StaysWrapped query)) ∧
      (∀ window, ∃ jql,
        Jira.fetchBackfillPage calendar timeZone keys "issue" window (some query) = .ok jql ∧
        (Scoped [projectClause keys, updatedSince calendar timeZone window.from_,
            updatedBefore calendar timeZone window.to_] jql ↔ StaysWrapped query)) ∧
      ('\\' ∉ query → StaysWrapped query) := by
  simp only [scoped_iff]
  refine ⟨fun watermark => fetchNativeQuery_parsesWith calendar timeZone keys query watermark,
    fun window => ?_, staysWrapped_of_accepted haccepted⟩
  refine fetchBackfillPage_parsesWith calendar timeZone keys query ?_ window
  rintro rfl
  cases haccepted

def sampleKey : ProjectKey := ⟨"CAD".toList, by decide⟩

/-- A query with no quotes keeps its scope and watermark. -/
theorem accepted_jql_scoped_iff_plain :
    ∃ jql, Jira.fetchNativeQuery epochCalendar "UTC" [sampleKey] "issue"
        "project = CAD AND status = Open".toList (some 60000) = .ok jql ∧
      Scoped [projectClause [sampleKey], updatedSince epochCalendar "UTC" (60000 - JQL_OVERLAP_MS)]
        jql := by
  obtain ⟨jql, hjql, hiff⟩ := (accepted_jql_scoped_iff Platform.ascii none epochCalendar "UTC"
    [sampleKey] "project = CAD AND status = Open".toList (by decide)).1 60000
  exact ⟨jql, hjql, hiff.mpr (by decide)⟩

/-- The validator sees two short strings where JQL sees one that hides the
end of the parenthesis: the accepted text closes it and adds an OR. -/
def escapingQuery : Text :=
  "project = A AND summary ~ \"\\\" AND x ~ \") OR (key = B AND y ~ \"\\\"\"".toList

theorem escaped_quote_leaves_scope :
    ¬ ∀ (platform : Platform) (catalog : Option QueryIndexCatalog) (calendar : Calendar)
        (timeZone : String) (keys : List ProjectKey) (query : Text) (watermark : Int) (jql : Text),
      (validateJql platform query catalog).valid = true →
      Jira.fetchNativeQuery calendar timeZone keys "issue" query (some watermark) = .ok jql →
      Scoped [projectClause keys, updatedSince calendar timeZone (watermark - JQL_OVERLAP_MS)]
        jql := by
  intro h
  obtain ⟨jql, hjql, hiff⟩ :=
    fetchNativeQuery_parsesWith epochCalendar "UTC" [sampleKey] escapingQuery 60000
  have hscoped := h Platform.ascii none epochCalendar "UTC" [sampleKey] escapingQuery 60000 jql
    (by decide +kernel) hjql
  rw [scoped_iff, hiff] at hscoped
  exact absurd hscoped (by decide +kernel)

end Cadena.NativeQuery
