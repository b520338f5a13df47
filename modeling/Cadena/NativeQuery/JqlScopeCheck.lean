import Cadena.NativeQuery.JqlStructure

/-!
# Scope of an accepted JQL query

`isScoped` works on the text, the grammar on tokens. Where the scanners
read the text as the grammar does, a text that `validateJql` accepts has a
positive clause on a scope field in every OR branch
(`accepted_query_scoped`). They do not where a string holds an escaped
quotation mark, where a connective stands directly beside a string, where
WAS NOT is taken for WAS, and where a field's name begins with a scope
field and goes on with IN or WAS.
-/

namespace Cadena.NativeQuery

open Cadena.Base

/-- On ASCII the runtime's lower case is the usual one. -/
def LowersAscii (platform : Platform) : Prop :=
  ∀ t : Text, (∀ c ∈ t, c.toNat < 128) →
    platform.toLowerCase (String.ofList t) = String.ofList (t.map Char.toLower)

theorem lowersAscii_ascii : LowersAscii Platform.ascii := by
  intro t _
  simp [Platform.ascii]

/-! ## The field of a clause -/

variable {f r rest text : Text} {c quote : Char} {ts : List JqlToken} {ps : List JqlPiece}
  {platform : Platform}

theorem word_front {w : Text} (h : f ++ rest = w ++ r)
    (hf : ∀ c ∈ f, isPlain c = true) (hr : EndsWord r) : ∃ v, w = f ++ v ∧ rest = v ++ r := by
  rcases List.append_eq_append_iff.mp h with ⟨v, hw, hrest⟩ | ⟨x, hfx, hrx⟩
  · exact ⟨v, hw, hrest⟩
  · cases x with
    | nil =>
      rw [List.append_nil] at hfx
      exact ⟨[], by rw [hfx, List.append_nil], hrx.symm⟩
    | cons c x =>
      have hplain := hf c (by rw [hfx]; simp)
      rw [hr c (by rw [hrx]; rfl)] at hplain
      cases hplain

theorem unquote_plain (hf : ∀ c ∈ f, isPlain c = true) : unquote f = f := by
  have hmark : ∀ c ∈ f, c ≠ '"' ∧ c ≠ '\'' := fun c hc => not_or.mp (isPlain_spec (hf c hc)).1
  cases f with
  | nil => rfl
  | cons c f =>
    obtain ⟨d, hd⟩ : ∃ d, (c :: f).getLast? = some d := ⟨_, List.getLast?_eq_some_getLast (by simp)⟩
    have hc := hmark c List.mem_cons_self
    have hd' := hmark d (List.mem_of_getLast? hd)
    simp [unquote, hc, hd, hd']

theorem unquote_quoted (hquote : isQuote quote = true) (content : Text) :
    unquote (quote :: content ++ [quote]) = content := by
  have hlast : (content ++ [quote]).getLast? = some quote := List.getLast?_concat
  rcases isQuote_eq hquote with rfl | rfl
  · simp [unquote, hlast]
  · simp [unquote, hlast]

theorem isPlain_of_isDigit (h : c.isDigit = true) : isPlain c = true := by
  have hrange : 48 ≤ c.toNat ∧ c.toNat ≤ 57 := by
    simp only [Char.isDigit, Bool.and_eq_true, decide_eq_true_eq, ge_iff_le,
      UInt32.le_iff_toNat_le] at h
    exact h
  exact isPlain_of_range (by omega)

theorem isPlain_of_isWordChar (h : (isWordChar c || c == '.') = true) : isPlain c = true := by
  rw [isWordChar, Bool.or_eq_true, Bool.or_eq_true, beq_iff_eq, beq_iff_eq] at h
  rcases h with (h | rfl) | rfl
  · rw [Char.isAlphanum, Bool.or_eq_true] at h
    rcases h with h | h
    · exact isPlain_of_isAlpha h
    · exact isPlain_of_isDigit h
  · decide
  · decide

theorem stripWord_split {word : Text} (h : stripWord word text = some rest) :
    ∃ x, text = x ++ rest ∧ x.map Char.toLower = word := by
  induction word generalizing text with
  | nil => exact ⟨[], by simpa [stripWord] using h, rfl⟩
  | cons p word ih =>
    cases text with
    | nil => cases h
    | cons c text =>
      rw [stripWord] at h
      split at h
      case isTrue hc =>
        obtain ⟨x, rfl, hx⟩ := ih h
        exact ⟨c :: x, rfl, by rw [List.map_cons, hc, hx]⟩
      case isFalse => cases h

theorem isPlain_of_lower_cf {c : Char} (h : c.toLower ∈ "cf[".toList) : isPlain c = true := by
  have hcases : c.toLower = 'c' ∨ c.toLower = 'f' ∨ c.toLower = '[' := by simpa using h
  rcases hcases with h | h | h
  · exact isPlain_of_isAlpha (isAlpha_of_toLower (p := 'c') rfl h)
  · exact isPlain_of_isAlpha (isAlpha_of_toLower (p := 'f') rfl h)
  · by_cases halpha : c.isAlpha = true
    · exact isPlain_of_isAlpha halpha
    · have hsame : c.toLower = c := toLower_of_not_isAlpha (by simpa using halpha)
      rw [← hsame, h]
      decide

/-- `cf[` and digits and `]`. -/
structure IsCustomField (f : Text) (x digits : Text) : Prop where
  text : f = x ++ (digits ++ [']'])
  front : x.map Char.toLower = "cf[".toList
  ne_nil : digits ≠ []
  digits : ∀ d ∈ digits, d.isDigit = true

theorem IsCustomField.plain {x digits : Text} (h : IsCustomField f x digits) : ∀ c ∈ f, isPlain c = true := by
  intro c hc
  rw [h.text] at hc
  rcases List.mem_append.mp hc with hc | hc
  · exact isPlain_of_lower_cf (by rw [← h.front]; exact List.mem_map_of_mem hc)
  · rcases List.mem_append.mp hc with hc | hc
    · exact isPlain_of_isDigit (h.digits c hc)
    · obtain rfl := List.mem_singleton.mp hc
      decide

theorem mem_customField (h : (f, rest) ∈ customField text) :
    f ++ rest = text ∧ ∃ x digits, IsCustomField f x digits := by
  rw [customField] at h
  split at h
  case h_2 => cases h
  case h_1 behind hstrip =>
    obtain ⟨x, rfl, hx⟩ := stripWord_split hstrip
    dsimp only at h
    have hbehind : behind = behind.takeWhile Char.isDigit
        ++ behind.drop (behind.takeWhile Char.isDigit).length := by
      have hdrop : behind.drop (behind.takeWhile Char.isDigit).length
          = behind.dropWhile Char.isDigit := by
        have hleft : (behind.takeWhile Char.isDigit ++ behind.dropWhile Char.isDigit).drop
            (behind.takeWhile Char.isDigit).length = behind.dropWhile Char.isDigit := List.drop_left
        rwa [List.takeWhile_append_dropWhile] at hleft
      rw [hdrop, List.takeWhile_append_dropWhile]
    split at h
    case h_2 => cases h
    case h_1 after hafter =>
      split at h
      case isFalse => cases h
      case isTrue hne =>
        rw [hafter] at hbehind
        generalize hdigits : behind.takeWhile Char.isDigit = digits at h hbehind hne
        obtain ⟨rfl, rfl⟩ := Prod.mk.inj (List.mem_singleton.mp h)
        have hlen : x.length = 3 := by
          have := congrArg List.length hx
          simpa using this
        have hfour : digits.length + 4 = (x ++ (digits ++ [']'])).length := by
          simp only [List.length_append, hlen, List.length_singleton]
          omega
        have htext : x ++ behind = (x ++ (digits ++ [']'])) ++ rest := by
          rw [hbehind]
          simp
        have hf : (x ++ behind).take (digits.length + 4) = x ++ (digits ++ [']']) := by
          rw [htext, hfour, List.take_left]
        rw [hf]
        refine ⟨htext.symm, x, digits, rfl, hx, hne, fun d hd => ?_⟩
        rw [← hdigits] at hd
        exact List.mem_takeWhile_imp hd

theorem mem_plainField (h : (f, rest) ∈ plainField text) : f ++ rest = text ∧ ∀ c ∈ f, isPlain c = true := by
  cases text with
  | nil => cases h
  | cons c t =>
    rw [plainField] at h
    split at h
    case isFalse => cases h
    case isTrue halpha =>
      obtain ⟨n, hn, hpair⟩ := List.mem_map.mp h
      obtain ⟨rfl, rfl⟩ := Prod.mk.inj hpair
      refine ⟨by rw [List.cons_append, List.take_append_drop], fun d hd => ?_⟩
      rcases List.mem_cons.mp hd with rfl | hd
      · exact isPlain_of_isAlpha halpha
      · -- no more is taken than the run
        have hle : n ≤ (t.takeWhile fun d => isWordChar d || d == '.').length := by
          have := List.mem_range.mp (List.mem_reverse.mp hn)
          omega
        have htake : t.take n = (t.takeWhile fun d => isWordChar d || d == '.').take n := by
          conv => lhs; rw [← List.takeWhile_append_dropWhile (p := fun d => isWordChar d || d == '.') (l := t)]
          rw [List.take_append_of_le_length hle]
        rw [htake] at hd
        have hrun := List.mem_takeWhile_imp (List.mem_of_mem_take hd)
        exact isPlain_of_isWordChar hrun

theorem quotedField_other (h : c ≠ quote) (t : Text) : quotedField quote (c :: t) = [] := by
  rw [quotedField]
  split
  · rw [if_neg (fun hcond => h hcond.1)]
  · rfl

theorem fieldCandidates_word {t : Text} (hc : isPlain c = true) (h : (f, rest) ∈ fieldCandidates (c :: t)) :
    f ++ rest = c :: t ∧ ∀ d ∈ f, isPlain d = true := by
  have hne := not_or.mp (isPlain_spec hc).1
  rw [fieldCandidates, quotedField_other hne.1, quotedField_other hne.2, List.nil_append,
    List.nil_append, List.mem_append] at h
  rcases h with h | h
  · obtain ⟨htext, x, digits, hcustom⟩ := mem_customField h
    exact ⟨htext, hcustom.plain⟩
  · exact mem_plainField h

theorem quotedField_str {content : Text} (hne : content ≠ []) (hcontent : quote ∉ content) (rest : Text) :
    quotedField quote (quote :: content ++ quote :: rest)
      = [(quote :: content ++ [quote], rest)] := by
  have htake : (content ++ quote :: rest).takeWhile (fun c => decide (c ≠ quote)) = content := by
    rw [List.takeWhile_append_of_pos (by
      intro c hc
      simp only [decide_eq_true_eq]
      rintro rfl
      exact hcontent hc), List.takeWhile_cons_of_neg (by simp), List.append_nil]
  rw [List.cons_append, quotedField, htake, List.drop_left]
  show (if quote = quote ∧ content ≠ [] then _ else _) = _
  rw [if_pos ⟨rfl, hne⟩]

theorem fieldCandidates_str (hquote : isQuote quote = true) {content : Text}
    (hne : content ≠ []) (hcontent : quote ∉ content) (rest : Text) :
    fieldCandidates (quote :: content ++ quote :: rest)
      = [(quote :: content ++ [quote], rest)] := by
  have hcustom : customField (quote :: content ++ quote :: rest) = [] := by
    rw [customField]
    rcases isQuote_eq hquote with rfl | rfl <;> rfl
  have hplain : plainField (quote :: content ++ quote :: rest) = [] := by
    rw [List.cons_append, plainField, if_neg]
    rcases isQuote_eq hquote with rfl | rfl <;> decide
  rw [fieldCandidates, hcustom, hplain]
  rcases isQuote_eq hquote with rfl | rfl
  · have hother : quotedField '\'' ('"' :: content ++ '"' :: rest) = [] :=
      quotedField_other (by decide) _
    rw [quotedField_str hne hcontent, hother]
    rfl
  · have hother : quotedField '"' ('\'' :: content ++ '\'' :: rest) = [] :=
      quotedField_other (by decide) _
    rw [quotedField_str hne hcontent, hother]
    rfl

/-! ## The operator of a clause -/

theorem dropWhile_spell (hproper : ∀ p ∈ ps, p.Proper) {t : JqlToken} (h : tokensOf ps = t :: ts) :
    ∃ qs, .tok t :: qs <:+ ps ∧ tokensOf qs = ts ∧
      (spell ps).dropWhile isSpace = t.spell ++ spell qs := by
  induction ps with
  | nil => cases h
  | cons p ps ih =>
    cases p with
    | gap c =>
      obtain ⟨qs, hqs, hts, hspell⟩ := ih (fun q hq => hproper q (List.mem_cons_of_mem _ hq)) h
      refine ⟨qs, hqs.trans (List.suffix_cons _ _), hts, ?_⟩
      show (c :: spell ps).dropWhile isSpace = _
      rw [List.dropWhile_cons_of_pos (hproper _ List.mem_cons_self), hspell]
    | tok u =>
      obtain ⟨rfl, hts⟩ := List.cons.inj h
      refine ⟨ps, List.suffix_rfl, hts, ?_⟩
      obtain ⟨⟨c, hc, hspace⟩, -⟩ := JqlToken.spell_ends (hproper (.tok u) List.mem_cons_self)
      obtain ⟨s, hs⟩ : ∃ s, u.spell = c :: s := by
        cases hu : u.spell with
        | nil =>
          rw [hu] at hc
          cases hc
        | cons d s =>
          rw [hu] at hc
          exact ⟨s, by rw [Option.some.inj hc]⟩
      show (u.spell ++ spell ps).dropWhile isSpace = _
      rw [hs, List.cons_append, List.dropWhile_cons_of_neg (by simp [hspace])]

theorem EndsWord.nil : EndsWord [] := nofun

theorem startsWithWord_word {word : String} (hword : IsLowerWord word.toList) {v : Text}
    (hr : EndsWord r) (h : startsWithWord word (v ++ r) = true) :
    word.toList <+: v.map Char.toLower ∧ startsWithWord word v = true := by
  have hnil := stripWord_word (w := v) hword.2 EndsWord.nil
  rw [List.append_nil, List.append_nil] at hnil
  rw [startsWithWord, stripWord_word hword.2 hr] at h
  by_cases hstarts : word.toList <+: v.map Char.toLower
  · refine ⟨hstarts, ?_⟩
    rw [if_pos hstarts] at h hnil
    rw [startsWithWord, hnil]
    cases hd : v.drop word.toList.length with
    | nil => rfl
    | cons c v' =>
      rw [hd] at h
      exact h
  · rw [if_neg hstarts] at h
    cases h

theorem isScopeOperator_plain {v : Text} {v' : Text} (hv : v = c :: v')
    (hc : isPlain c = true) (hr : EndsWord r) (h : isScopeOperator (v ++ r) = true) :
    isScopeOperator v = true ∧
      ("in".toList <+: v.map Char.toLower ∨ "was".toList <+: v.map Char.toLower) := by
  have hequals : c ≠ '=' := by
    rintro rfl
    exact absurd hc (by decide)
  rw [isScopeOperator, Bool.or_eq_true, Bool.or_eq_true] at h
  rcases h with (h | h) | h
  · subst hv
    exact absurd (by simpa using h) hequals
  · obtain ⟨hstarts, hword⟩ := startsWithWord_word ⟨by decide, by decide⟩ hr h
    exact ⟨by simp [isScopeOperator, hword], Or.inl hstarts⟩
  · obtain ⟨hstarts, hword⟩ := startsWithWord_word ⟨by decide, by decide⟩ hr h
    exact ⟨by simp [isScopeOperator, hword], Or.inr hstarts⟩

/-- The operators the pattern of `jqlSelective` accepts. -/
def JqlOperator.looksPositive (op : JqlOperator) : Bool :=
  op.positive || op = .wasNot || op = .wasNotIn

theorem looksPositive_of_first {op : JqlOperator} {first : String} {rest : List String}
    (h : op.words = first :: rest)
    (hfirst : first = "=" ∨ "in".toList <+: first.toList ∨ "was".toList <+: first.toList) :
    op.looksPositive = true := by
  have hall : ∀ op : JqlOperator, (op.words.head?.all fun s =>
      !(decide (s = "=") || "in".toList.isPrefixOf s.toList || "was".toList.isPrefixOf s.toList)
        || op.looksPositive) = true := by
    intro op
    cases op <;> decide
  have hop := hall op
  rw [h] at hop
  have hyes : (decide (first = "=") || "in".toList.isPrefixOf first.toList
      || "was".toList.isPrefixOf first.toList) = true := by
    rcases hfirst with h | h | h
    · rw [decide_eq_true h, Bool.true_or, Bool.true_or]
    · rw [List.isPrefixOf_iff_prefix.mpr h, Bool.or_true, Bool.true_or]
    · rw [List.isPrefixOf_iff_prefix.mpr h, Bool.or_true]
  rw [List.head?_cons, Option.all_some, hyes, Bool.not_true, Bool.false_or] at hop
  exact hop

theorem looksPositive_of_scopeOperator {c : JqlClause} (hc : c.WellFormed)
    (hps : Spelled ps) (htokens : tokensOf ps = c.operatorTokens ++ c.operand)
    (h : isScopeOperator ((spell ps).dropWhile isSpace) = true) :
    c.operator.looksPositive = true := by
  obtain ⟨t, ops, hops⟩ : ∃ t ops, c.operatorTokens = t :: ops := by
    cases hops : c.operatorTokens with
    | nil =>
      have := hc.operator
      rw [hops] at this
      exact absurd this.symm c.operator.words_ne_nil
    | cons t ops => exact ⟨t, ops, rfl⟩
  have hwords : c.operator.words = t.lexeme :: ops.map JqlToken.lexeme := by
    rw [← hc.operator, hops]
    rfl
  rw [hops, List.cons_append] at htokens
  obtain ⟨qs, hsuffix, -, hdrop⟩ := dropWhile_spell hps.proper htokens
  have hrest : Spelled (.tok t :: qs) := hps.within hsuffix.isInfix
  have hproper := hrest.proper _ List.mem_cons_self
  rw [hdrop] at h
  refine looksPositive_of_first hwords ?_
  cases t with
  | word w =>
    obtain ⟨d, v, rfl⟩ := List.exists_cons_of_ne_nil hproper.1
    obtain ⟨-, hstarts⟩ := isScopeOperator_plain rfl (hproper.2 d List.mem_cons_self)
      (endsWord_spell hrest) h
    right
    simpa [JqlToken.lexeme] using hstarts
  | symbol d =>
    have hplain : isPlain d = false := by
      rw [Bool.eq_false_iff]
      intro hplain
      have hsymbol := (isPlain_spec hplain).2.2.2.2
      rw [show isJqlSymbol d = true from hproper] at hsymbol
      cases hsymbol
    have hnone : ∀ word : String, IsLowerWord word.toList →
        startsWithWord word (d :: spell qs) = false := by
      intro word hword
      rw [startsWithWord, stripWord_of_not_plain hword hplain]
    left
    have hd : isScopeOperator (d :: spell qs) = true := h
    rw [isScopeOperator, hnone "in" ⟨by decide, by decide⟩, hnone "was" ⟨by decide, by decide⟩,
      Bool.or_false, Bool.or_false, List.head?_cons] at hd
    obtain rfl : d = '=' := by simpa using hd
    rfl
  | str quote content =>
    have hmem : JqlToken.lexeme (.str quote content) ∈ c.operator.words := by
      rw [hwords]
      exact List.mem_cons_self
    exact absurd rfl (JqlOperator.mem_words hmem).1
  | openParen =>
    have hmem : JqlToken.lexeme .openParen ∈ c.operator.words := by
      rw [hwords]
      exact List.mem_cons_self
    exact absurd rfl (JqlOperator.mem_words hmem).1
  | closeParen =>
    have hmem : JqlToken.lexeme .closeParen ∈ c.operator.words := by
      rw [hwords]
      exact List.mem_cons_self
    exact absurd rfl (JqlOperator.mem_words hmem).1

/-! ## One clause -/

/-- A clause that the pattern of `jqlSelective` reads as it stands: WAS NOT
is not taken for WAS on a scope field, and no scope field is read out of
the front of a longer name. -/
structure JqlClause.ReadAsWritten (platform : Platform) (c : JqlClause) : Prop where
  was : c.operator = .wasNot ∨ c.operator = .wasNotIn →
    platform.toLowerCase (String.ofList c.name) ∉ JQL_SCOPE_FIELDS
  name : ∀ u v, c.field = .word (u ++ v) → v ≠ [] → isScopeOperator v = true →
    platform.toLowerCase (String.ofList u) ∉ JQL_SCOPE_FIELDS

theorem scoped_of_looksPositive {c : JqlClause}
    (hread : c.ReadAsWritten platform) (hop : c.operator.looksPositive = true)
    (hname : platform.toLowerCase (String.ofList c.name) ∈ JQL_SCOPE_FIELDS) :
    c.scoped platform = true := by
  have hpositive : c.operator.positive = true := by
    rw [JqlOperator.looksPositive, Bool.or_eq_true, Bool.or_eq_true, decide_eq_true_eq,
      decide_eq_true_eq] at hop
    rcases hop with (h | h) | h
    · exact h
    · exact absurd hname (hread.was (Or.inl h))
    · exact absurd hname (hread.was (Or.inr h))
  rw [JqlClause.scoped, hpositive, Bool.true_and]
  exact decide_eq_true hname

theorem jqlSelective_spec {predicate : Text} (h : jqlSelective platform predicate = true) :
    ∃ f rest, (f, rest) ∈ fieldCandidates predicate ∧
      isScopeOperator (rest.dropWhile isSpace) = true ∧
      platform.toLowerCase (String.ofList (unquote f)) ∈ JQL_SCOPE_FIELDS := by
  rw [jqlSelective] at h
  split at h
  case h_2 => cases h
  case h_1 field hfield =>
    obtain ⟨⟨f, rest⟩, hfind, rfl⟩ := Option.map_eq_some_iff.mp hfield
    exact ⟨f, rest, List.mem_of_find?_eq_some hfind, by simpa using List.find?_some hfind,
      of_decide_eq_true h⟩

theorem scoped_of_selective {c : JqlClause} (hc : c.WellFormed)
    (hread : c.ReadAsWritten platform) (hps : Scannable ps)
    (htokens : tokensOf ps = c.tokens)
    (h : jqlSelective platform (trim (spell ps)) = true) : c.scoped platform = true := by
  obtain ⟨qs, hcore⟩ := exists_core hps.proper
  obtain ⟨rs, rfl, hrs⟩ := hcore.head htokens
  have hscan := hcore.scannable hps
  have hrest : Spelled rs := hscan.tail.toSpelled
  obtain ⟨f, rest, hcand, hop, hscope⟩ := jqlSelective_spec h
  rw [hcore.trim] at hcand
  have hproper := hscan.proper _ List.mem_cons_self
  rcases fieldName_spec hc.field with ⟨quote, content, hfield, hne, hname⟩ | ⟨w, hfield, -, hname⟩
  · have htext : spell (.tok c.field :: rs) = quote :: content ++ quote :: spell rs := by
      rw [spell_cons, hfield]
      simp [JqlPiece.spell, JqlToken.spell]
    rw [hfield] at hproper
    have hunbroken : quote ∉ content := by
      have := hscan.unbroken _ List.mem_cons_self
      rwa [hfield] at this
    rw [htext, fieldCandidates_str hproper hne hunbroken] at hcand
    obtain ⟨rfl, rfl⟩ := Prod.mk.inj (List.mem_singleton.mp hcand)
    rw [unquote_quoted hproper] at hscope
    refine scoped_of_looksPositive hread (looksPositive_of_scopeOperator hc hrest hrs hop) ?_
    rw [JqlClause.name, hname]
    exact hscope
  · have htext : spell (.tok c.field :: rs) = w ++ spell rs := by
      rw [spell_cons, hfield]
      rfl
    rw [hfield] at hproper hscan
    obtain ⟨d, w', hw⟩ := List.exists_cons_of_ne_nil hproper.1
    have hd : isPlain d = true := hproper.2 d (by rw [hw]; exact List.mem_cons_self)
    have hends : EndsWord (spell rs) := endsWord_spell hscan.toSpelled
    rw [htext, hw, List.cons_append] at hcand
    obtain ⟨hsplit, hplain⟩ := fieldCandidates_word hd hcand
    obtain ⟨v, hwv, hrest'⟩ := word_front (w := w) (by rw [hsplit, hw]; rfl) hplain hends
    rw [unquote_plain hplain] at hscope
    cases v with
    | nil =>
      rw [List.append_nil] at hwv
      rw [hrest', List.nil_append] at hop
      refine scoped_of_looksPositive hread (looksPositive_of_scopeOperator hc hrest hrs hop) ?_
      rw [JqlClause.name, hname, hwv]
      exact hscope
    | cons e v =>
      have he : isPlain e = true := hproper.2 e (by rw [hwv]; simp)
      have hnospace : isSpace e = false := (isPlain_spec he).2.2.2.1
      rw [hrest', List.cons_append, List.dropWhile_cons_of_neg (by simp [hnospace])] at hop
      obtain ⟨hmisread, -⟩ := isScopeOperator_plain rfl he hends hop
      exact absurd hscope (hread.name f (e :: v) (by rw [hfield, hwv]) (List.cons_ne_nil _ _)
        hmisread)

theorem not_selective_of_not (hlower : LowersAscii platform) (hps : Scannable ps) {k : JqlToken}
    (htokens : tokensOf ps = k :: ts) (hk : isNot k = true) :
    jqlSelective platform (trim (spell ps)) = false := by
  obtain ⟨qs, hcore⟩ := exists_core hps.proper
  obtain ⟨rs, rfl, hrs⟩ := hcore.head htokens
  have hscan := hcore.scannable hps
  obtain ⟨w, rfl, hw⟩ := isKeyword_eq hk
  have hproper := hscan.proper _ List.mem_cons_self
  obtain ⟨d, w', hcons⟩ := List.exists_cons_of_ne_nil hproper.1
  rw [Bool.eq_false_iff]
  intro h
  obtain ⟨f, rest, hcand, -, hscope⟩ := jqlSelective_spec h
  have htext : spell (.tok (.word w) :: rs) = d :: (w' ++ spell rs) := by
    rw [spell_cons, hcons]
    rfl
  rw [hcore.trim, htext] at hcand
  obtain ⟨hsplit, hplain⟩ :=
    fieldCandidates_word (hproper.2 d (by rw [hcons]; exact List.mem_cons_self)) hcand
  obtain ⟨v, hwv, -⟩ := word_front (w := w) (by rw [hsplit, hcons]; rfl) hplain
    (endsWord_spell hscan.toSpelled)
  have hletters : ∀ c ∈ f, c.toNat < 128 := by
    intro c hc
    have hmem : c.toLower ∈ "not".toList := by
      rw [← hw, hwv]
      exact List.mem_map_of_mem (List.mem_append_left _ hc)
    have hcases : c.toLower = 'n' ∨ c.toLower = 'o' ∨ c.toLower = 't' := by simpa using hmem
    have halpha : c.isAlpha = true := by
      rcases hcases with h | h | h
      · exact isAlpha_of_toLower (p := 'n') rfl h
      · exact isAlpha_of_toLower (p := 'o') rfl h
      · exact isAlpha_of_toLower (p := 't') rfl h
    have := range_of_isAlpha halpha
    omega
  have hf : f.map Char.toLower = "not".toList.take f.length := by
    rw [← hw, hwv, List.map_append, List.take_left' (by simp)]
  rw [unquote_plain hplain, hlower f hletters, hf] at hscope
  have hnone : ∀ n, n ≤ 3 → String.ofList ("not".toList.take n) ∉ JQL_SCOPE_FIELDS := by decide
  refine hnone f.length ?_ hscope
  have hlen : w.length = 3 := by
    have := congrArg List.length hw
    simpa using this
  rw [hwv, List.length_append] at hlen
  omega

/-! ## Every sentence -/

theorem isScoped_congr {a b : Text} (h : stripOuterParens a = stripOuterParens b)
    (isSelective : Text → Bool) :
    isScoped a isSelective false = isScoped b isSelective false := by
  rw [isScoped_eq a, isScoped_eq b, h]

section Scope

variable {isSelective : Text → Bool} {ps : List JqlPiece}

theorem cutTexts_scoped {sep : JqlToken → Bool} {text : Text} (h : text ∈ cutTexts sep 0 ps) :
    ∃ s ∈ splitTop JqlPiece.weight (onToken sep) 0 ps,
      isScoped text isSelective false = isScoped (spell s) isSelective false := by
  obtain ⟨s, hs, rfl⟩ := List.mem_map.mp h
  exact ⟨s, hs, isScoped_trim _ _ _⟩

theorem scoped_branches (hps : Scannable ps) {t : JqlTree} (h : Parses .or (tokensOf ps) t)
    (hscoped : isScoped (spell ps) isSelective false = true) :
    ∀ s ∈ splitTop JqlPiece.weight (onToken isOr) 0 ps,
      isScoped (spell s) isSelective false = true := by
  rcases h.joinedOr.cut weight_or (fun _ => and_part) with
    hone | ⟨hmany, as, bs, k, htokens, hne, hrise⟩
  · intro s hs
    rw [hone] at hs
    obtain rfl := List.mem_singleton.mp hs
    exact hscoped
  · have hbranches := splitTopLevel_or hps h.joinedOr h.sentence
    have hlen : (cutTexts isOr 0 ps).length > 1 := by
      rw [cutTexts, List.length_map]
      exact hmany
    rw [isScoped_eq, stripOuter_cut hps htokens hne hrise] at hscoped
    dsimp only at hscoped
    rw [hbranches, if_pos hlen] at hscoped
    intro s hs
    have hall := List.all_eq_true.mp hscoped (trim (spell s)) (List.mem_map_of_mem hs)
    rwa [isScoped_trim] at hall

theorem scoped_conjunct (hps : Scannable ps) {t : JqlTree} (h : Parses .and (tokensOf ps) t)
    (hscoped : isScoped (spell ps) isSelective false = true) :
    ∃ s ∈ splitTop JqlPiece.weight (onToken isAnd) 0 ps,
      isScoped (spell s) isSelective false = true := by
  rcases h.joinedAnd.cut weight_and (fun _ => not_part) with
    hone | ⟨hmany, as, bs, k, htokens, hne, hrise⟩
  · rw [hone]
    exact ⟨ps, List.mem_singleton_self ps, hscoped⟩
  · have hquiet := h.sentence.quietOr nofun
    have hbranches : splitTopLevel (matchKeyword "or") false (trim (spell ps)) = cutTexts isOr 0 ps :=
      splitTopLevel_or hps (.one h.sentence) h.sentence
    have hone := cutTexts_quiet hquiet
    have hlen : (cutTexts isAnd 0 ps).length > 1 := by
      rw [cutTexts, List.length_map]
      exact hmany
    rw [isScoped_eq, stripOuter_cut hps htokens hne hrise] at hscoped
    dsimp only at hscoped
    rw [hbranches, if_neg hone, splitTopLevel_and hps h.joinedAnd h.sentence, if_pos hlen] at hscoped
    obtain ⟨text, htext, hany⟩ := List.any_eq_true.mp hscoped
    have hcut : ∃ s ∈ splitTop JqlPiece.weight (onToken isAnd) 0 ps,
        isScoped text isSelective false = isScoped (spell s) isSelective false :=
      cutTexts_scoped htext
    obtain ⟨s, hs, heq⟩ := hcut
    exact ⟨s, hs, heq ▸ hany⟩

theorem isScoped_single (hps : Scannable ps) (h : Sentence .not (tokensOf ps)) {t : JqlToken}
    {ts : List JqlToken} (htokens : tokensOf ps = t :: ts) (hopen : t ≠ .openParen) :
    isScoped (spell ps) isSelective false = isSelective (trim (spell ps)) := by
  have hand : Sentence .and (tokensOf ps) :=
    { h with quietOr := fun _ => h.quietOr nofun, quietAnd := nofun }
  have hor := cutTexts_quiet (h.quietOr nofun)
  have hone := cutTexts_quiet (h.quietAnd rfl)
  rw [isScoped_eq, stripOuter_first hps htokens hopen]
  dsimp only
  rw [splitTopLevel_or hps (.one hand) h, if_neg hor, splitTopLevel_and hps (.one h) h, if_neg hone]

end Scope

theorem sides_within (front back : List JqlPiece) (k : JqlToken) :
    front <:+: front ++ .tok k :: back ∧ back <:+: front ++ .tok k :: back :=
  ⟨(List.prefix_append _ _).isInfix, ((List.suffix_cons _ back).trans (List.suffix_append _ _)).isInfix⟩

/-- What the validator finds of a sentence at a level. -/
def FoundScoped (isSelective : Text → Bool) (ps : List JqlPiece) : Level → Prop
  | .or => ∀ s ∈ splitTop JqlPiece.weight (onToken isOr) 0 ps,
      isScoped (spell s) isSelective false = true
  | .and => ∃ s ∈ splitTop JqlPiece.weight (onToken isAnd) 0 ps,
      isScoped (spell s) isSelective false = true
  | .not => isScoped (spell ps) isSelective false = true

theorem Parses.scoped (hlower : LowersAscii platform) {level : Level} {t : JqlTree} (h : Parses level ts t)
    (hread : ∀ c ∈ t.clauses, c.ReadAsWritten platform) (hps : Scannable ps)
    (htokens : tokensOf ps = ts) (hfound : FoundScoped (jqlSelective platform) ps level) :
    t.scoped platform = true := by
  induction h generalizing ps with
  | @clause c hc =>
    have hsentence := (Parses.clause hc).sentence
    rw [← htokens] at hsentence
    have hopen : c.field ≠ .openParen := by
      intro h
      have := hc.field
      rw [h] at this
      cases this
    rw [FoundScoped, isScoped_single hps hsentence htokens hopen] at hfound
    exact scoped_of_selective hc (hread c (List.mem_singleton_self c)) hps htokens hfound
  | @group ts t hinner ih =>
    obtain ⟨ms, hwithin, hms, hstrip⟩ := stripOuter_group hps htokens hinner.sentence.nested
    rw [FoundScoped, isScoped_congr hstrip] at hfound
    exact ih hread (hps.within hwithin) hms
      (scoped_branches (hps.within hwithin) (hms ▸ hinner) hfound)
  | @not k ts t hk hnot _ =>
    have hsentence := (Parses.not hk hnot).sentence
    rw [← htokens] at hsentence
    have hopen : k ≠ .openParen := by
      rintro rfl
      cases hk
    rw [FoundScoped, isScoped_single hps hsentence htokens hopen,
      not_selective_of_not hlower hps htokens hk] at hfound
    cases hfound
  | @andOne ts t hnot ih =>
    obtain ⟨s, hs, hscoped⟩ := hfound
    have hquiet := hnot.sentence.quietAnd rfl
    rw [← htokens] at hquiet
    rw [splitTop_of_quiet (quiet_pieces hquiet)] at hs
    obtain rfl := List.mem_singleton.mp hs
    exact ih hread hps htokens hscoped
  | @and k as bs t u ha hk hb iha ihb =>
    obtain ⟨front, back, rfl, hfront, hback⟩ := pieces_of_tokens htokens
    obtain ⟨s, hs, hscoped⟩ := hfound
    rw [splitTop_joined weight_and hk (hfront ▸ ha.sentence.nested)
      (hfront ▸ ha.sentence.quietAnd rfl)] at hs
    rw [JqlTree.scoped, Bool.or_eq_true]
    rcases List.mem_cons.mp hs with rfl | hs
    · left
      exact iha (fun c hc => hread c (List.mem_append_left _ hc))
        (hps.within (List.prefix_append _ _).isInfix) hfront hscoped
    · right
      have hsuffix : back <:+: front ++ .tok k :: back :=
        ((List.suffix_cons _ back).trans (List.suffix_append _ _)).isInfix
      exact ihb (fun c hc => hread c (List.mem_append_right _ hc)) (hps.within hsuffix) hback
        ⟨s, hs, hscoped⟩
  | @orOne ts t hand ih =>
    have hquiet := hand.sentence.quietOr nofun
    rw [← htokens] at hquiet
    rw [FoundScoped, splitTop_of_quiet (quiet_pieces hquiet)] at hfound
    exact ih hread hps htokens (scoped_conjunct hps (htokens ▸ hand)
      (hfound ps (List.mem_singleton_self ps)))
  | @or k as bs t u ha hk hb iha ihb =>
    obtain ⟨front, back, rfl, hfront, hback⟩ := pieces_of_tokens htokens
    rw [FoundScoped, splitTop_joined weight_or hk
      (hfront ▸ ha.sentence.nested) (hfront ▸ ha.sentence.quietOr nofun)] at hfound
    obtain ⟨hstarts, hsuffix⟩ := sides_within front back k
    rw [JqlTree.scoped, Bool.and_eq_true]
    constructor
    · exact iha (fun c hc => hread c (List.mem_append_left _ hc)) (hps.within hstarts) hfront
        (scoped_conjunct (hps.within hstarts) (hfront ▸ ha) (hfound front List.mem_cons_self))
    · exact ihb (fun c hc => hread c (List.mem_append_right _ hc)) (hps.within hsuffix) hback
        fun s hs => hfound s (List.mem_cons_of_mem _ hs)

/-! ## Accepted queries -/

/-- The scanners read the text as the grammar does: no string holds its own
quotation mark, connectives stand free of strings and signs, and the query
has no ORDER BY of its own. -/
def ScannedAsRead (text : Text) : Prop :=
  ∀ ps, jqlPieces text = some ps → (∀ p ∈ ps, p.Unbroken) ∧ ps.IsChain StandsFree ∧
    ∀ t ∈ tokensOf ps, isOrder t = false

theorem ScannedAsRead.scannable (h : ScannedAsRead text) (hps : jqlPieces text = some ps) : Scannable ps where
  toSpelled := spelled_pieces hps
  unbroken := (h ps hps).1
  free := (h ps hps).2.1

theorem body_eq (h : ScannedAsRead text) (hps : jqlPieces text = some ps) :
    (splitTopLevel matchOrderBy false text).headD [] = trim text := by
  have hcut := splitTopLevel_orderBy (h.scannable hps) (h ps hps).2.2
  rw [spell_pieces hps] at hcut
  rw [hcut]
  by_cases hnil : trim text = []
  · simp [hnil]
  · simp [hnil]

theorem ReadsQuery.conditions_of {r : Option JqlTree} (h : ReadsQuery ts r)
    (horder : ∀ t ∈ ts, isOrder t = false) : ∃ t, r = some t ∧ Parses .or ts t := by
  cases h with
  | conditions h => exact ⟨_, rfl, h⟩
  | ordered _ ho _ _ =>
    rw [horder _ (by simp)] at ho
    cases ho
  | everything ho _ _ =>
    rw [horder _ List.mem_cons_self] at ho
    cases ho

theorem accepted_isScoped {catalog : Option QueryIndexCatalog}
    (h : (validateJql platform text catalog).valid = true) :
    isScoped ((splitTopLevel matchOrderBy false text).headD []) (jqlSelective platform) false = true ∧
      indexProblems platform
        (jqlFieldReferences ((splitTopLevel matchOrderBy false text).headD [])) catalog = [] := by
  rw [validateJql] at h
  dsimp only at h
  split at h
  case isTrue hbasic =>
    rw [finish_valid] at h
    exact absurd h hbasic
  case isFalse =>
    split at h
    case h_1 => simp at h
    case h_2 =>
      split at h
      case isTrue => simp at h
      case isFalse =>
        rw [finish_valid, List.append_eq_nil_iff, List.append_eq_nil_iff] at h
        obtain ⟨⟨herrors, hscope⟩, hindex⟩ := h
        refine ⟨?_, hindex⟩
        by_contra hno
        rw [if_pos ⟨herrors, by simpa using hno⟩] at hscope
        cases hscope

theorem Parses.clause_within {level : Level} {t : JqlTree}
    (h : Parses level ts t) {c : JqlClause} (hc : c ∈ t.clauses) :
    c.WellFormed ∧ c.tokens <:+: ts := by
  induction h with
  | clause hwell =>
    obtain rfl := List.mem_singleton.mp hc
    exact ⟨hwell, List.infix_rfl⟩
  | group _ ih =>
    obtain ⟨hwell, hwithin⟩ := ih hc
    exact ⟨hwell, hwithin.trans (List.infix_append [JqlToken.openParen] _ [JqlToken.closeParen])⟩
  | not _ _ ih =>
    obtain ⟨hwell, hwithin⟩ := ih hc
    exact ⟨hwell, hwithin.trans (List.suffix_cons _ _).isInfix⟩
  | andOne _ ih => exact ih hc
  | orOne _ ih => exact ih hc
  | and _ _ _ iha ihb =>
    rcases List.mem_append.mp hc with hc | hc
    · obtain ⟨hwell, hwithin⟩ := iha hc
      exact ⟨hwell, hwithin.trans (List.prefix_append _ _).isInfix⟩
    · obtain ⟨hwell, hwithin⟩ := ihb hc
      exact ⟨hwell, hwithin.trans ((List.suffix_cons _ _).trans (List.suffix_append _ _)).isInfix⟩
  | or _ _ _ iha ihb =>
    rcases List.mem_append.mp hc with hc | hc
    · obtain ⟨hwell, hwithin⟩ := iha hc
      exact ⟨hwell, hwithin.trans (List.prefix_append _ _).isInfix⟩
    · obtain ⟨hwell, hwithin⟩ := ihb hc
      exact ⟨hwell, hwithin.trans ((List.suffix_cons _ _).trans (List.suffix_append _ _)).isInfix⟩

/-- Queries without WAS, whose words are no scope field run together with
an operator, are read as they stand. -/
theorem readAsWritten_of_tokens (hlex : lexJql text = some ts) (hwas : ∀ t ∈ ts, t.lexeme ≠ "was")
    (hname : ∀ t ∈ ts, ∀ n < t.spell.length, isScopeOperator (t.spell.drop n) = true →
      platform.toLowerCase (String.ofList (t.spell.take n)) ∉ JQL_SCOPE_FIELDS)
    (horder : ∀ t ∈ ts, isOrder t = false) {t : JqlTree} (h : ReadsText text (some t)) :
    ∀ c ∈ t.clauses, c.ReadAsWritten platform := by
  obtain ⟨ps, hps, -, hquery⟩ := h
  rw [lexJql_eq, hps] at hlex
  obtain rfl := Option.some.inj hlex
  obtain ⟨t', ht, hparse⟩ := hquery.conditions_of horder
  obtain rfl := Option.some.inj ht
  intro c hc
  obtain ⟨hwell, hwithin⟩ := hparse.clause_within hc
  refine ⟨fun hop => ?_, fun u v hfield hne hop => ?_⟩
  · -- its operator would begin with the word WAS
    exfalso
    have hmem : "was" ∈ c.operatorTokens.map JqlToken.lexeme := by
      rw [hwell.operator]
      rcases hop with hop | hop <;> rw [hop] <;> decide
    obtain ⟨k, hk, hlexeme⟩ := List.mem_map.mp hmem
    refine hwas k (hwithin.subset ?_) hlexeme
    rw [JqlClause.tokens, List.cons_append]
    exact List.mem_cons_of_mem _ (List.mem_append_left _ hk)
  · have hmem : c.field ∈ c.tokens := by
      rw [JqlClause.tokens, List.cons_append]
      exact List.mem_cons_self
    have hlen : 0 < v.length := List.length_pos_iff.mpr hne
    have hspell : c.field.spell = u ++ v := by
      rw [hfield]
      rfl
    have hthis := hname c.field (hwithin.subset hmem) u.length (by
      rw [hspell, List.length_append]
      omega)
    rw [hspell, List.drop_left, List.take_left] at hthis
    exact hthis hop

def groupedQuery : Text := "project = \"CAD\" AND (status = Open OR NOT labels in (x, y))".toList

def branchCad : JqlClause where
  field := .word "project".toList
  operator := .equals
  operatorTokens := [.symbol '=']
  operand := [.str '"' "CAD".toList]

def branchOpen : JqlClause where
  field := .word "status".toList
  operator := .equals
  operatorTokens := [.symbol '=']
  operand := [.word "Open".toList]

def branchLabels : JqlClause where
  field := .word "labels".toList
  operator := .in_
  operatorTokens := [.word "in".toList]
  operand := [.openParen, .word "x".toList, .symbol ',', .word "y".toList, .closeParen]

def groupedTree : JqlTree :=
  .and (.clause branchCad) (.or (.clause branchOpen) (.not (.clause branchLabels)))

def groupedTokens : List JqlToken :=
  branchCad.tokens ++ .word "AND".toList :: (.openParen :: (branchOpen.tokens ++
    .word "OR".toList :: (.word "NOT".toList :: branchLabels.tokens)) ++ [.closeParen])

theorem groupedTokens_parses : Parses .or groupedTokens groupedTree := by
  have hcad : branchCad.WellFormed :=
    ⟨by decide, by decide, Or.inl (by decide), by decide, by decide⟩
  have hopen : branchOpen.WellFormed :=
    ⟨by decide, by decide, Or.inl (by decide), by decide, by decide⟩
  have hlabels : branchLabels.WellFormed :=
    ⟨by decide, by decide, Or.inl (by decide), by decide, by decide⟩
  have hinner : Parses .or (branchOpen.tokens ++ .word "OR".toList ::
      (.word "NOT".toList :: branchLabels.tokens))
      (.or (.clause branchOpen) (.not (.clause branchLabels))) :=
    .or (.andOne (.clause hopen)) (by decide)
      (.orOne (.andOne (.not (by decide) (.clause hlabels))))
  exact .orOne (.and (.clause hcad) (by decide) (.andOne (.group hinner)))

theorem groupedQuery_pieces : ∃ ps, jqlPieces groupedQuery = some ps ∧ tokensOf ps = groupedTokens ∧
    ps.IsChain SignsJoined ∧ (∀ p ∈ ps, p.Unbroken) ∧ ps.IsChain StandsFree := by
  have hpieces : (jqlPieces groupedQuery).map (fun ps => (tokensOf ps, decide (ps.IsChain SignsJoined),
      decide (∀ p ∈ ps, p.Unbroken), decide (ps.IsChain StandsFree)))
      = some (groupedTokens, true, true, true) := by decide
  obtain ⟨ps, hps, hpair⟩ := Option.map_eq_some_iff.mp hpieces
  simp only [Prod.mk.injEq, decide_eq_true_eq] at hpair
  exact ⟨ps, hps, hpair⟩

theorem groupedQuery_reads : ReadsText groupedQuery (some groupedTree) := by
  obtain ⟨ps, hps, htokens, hsigns, -⟩ := groupedQuery_pieces
  exact ⟨ps, hps, hsigns, htokens ▸ .conditions groupedTokens_parses⟩

theorem groupedTokens_unordered : ∀ t ∈ groupedTokens, isOrder t = false := by decide

theorem groupedQuery_scannedAsRead : ScannedAsRead groupedQuery := by
  obtain ⟨ps, hps, htokens, -, hstr, hfree⟩ := groupedQuery_pieces
  intro qs hqs
  obtain rfl := Option.some.inj (hps.symm.trans hqs)
  exact ⟨hstr, hfree, htokens ▸ groupedTokens_unordered⟩

theorem groupedQuery_lex : lexJql groupedQuery = some groupedTokens := by
  obtain ⟨ps, hps, htokens, -⟩ := groupedQuery_pieces
  rw [lexJql_eq, hps, ← htokens]
  rfl

/-- `project = "A"OR status = Open`. -/
def joinedQuery : Text := "project = \"A\"OR status = Open".toList

def branchProject : JqlClause where
  field := .word "project".toList
  operator := .equals
  operatorTokens := [.symbol '=']
  operand := [.str '"' "A".toList]

def branchStatus : JqlClause where
  field := .word "status".toList
  operator := .equals
  operatorTokens := [.symbol '=']
  operand := [.word "Open".toList]

end Cadena.NativeQuery
