import Cadena.NativeQuery.JqlScopeCheck
import Cadena.NativeQuery.EncodedQueryBounds
import Cadena.NativeQuery.IndexCatalog

/-!
# The index check of an accepted query

`leafPredicates` takes a condition apart, NOT first, then OR, then AND. On
a text that is scanned as it reads and whose NOTs are followed by white
space it reaches every clause (`Parses.leaf`), and a clause whose field the
pattern takes whole is looked up, so every clause of an accepted query
filters on an indexed field.
-/

namespace Cadena.NativeQuery

open Cadena.Base

/-! ## NOT at the front -/

/-- The pattern for NOT wants white space behind it. -/
def SpacedAfterNot (p q : JqlPiece) : Prop := onToken isNot p = true → q.isGap = true

instance (p q : JqlPiece) : Decidable (SpacedAfterNot p q) := inferInstanceAs (Decidable (_ → _))

theorem trim_dropWhile (t : Text) : trim (t.dropWhile isSpace) = trim t := by
  have hstart : trimStart (t.dropWhile isSpace) = trimStart t := by
    cases hs : t.dropWhile isSpace with
    | nil =>
      rw [trimStart, trimStart, hs]
      rfl
    | cons c u =>
      have hc := List.head?_dropWhile_not isSpace t
      rw [hs] at hc
      rw [trimStart, trimStart, hs, List.dropWhile_cons_of_neg (by simpa using hc)]
  rw [trim, hstart]
  rfl

theorem leafPredicates_congr {a b : Text} (h : stripOuterParens a = stripOuterParens b) :
    leafPredicates a false = leafPredicates b false := by
  rw [leafPredicates_eq a, leafPredicates_eq b, h]

theorem leafPredicates_dropWhile (t : Text) :
    leafPredicates (t.dropWhile isSpace) false = leafPredicates t false := by
  rw [← leafPredicates_trim (t.dropWhile isSpace), trim_dropWhile, leafPredicates_trim]

variable {ts : List JqlToken} {k t : JqlToken} {ps : List JqlPiece} {c : JqlClause} {text w : Text}

theorem stripNot_other (hps : Scannable ps) (htokens : tokensOf ps = t :: ts) (ht : isNot t = false) :
    stripNot (trim (spell ps)) = none := by
  obtain ⟨qs, hcore⟩ := exists_core hps.proper
  obtain ⟨rs, rfl, -⟩ := hcore.head htokens
  have hscan := hcore.scannable hps
  have hproper := hscan.proper _ List.mem_cons_self
  have hplain : ∀ {c : Char} {s : Text}, isPlain c = false → stripNot (c :: s) = none := by
    intro c s hc
    rw [stripNot, stripWord_of_not_plain ⟨by decide, by decide⟩ hc]
  rw [hcore.trim]
  cases t with
  | word w =>
    have hne : w.map Char.toLower ≠ "not".toList := by simpa [isNot, isKeyword] using ht
    show stripNot (w ++ spell rs) = none
    rw [stripNot, stripWord_word (by decide) (endsWord_spell hscan.toSpelled)]
    by_cases hstarts : "not".toList <+: w.map Char.toLower
    · rw [if_pos hstarts]
      cases hd : w.drop "not".toList.length with
      | nil =>
        have hlen := congrArg List.length hd
        simp only [List.length_drop, List.length_nil] at hlen
        have hlong := hstarts.length_le
        rw [List.length_map] at hlong
        exact absurd (hstarts.eq_of_length (by rw [List.length_map]; omega)).symm hne
      | cons c w' =>
        have hspace : isSpace c = false := (isPlain_spec (hproper.2 c
          (List.mem_of_mem_drop (by rw [hd]; exact List.mem_cons_self)))).2.2.2.1
        simp [hspace]
    · rw [if_neg hstarts]
  | openParen => exact hplain (c := '(') (by decide)
  | closeParen => exact hplain (c := ')') (by decide)
  | str quote content =>
    refine hplain (c := quote) ?_
    rw [Bool.eq_false_iff]
    intro hc
    exact (isPlain_spec hc).1 (isQuote_eq hproper)
  | symbol c =>
    refine hplain (c := c) ?_
    rw [Bool.eq_false_iff]
    intro hc
    have hsymbol := (isPlain_spec hc).2.2.2.2
    rw [show isJqlSymbol c = true from hproper] at hsymbol
    cases hsymbol

theorem leafPredicates_not (hps : Scannable ps) (hnot : ps.IsChain SpacedAfterNot)
    (htokens : tokensOf ps = k :: ts) (hk : isNot k = true) (hne : ts ≠ []) :
    ∃ rs, Core ps (.tok k :: rs) ∧ tokensOf rs = ts ∧
      leafPredicates (spell ps) false = leafPredicates (spell rs) false := by
  obtain ⟨qs, hcore⟩ := exists_core hps.proper
  obtain ⟨rs, rfl, hrs⟩ := hcore.head htokens
  have hscan := hcore.scannable hps
  have hchain := chain_within hnot hcore.part
  have hopen : k ≠ .openParen := by
    rintro rfl
    cases hk
  refine ⟨rs, hcore, hrs, ?_⟩
  obtain ⟨c, rs', rfl⟩ : ∃ c rs', rs = .gap c :: rs' := by
    cases rs with
    | nil => exact absurd hrs.symm hne
    | cons p rs' =>
      have hgap : p.isGap = true := hchain.rel_head? (y := p) rfl hk
      cases p with
      | gap c => exact ⟨c, rs', rfl⟩
      | tok t => cases hgap
  have hspace : isSpace c = true := hscan.proper (.gap c) (by simp)
  obtain ⟨w, rfl, hw⟩ := isKeyword_eq hk
  have hlen : w.drop "not".toList.length = [] := by
    rw [List.drop_eq_nil_iff, ← hw, List.length_map]
  have hstrip : stripNot (spell (.tok (.word w) :: .gap c :: rs'))
      = some ((c :: spell rs').dropWhile isSpace) := by
    show stripNot (w ++ (c :: spell rs')) = _
    have hends : EndsWord (c :: spell rs') := endsWord_spell hscan.toSpelled
    rw [stripNot, stripWord_word (by decide) hends, if_pos (hw ▸ List.prefix_refl _), hlen,
      List.nil_append]
    show (if List.takeWhile isSpace (c :: spell rs') = [] then none else _) = _
    rw [if_neg (by simp [hspace])]
  rw [leafPredicates_eq, stripOuter_first hps htokens hopen, hcore.trim]
  dsimp only
  rw [hstrip]
  exact leafPredicates_dropWhile _

theorem leafPredicates_not_cons
    (hps : Scannable (.tok k :: ps)) (hnot : (JqlPiece.tok k :: ps).IsChain SpacedAfterNot)
    (hk : isNot k = true) (hne : tokensOf ps ≠ []) :
    leafPredicates (spell (.tok k :: ps)) false = leafPredicates (spell ps) false := by
  obtain ⟨rs, hcore, -, hleaves⟩ := leafPredicates_not hps hnot rfl hk hne
  rw [hleaves, ← leafPredicates_trim (spell rs), ← hcore.trim_tail fun p hp =>
    hps.proper p (List.mem_cons_of_mem _ hp), leafPredicates_trim]

theorem Parses.behind_not {level : Level} {t : JqlTree} (h : Parses level (k :: ts) t) (hk : isNot k = true) :
    ∃ t', Parses level ts t' ∧ t'.clauses = t.clauses := by
  generalize hts : k :: ts = tokens at h
  induction h generalizing ts with
  | @clause c hc =>
    obtain ⟨rfl, -⟩ := List.cons.inj hts
    rw [isNot, isKeyword_field (by decide) hc.field] at hk
    cases hk
  | group _ _ =>
    obtain ⟨rfl, -⟩ := List.cons.inj hts
    cases hk
  | not _ h _ =>
    obtain ⟨rfl, rfl⟩ := List.cons.inj hts
    exact ⟨_, h, rfl⟩
  | andOne _ ih =>
    obtain ⟨t', h', hclauses⟩ := ih hts
    exact ⟨t', .andOne h', hclauses⟩
  | orOne _ ih =>
    obtain ⟨t', h', hclauses⟩ := ih hts
    exact ⟨t', .orOne h', hclauses⟩
  | @and k' as bs t u ha hk' hb iha _ =>
    obtain ⟨a, as, rfl⟩ := List.exists_cons_of_ne_nil ha.sentence.ne_nil
    obtain ⟨rfl, rfl⟩ := List.cons.inj hts
    obtain ⟨t', h', hclauses⟩ := iha rfl
    exact ⟨.and t' u, .and h' hk' hb, by rw [JqlTree.clauses, hclauses, JqlTree.clauses]⟩
  | @or k' as bs t u ha hk' hb iha _ =>
    obtain ⟨a, as, rfl⟩ := List.exists_cons_of_ne_nil ha.sentence.ne_nil
    obtain ⟨rfl, rfl⟩ := List.cons.inj hts
    obtain ⟨t', h', hclauses⟩ := iha rfl
    exact ⟨.or t' u, .or h' hk' hb, by rw [JqlTree.clauses, hclauses, JqlTree.clauses]⟩

/-! ## Cutting before and behind NOT -/

/-- The leaves are those of the texts between the separators. -/
def LeavesCut (sep : JqlToken → Bool) (ps : List JqlPiece) : Prop :=
  ∀ x, x ∈ leafPredicates (spell ps) false ↔
    ∃ text ∈ cutTexts sep 0 ps, x ∈ leafPredicates text false

/-- It is enough to know it for sentences that do not begin with NOT. -/
theorem leavesCut_of_plain {sep : JqlToken → Bool} (hsep : ∀ k, isNot k = true → sep k = false)
    {level : Level}
    (hparts : ∀ {ps : List JqlPiece} {t : JqlTree}, Parses level (tokensOf ps) t →
      ∀ s ∈ splitTop JqlPiece.weight (onToken sep) 0 ps, tokensOf s ≠ [])
    (hplain : ∀ {ps : List JqlPiece} {t : JqlTree}, Scannable ps → Parses level (tokensOf ps) t →
      (∀ k ∈ (tokensOf ps).head?, isNot k = false) → LeavesCut sep ps) :
    ∀ {ps : List JqlPiece} {t : JqlTree}, Scannable ps → ps.IsChain SpacedAfterNot →
      Parses level (tokensOf ps) t → LeavesCut sep ps := by
  intro ps t hps hnot h
  induction hn : (tokensOf ps).length generalizing ps t with
  | zero => exact absurd (List.length_eq_zero_iff.mp hn) h.sentence.ne_nil
  | succ n ih =>
    obtain ⟨k, ts, htokens⟩ := List.exists_cons_of_ne_nil h.sentence.ne_nil
    by_cases hk : isNot k = true
    · rw [htokens] at h
      obtain ⟨t', hbehind, -⟩ := h.behind_not hk
      obtain ⟨rs, hcore, hrs, hleaves⟩ :=
        leafPredicates_not hps hnot htokens hk hbehind.sentence.ne_nil
      have hscan := hcore.scannable hps
      have hchain := chain_within hnot hcore.part
      have hcut := ih hscan.tail hchain.tail (hrs ▸ hbehind) (by
        rw [htokens, List.length_cons] at hn
        rw [hrs]
        omega)
      -- the first cut of the whole is NOT and the first cut of the rest
      have hweight : (0 : Int) + JqlPiece.weight (.tok k) = 0 := by
        show (0 : Int) + k.weight = 0
        rw [weight_keyword hk, add_zero]
      intro x
      rw [hleaves, hcut x, ← hcore.cuts sep]
      cases hs : splitTop JqlPiece.weight (onToken sep) 0 rs with
      | nil => exact absurd hs (splitTop_ne_nil _ _ _)
      | cons s ss =>
        have hhead : splitTop JqlPiece.weight (onToken sep) 0 (.tok k :: rs)
            = (.tok k :: s) :: ss := by
          rw [splitTop, if_neg, hweight, hs]
          · rfl
          · rintro ⟨-, hcontra⟩
            rw [show onToken sep (.tok k) = sep k from rfl, hsep k hk] at hcontra
            cases hcontra
        have hfirst : .tok k :: s <:+: JqlPiece.tok k :: rs :=
          infix_of_mem_splitTop (by rw [hhead]; exact List.mem_cons_self)
        have hne := hparts (hrs ▸ hbehind) s (by rw [hs]; exact List.mem_cons_self)
        have hsame : leafPredicates (trim (spell (.tok k :: s))) false
            = leafPredicates (trim (spell s)) false := by
          rw [leafPredicates_trim, leafPredicates_trim,
            leafPredicates_not_cons (hscan.within hfirst) (chain_within hchain hfirst) hk hne]
        rw [cutTexts, cutTexts, hs, hhead]
        simp only [List.map_cons, List.mem_cons, exists_eq_or_imp, hsame]
    · refine hplain hps h fun k' hk' => ?_
      rw [htokens] at hk'
      obtain rfl : k = k' := by simpa using hk'
      simpa using hk

/-! ## Every clause is a leaf -/

section Leaves

variable {ps : List JqlPiece} {t : JqlTree}

theorem leavesCut_single {sep : JqlToken → Bool}
    (h : splitTop JqlPiece.weight (onToken sep) 0 ps = [ps]) : LeavesCut sep ps := by
  intro x
  rw [cutTexts, h, List.map_singleton]
  simp only [List.mem_singleton, exists_eq_left, leafPredicates_trim]

theorem leavesCut_or_plain (hps : Scannable ps) (h : Parses .or (tokensOf ps) t)
    (hfirst : ∀ k ∈ (tokensOf ps).head?, isNot k = false) : LeavesCut isOr ps := by
  rcases h.joinedOr.cut weight_or (fun _ => and_part) with
    hone | ⟨hmany, as, bs, k, htokens, hne, hrise⟩
  · exact leavesCut_single hone
  · have hlen : (cutTexts isOr 0 ps).length > 1 := by
      rw [cutTexts, List.length_map]
      exact hmany
    obtain ⟨u, us, hus⟩ := List.exists_cons_of_ne_nil h.sentence.ne_nil
    have hnone := stripNot_other hps hus (hfirst u (by rw [hus]; rfl))
    intro x
    rw [leafPredicates_eq, stripOuter_cut hps htokens hne hrise]
    dsimp only
    rw [hnone]
    dsimp only
    rw [splitTopLevel_or hps h.joinedOr h.sentence, if_pos hlen, List.mem_flatMap]

theorem leavesCut_and_plain (hps : Scannable ps) (h : Parses .and (tokensOf ps) t)
    (hfirst : ∀ k ∈ (tokensOf ps).head?, isNot k = false) : LeavesCut isAnd ps := by
  rcases h.joinedAnd.cut weight_and (fun _ => not_part) with
    hone | ⟨hmany, as, bs, k, htokens, hne, hrise⟩
  · exact leavesCut_single hone
  · have hone := cutTexts_quiet (h.sentence.quietOr nofun)
    have hlen : (cutTexts isAnd 0 ps).length > 1 := by
      rw [cutTexts, List.length_map]
      exact hmany
    obtain ⟨u, us, hus⟩ := List.exists_cons_of_ne_nil h.sentence.ne_nil
    have hnone := stripNot_other hps hus (hfirst u (by rw [hus]; rfl))
    intro x
    rw [leafPredicates_eq, stripOuter_cut hps htokens hne hrise]
    dsimp only
    rw [hnone]
    dsimp only
    rw [splitTopLevel_or hps (.one h.sentence) h.sentence, if_neg hone,
      splitTopLevel_and hps h.joinedAnd h.sentence, if_pos hlen, List.mem_flatMap]

theorem isNot_not_connective {k : JqlToken} (hk : isNot k = true) :
    isOr k = false ∧ isAnd k = false := by
  have hlexeme := isKeyword_lexeme hk
  refine ⟨Bool.eq_false_iff.mpr fun h => ?_, Bool.eq_false_iff.mpr fun h => ?_⟩
  · exact absurd (hlexeme.symm.trans (isKeyword_lexeme h)) (by decide)
  · exact absurd (hlexeme.symm.trans (isKeyword_lexeme h)) (by decide)

theorem leavesCut_or (hps : Scannable ps) (hnot : ps.IsChain SpacedAfterNot)
    (h : Parses .or (tokensOf ps) t) : LeavesCut isOr ps :=
  leavesCut_of_plain (fun _ hk => (isNot_not_connective hk).1)
    (fun h s hs => (h.joinedOr.parts weight_or (fun _ => and_part) rfl s hs).ne_nil)
    leavesCut_or_plain hps hnot h

theorem leavesCut_and (hps : Scannable ps) (hnot : ps.IsChain SpacedAfterNot)
    (h : Parses .and (tokensOf ps) t) : LeavesCut isAnd ps :=
  leavesCut_of_plain (fun _ hk => (isNot_not_connective hk).2)
    (fun h s hs => (h.joinedAnd.parts weight_and (fun _ => not_part) rfl s hs).ne_nil)
    leavesCut_and_plain hps hnot h

theorem leafPredicates_clause {c : JqlClause} (hc : c.WellFormed) (hps : Scannable ps)
    (htokens : tokensOf ps = c.tokens) : leafPredicates (spell ps) false = [trim (spell ps)] := by
  have h := (Parses.clause hc).sentence
  rw [← htokens] at h
  have hand : Sentence .and (tokensOf ps) :=
    { h with quietOr := fun _ => h.quietOr nofun, quietAnd := nofun }
  have hopen : c.field ≠ .openParen := by
    intro hfield
    have := hc.field
    rw [hfield] at this
    cases this
  have hor := cutTexts_quiet (h.quietOr nofun)
  have hone := cutTexts_quiet (h.quietAnd rfl)
  have hnone : stripNot (trim (spell ps)) = none :=
    stripNot_other hps htokens (isKeyword_field (by decide) hc.field)
  rw [leafPredicates_eq, stripOuter_first hps htokens hopen]
  dsimp only
  rw [hnone]
  dsimp only
  rw [splitTopLevel_or hps (.one hand) h, if_neg hor, splitTopLevel_and hps (.one h) h,
    if_neg hone, if_neg (trim_spell_ne_nil hps.proper h.ne_nil)]

end Leaves

/-- The text of a clause is a leaf of the text it stands in. -/
def LeafOf (c : JqlClause) (ps : List JqlPiece) : Prop :=
  ∃ qs, qs <:+: ps ∧ tokensOf qs = c.tokens ∧ trim (spell qs) ∈ leafPredicates (spell ps) false

theorem LeafOf.mono {ms : List JqlPiece} (h : LeafOf c ms) (hwithin : ms <:+: ps)
    (hsub : ∀ x, x ∈ leafPredicates (spell ms) false → x ∈ leafPredicates (spell ps) false) :
    LeafOf c ps := by
  obtain ⟨qs, hqs, htokens, hmem⟩ := h
  exact ⟨qs, hqs.trans hwithin, htokens, hsub _ hmem⟩

theorem leaves_joined {sep : JqlToken → Bool} (hsep : ∀ k, sep k = true → k.weight = 0)
    {front back : List JqlPiece} (hk : sep k = true)
    (hnested : Nested JqlToken.weight 0 0 (tokensOf front))
    (hquiet : Quiet JqlToken.weight sep 0 (tokensOf front))
    (hback : LeavesCut sep back) (hwhole : LeavesCut sep (front ++ .tok k :: back)) (x : Text) :
    (x ∈ leafPredicates (spell front) false ∨ x ∈ leafPredicates (spell back) false) →
      x ∈ leafPredicates (spell (front ++ .tok k :: back)) false := by
  have hcuts : cutTexts sep 0 (front ++ .tok k :: back)
      = trim (spell front) :: cutTexts sep 0 back := by
    rw [cutTexts, splitTop_joined hsep hk hnested hquiet]
    rfl
  rw [hwhole x, hback x, hcuts]
  rintro (h | ⟨text, htext, h⟩)
  · exact ⟨trim (spell front), List.mem_cons_self, by rwa [leafPredicates_trim]⟩
  · exact ⟨text, List.mem_cons_of_mem _ htext, h⟩

theorem Parses.leaf {level : Level} {t : JqlTree} (h : Parses level ts t)
    (hps : Scannable ps) (hnot : ps.IsChain SpacedAfterNot)
    (htokens : tokensOf ps = ts) : ∀ c ∈ t.clauses, LeafOf c ps := by
  induction h generalizing ps with
  | @clause c hc =>
    intro d hd
    obtain rfl := List.mem_singleton.mp hd
    exact ⟨ps, List.infix_rfl, htokens, by
      rw [leafPredicates_clause hc hps htokens]
      exact List.mem_singleton_self _⟩
  | @group ts t hinner ih =>
    obtain ⟨ms, hwithin, hms, hstrip⟩ := stripOuter_group hps htokens hinner.sentence.nested
    intro c hc
    refine (ih (hps.within hwithin) (chain_within hnot hwithin) hms c hc).mono hwithin fun x hx => ?_
    rwa [leafPredicates_congr hstrip]
  | @not k ts t hk hbehind ih =>
    obtain ⟨rs, hcore, hrs, hleaves⟩ :=
      leafPredicates_not hps hnot htokens hk hbehind.sentence.ne_nil
    have hwithin : rs <:+: ps := (List.suffix_cons _ rs).isInfix.trans hcore.part
    intro c hc
    refine (ih (hps.within hwithin) (chain_within hnot hwithin) hrs c hc).mono hwithin fun x hx => ?_
    rwa [hleaves]
  | andOne _ ih => exact ih hps hnot htokens
  | orOne _ ih => exact ih hps hnot htokens
  | @and k as bs t u ha hk hb iha ihb =>
    have hwhole := leavesCut_and hps hnot (htokens ▸ Parses.and ha hk hb)
    obtain ⟨front, back, rfl, hfront, hback⟩ := pieces_of_tokens htokens
    obtain ⟨hstarts, hsuffix⟩ := sides_within front back k
    have hcut := leavesCut_and (hps.within hsuffix) (chain_within hnot hsuffix) (hback ▸ hb)
    have hjoin := leaves_joined weight_and hk (hfront ▸ ha.sentence.nested)
      (hfront ▸ ha.sentence.quietAnd rfl) hcut hwhole
    intro c hc
    rcases List.mem_append.mp hc with hc | hc
    · exact (iha (hps.within hstarts) (chain_within hnot hstarts) hfront c hc).mono hstarts
        fun x hx => hjoin x (Or.inl hx)
    · exact (ihb (hps.within hsuffix) (chain_within hnot hsuffix) hback c hc).mono hsuffix
        fun x hx => hjoin x (Or.inr hx)
  | @or k as bs t u ha hk hb iha ihb =>
    have hwhole := leavesCut_or hps hnot (htokens ▸ Parses.or ha hk hb)
    obtain ⟨front, back, rfl, hfront, hback⟩ := pieces_of_tokens htokens
    obtain ⟨hstarts, hsuffix⟩ := sides_within front back k
    have hcut := leavesCut_or (hps.within hsuffix) (chain_within hnot hsuffix) (hback ▸ hb)
    have hjoin := leaves_joined weight_or hk (hfront ▸ ha.sentence.nested)
      (hfront ▸ ha.sentence.quietOr nofun) hcut hwhole
    intro c hc
    rcases List.mem_append.mp hc with hc | hc
    · exact (iha (hps.within hstarts) (chain_within hnot hstarts) hfront c hc).mono hstarts
        fun x hx => hjoin x (Or.inl hx)
    · exact (ihb (hps.within hsuffix) (chain_within hnot hsuffix) hback c hc).mono hsuffix
        fun x hx => hjoin x (Or.inr hx)

/-! ## The field of a leaf -/

/-- The pattern takes the field's name as a whole. -/
def JqlClause.Recognised (c : JqlClause) : Prop :=
  ∀ w, c.field = .word w → (w, []) ∈ fieldCandidates w

theorem gap_between {qs : List JqlPiece} (hq : Spelled (.tok (.word w) :: qs)) (htokens : tokensOf qs = t :: ts)
    (ht : (JqlPiece.tok t).isWord = true) : ∃ c rs, qs = .gap c :: rs ∧ isSpace c = true := by
  cases qs with
  | nil => cases htokens
  | cons p rs =>
    cases p with
    | gap c => exact ⟨c, rs, rfl, hq.proper (.gap c) (by simp)⟩
    | tok u =>
      obtain ⟨rfl, -⟩ := List.cons.inj htokens
      exact absurd ⟨rfl, ht⟩ (hq.apart.rel_head? (y := .tok u) rfl)

theorem isWordChar_false {c : Char} (h : isPlain c = false) :
    isWordChar c = false ∧ c ≠ '.' := by
  constructor
  · rw [Bool.eq_false_iff]
    intro hc
    rw [isPlain_of_isWordChar (by rw [hc, Bool.true_or])] at h
    cases h
  · rintro rfl
    exact absurd h (by decide)

theorem startsWithWord_self {word : String} (hword : word.toList.all Char.isLower = true)
    {rest : Text} (hw : w.map Char.toLower = word.toList) (hrest : EndsWord rest) :
    startsWithWord word (w ++ rest) = true := by
  have hlen : w.drop word.toList.length = [] := by
    rw [List.drop_eq_nil_iff, ← hw, List.length_map]
  rw [startsWithWord, stripWord_word hword hrest, if_pos (hw ▸ List.prefix_refl _), hlen,
    List.nil_append]
  cases rest with
  | nil => rfl
  | cons c rest =>
    show (!isWordChar c) = true
    rw [(isWordChar_false (hrest c rfl)).1]
    rfl

theorem toLower_range {c : Char} (h : c.isAlpha = true) :
    97 ≤ c.toLower.toNat ∧ c.toLower.toNat ≤ 122 := by
  have hrange := range_of_isAlpha h
  by_cases hupper : 65 ≤ c.toNat ∧ c.toNat ≤ 90
  · have hval : c.toLower.toNat = c.toNat + 32 := by
      have hc : c.val ≥ 'A'.val ∧ c.val ≤ 'Z'.val := by
        rw [ge_iff_le, UInt32.le_iff_toNat_le, UInt32.le_iff_toNat_le]
        exact hupper
      have hlt : c.val.toNat ≤ 90 := hupper.2
      rw [Char.toLower, dif_pos hc]
      show (c.val + 32).toNat = c.val.toNat + 32
      rw [UInt32.toNat_add]
      simp
      omega
    omega
  · have hsame : c.toLower = c := by
      rw [Char.toLower, dif_neg]
      rintro ⟨ha, hz⟩
      rw [ge_iff_le, UInt32.le_iff_toNat_le] at ha
      rw [UInt32.le_iff_toNat_le] at hz
      exact hupper ⟨ha, hz⟩
    rw [hsame]
    omega

theorem isPlain_toLower {c : Char} (h : isPlain c = true) : isPlain c.toLower = true := by
  by_cases halpha : c.isAlpha = true
  · have hrange := toLower_range halpha
    exact isPlain_of_range (by omega)
  · rw [toLower_of_not_isAlpha (by simpa using halpha)]
    exact h

theorem symbol_of_lexeme (hproper : (JqlPiece.tok t).Proper) {s : Char}
    (hs : isPlain s = false) (h : t.lexeme = String.singleton s) : t = .symbol s := by
  have htext : t.lexeme.toList = [s] := by rw [h, String.toList_singleton]
  cases t with
  | symbol c =>
    have hc : c = s := by simpa [JqlToken.lexeme] using htext
    rw [hc]
  | word w =>
    have hw : w.map Char.toLower = [s] := by simpa [JqlToken.lexeme] using htext
    obtain ⟨c, rfl, hc⟩ := List.map_eq_singleton_iff.mp hw
    have hplain := isPlain_toLower (hproper.2 c (List.mem_singleton_self c))
    rw [hc, hs] at hplain
    cases hplain
  | str quote content => simp [JqlToken.lexeme] at htext
  | openParen => simp [JqlToken.lexeme] at htext
  | closeParen => simp [JqlToken.lexeme] at htext

theorem word_of_lexeme {word : String} (hword : IsLowerWord word.toList)
    (hproper : (JqlPiece.tok t).Proper) (h : t.lexeme = word) :
    ∃ w, t = .word w ∧ w.map Char.toLower = word.toList := by
  cases t with
  | word w => exact ⟨w, rfl, by rw [← h, JqlToken.lexeme, String.toList_ofList]⟩
  | symbol c =>
    have hc : word.toList = [c] := by rw [← h, JqlToken.lexeme, String.toList_singleton]
    have hlower : c.isLower = true := by
      have := hword.2
      rw [hc] at this
      simpa using this
    have hplain := isPlain_of_isAlpha (c := c) (by rw [Char.isAlpha, hlower, Bool.or_true])
    have hsymbol := (isPlain_spec hplain).2.2.2.2
    rw [show isJqlSymbol c = true from hproper] at hsymbol
    cases hsymbol
  | str quote content =>
    obtain ⟨hne, -⟩ := hword
    rw [← h] at hne
    exact absurd rfl hne
  | openParen =>
    obtain ⟨hne, -⟩ := hword
    rw [← h] at hne
    exact absurd rfl hne
  | closeParen =>
    obtain ⟨hne, -⟩ := hword
    rw [← h] at hne
    exact absurd rfl hne

theorem JqlOperator.first_word {op : JqlOperator} {first : String} {rest : List String}
    (h : op.words = first :: rest) :
    first ∈ ["=", "~", ">", "<"] ∨ first = "!" ∨ (first = "not" ∧ rest = ["in"]) ∨
      first ∈ ["in", "is", "was", "changed"] := by
  cases op <;> (obtain ⟨rfl, rfl⟩ := List.cons.inj h; decide)

theorem isJqlOperator_spell (hc : c.WellFormed) (hps : Spelled ps) (hsigns : ps.IsChain SignsJoined)
    (htokens : tokensOf ps = c.operatorTokens ++ c.operand) :
    isJqlOperator ((spell ps).dropWhile isSpace) = true := by
  obtain ⟨t, ops, hops⟩ := List.exists_cons_of_ne_nil (l := c.operatorTokens) fun hnil => by
    have := hc.operator
    rw [hnil] at this
    exact absurd this.symm c.operator.words_ne_nil
  have hwords : t.lexeme :: ops.map JqlToken.lexeme = c.operator.words := by
    rw [← hc.operator, hops]
    rfl
  rw [hops, List.cons_append] at htokens
  obtain ⟨qs, hsuffix, hqs, hdrop⟩ := dropWhile_spell hps.proper htokens
  have hrest : Spelled (.tok t :: qs) := hps.within hsuffix.isInfix
  have hjoined : (JqlPiece.tok t :: qs).IsChain SignsJoined := chain_within hsigns hsuffix.isInfix
  have hproper := hrest.proper _ List.mem_cons_self
  rw [hdrop]
  have hsign : ∀ s : Char, isPlain s = false → t.lexeme = String.singleton s →
      s = '=' ∨ s = '~' ∨ s = '>' ∨ s = '<' → isJqlOperator (t.spell ++ spell qs) = true := by
    intro s hs hlexeme hcases
    rw [symbol_of_lexeme hproper hs hlexeme]
    show isJqlOperator (s :: spell qs) = true
    rcases hcases with rfl | rfl | rfl | rfl <;> simp [isJqlOperator]
  have hbang : t.lexeme = "!" → isJqlOperator (t.spell ++ spell qs) = true := by
    intro hlexeme
    obtain rfl := symbol_of_lexeme hproper (s := '!') (by decide) hlexeme
    cases qs with
    | nil =>
      -- a second sign follows
      exfalso
      have hnone : ops = [] := (List.append_eq_nil_iff.mp hqs.symm).1
      rw [hnone] at hwords
      have hno : ∀ op : JqlOperator, op.words ≠ ["!"] := by
        intro op
        cases op <;> decide
      exact hno _ (hwords.symm.trans (by rw [hlexeme]; rfl))
    | cons q qs =>
      rcases hjoined.rel_head? (y := q) rfl rfl with rfl | rfl
      · show isJqlOperator ('!' :: '=' :: spell qs) = true
        simp [isJqlOperator, List.isPrefixOf]
      · show isJqlOperator ('!' :: '~' :: spell qs) = true
        simp [isJqlOperator, List.isPrefixOf]
  have hword : ∀ word : String, IsLowerWord word.toList → t.lexeme = word →
      word = "in" ∨ word = "is" ∨ word = "was" ∨ word = "changed" →
        isJqlOperator (t.spell ++ spell qs) = true := by
    intro word hlower hlexeme hcases
    obtain ⟨w, rfl, hw⟩ := word_of_lexeme hlower hproper hlexeme
    have hself := startsWithWord_self hlower.2 hw (endsWord_spell hrest)
    show isJqlOperator (w ++ spell qs) = true
    rcases hcases with rfl | rfl | rfl | rfl <;> simp [isJqlOperator, hself]
  have hnotIn : t.lexeme = "not" → ops.map JqlToken.lexeme = ["in"] →
      isJqlOperator (t.spell ++ spell qs) = true := by
    intro hlexeme hin
    obtain ⟨w, rfl, hw⟩ := word_of_lexeme ⟨by decide, by decide⟩ hproper hlexeme
    obtain ⟨u, rfl, hu⟩ := List.map_eq_singleton_iff.mp hin
    rw [List.singleton_append] at hqs
    obtain ⟨rs, hrs, -, hdrop'⟩ :=
      dropWhile_spell (fun p hp => hrest.proper p (List.mem_cons_of_mem _ hp)) hqs
    have hinner : Spelled (.tok u :: rs) :=
      hrest.within (hrs.trans (List.suffix_cons _ _)).isInfix
    obtain ⟨v, rfl, hv⟩ := word_of_lexeme ⟨by decide, by decide⟩
      (hinner.proper _ List.mem_cons_self) hu
    obtain ⟨d, qs', rfl, hd⟩ := gap_between hrest hqs rfl
    have hlen : w.drop "not".toList.length = [] := by
      rw [List.drop_eq_nil_iff, ← hw, List.length_map]
    have hstrip : stripNot (w ++ spell (.gap d :: qs')) = some (v ++ spell rs) := by
      rw [stripNot, stripWord_word (by decide) (endsWord_spell hrest),
        if_pos (hw ▸ List.prefix_refl _), hlen, List.nil_append]
      show (if List.takeWhile isSpace (d :: spell qs') = [] then none else _) = _
      rw [if_neg (by simp [hd])]
      exact congrArg some hdrop'
    have hself : startsWithWord "in" (v ++ spell rs) = true :=
      startsWithWord_self (by decide) hv (endsWord_spell hinner)
    show isJqlOperator (w ++ spell (.gap d :: qs')) = true
    unfold isJqlOperator
    rw [hstrip]
    simp [hself]
  rcases JqlOperator.first_word hwords.symm with h | h | ⟨h, hin⟩ | h
  · rcases (by simpa using h : t.lexeme = "=" ∨ t.lexeme = "~" ∨ t.lexeme = ">" ∨ t.lexeme = "<")
      with h | h | h | h
    · exact hsign '=' (by decide) h (by simp)
    · exact hsign '~' (by decide) h (by simp)
    · exact hsign '>' (by decide) h (by simp)
    · exact hsign '<' (by decide) h (by simp)
  · exact hbang h
  · exact hnotIn h hin
  · have hcases : t.lexeme = "in" ∨ t.lexeme = "is" ∨ t.lexeme = "was" ∨ t.lexeme = "changed" := by
      simpa using h
    have hlower : IsLowerWord t.lexeme.toList := by
      rcases hcases with h | h | h | h <;> rw [h] <;> exact ⟨by decide, by decide⟩
    exact hword t.lexeme hlower rfl hcases

theorem customField_whole {f x digits : Text} (h : IsCustomField f x digits) (r : Text) :
    customField (f ++ r) = [(f, r)] := by
  have hlen : x.length = 3 := by
    have := congrArg List.length h.front
    simpa using this
  have hstrip : stripWord "cf[".toList (f ++ r) = some (digits ++ (']' :: r)) := by
    have hgeneral : ∀ {word x rest : Text}, x.map Char.toLower = word →
        stripWord word (x ++ rest) = some rest := by
      intro word x rest hx
      induction x generalizing word with
      | nil =>
        obtain rfl : [] = word := hx
        rfl
      | cons c x ih =>
        obtain rfl : c.toLower :: x.map Char.toLower = word := hx
        rw [List.cons_append, stripWord, if_pos rfl, ih rfl]
    rw [h.text, List.append_assoc, List.append_assoc, hgeneral h.front]
    rfl
  have hdigits : (digits ++ (']' :: r)).takeWhile Char.isDigit = digits := by
    rw [List.takeWhile_append_of_pos h.digits, List.takeWhile_cons_of_neg (by decide),
      List.append_nil]
  have htake : (f ++ r).take (digits.length + 4) = f := by
    have hfour : digits.length + 4 = f.length := by
      rw [h.text]
      simp only [List.length_append, hlen, List.length_singleton]
      omega
    rw [hfour, List.take_left]
  rw [customField, hstrip]
  dsimp only
  rw [hdigits, List.drop_left]
  show (if digits ≠ [] then [((f ++ r).take (digits.length + 4), r)] else []) = _
  rw [if_pos h.ne_nil, htake]

theorem mem_plainField_whole (h : (w, []) ∈ plainField w) :
    ∃ c t, w = c :: t ∧ c.isAlpha = true ∧ ∀ d ∈ t, (isWordChar d || d == '.') = true := by
  cases w with
  | nil => cases h
  | cons c t =>
    rw [plainField] at h
    split at h
    case isFalse => cases h
    case isTrue halpha =>
      refine ⟨c, t, rfl, halpha, ?_⟩
      obtain ⟨n, hn, hpair⟩ := List.mem_map.mp h
      have hall : t.length ≤ n := by
        rw [← List.drop_eq_nil_iff]
        exact (Prod.mk.inj hpair).2
      have hrun : t.length ≤ (t.takeWhile fun d => isWordChar d || d == '.').length := by
        have := List.mem_range.mp (List.mem_reverse.mp hn)
        omega
      have htake : t.takeWhile (fun d => isWordChar d || d == '.') = t :=
        (List.takeWhile_prefix _).eq_of_length_le hrun
      intro d hd
      rw [← htake] at hd
      have hd' := List.mem_takeWhile_imp hd
      exact hd'

theorem fieldCandidates_whole {r : Text} (hw : w ≠ [] ∧ ∀ c ∈ w, isPlain c = true)
    (hrec : (w, []) ∈ fieldCandidates w) (hr : EndsWord r) :
    ∃ others, fieldCandidates (w ++ r) = (w, r) :: others := by
  obtain ⟨c, t, rfl⟩ := List.exists_cons_of_ne_nil hw.1
  have hne := not_or.mp (isPlain_spec (hw.2 c List.mem_cons_self)).1
  have hquoted : ∀ t', fieldCandidates (c :: t') = customField (c :: t') ++ plainField (c :: t') := by
    intro t'
    rw [fieldCandidates, quotedField_other hne.1, quotedField_other hne.2, List.nil_append,
      List.nil_append]
  rw [List.cons_append, hquoted]
  rw [hquoted, List.mem_append] at hrec
  rcases hrec with hrec | hrec
  · obtain ⟨-, x, digits, hcustom⟩ := mem_customField hrec
    have hwhole := customField_whole hcustom r
    rw [List.cons_append] at hwhole
    rw [hwhole]
    exact ⟨_, rfl⟩
  · obtain ⟨d, t', hcons, halpha, hrun⟩ := mem_plainField_whole hrec
    obtain ⟨rfl, rfl⟩ := List.cons.inj hcons
    have hnone : customField (c :: (t ++ r)) = [] := by
      refine List.eq_nil_iff_forall_not_mem.mpr fun x hmem => ?_
      obtain ⟨f, rest⟩ := x
      obtain ⟨htext, x, digits, hcustom⟩ := mem_customField hmem
      obtain ⟨v, hwv, -⟩ := word_front (w := c :: t) htext hcustom.plain hr
      -- the name would hold a bracket
      obtain ⟨b, hb, hlower⟩ : ∃ b ∈ x, b.toLower = '[' := by
        have : '[' ∈ x.map Char.toLower := by
          rw [hcustom.front]
          decide
        exact List.mem_map.mp this
      have hmem' : b ∈ c :: t := by
        rw [hwv, hcustom.text]
        simp [hb]
      have hbracket : b.isAlpha = false := by
        by_contra hno
        have hrange := toLower_range (c := b) (by simpa using hno)
        rw [hlower] at hrange
        exact absurd hrange (by decide)
      rw [toLower_of_not_isAlpha hbracket] at hlower
      rcases List.mem_cons.mp hmem' with rfl | hmem'
      · rw [hbracket] at halpha
        cases halpha
      · have := hrun b hmem'
        rw [hlower] at this
        exact absurd this (by decide)
    have htake : (t ++ r).takeWhile (fun d => isWordChar d || d == '.') = t := by
      rw [List.takeWhile_append_of_pos hrun]
      cases r with
      | nil => rw [List.takeWhile_nil, List.append_nil]
      | cons e r =>
        obtain ⟨hword, hdot⟩ := isWordChar_false (hr e rfl)
        rw [List.takeWhile_cons_of_neg (by simp [hword, hdot]), List.append_nil]
    rw [hnone, List.nil_append, plainField, if_pos halpha, htake]
    refine ⟨(List.range t.length).reverse.map fun n => (c :: (t ++ r).take n, (t ++ r).drop n), ?_⟩
    show List.map _ (List.range (t.length + 1)).reverse = _
    rw [List.range_succ, List.reverse_append, List.reverse_singleton, List.singleton_append, List.map_cons, List.take_left,
      List.drop_left]

theorem fieldBefore_clause (hc : c.WellFormed) (hrec : c.Recognised)
    (hps : Scannable ps) (hsigns : ps.IsChain SignsJoined)
    (htokens : tokensOf ps = c.tokens) :
    (fieldBefore isJqlOperator (trim (spell ps))).map (fun field => String.ofList (unquote field))
      = some (String.ofList c.name) := by
  obtain ⟨qs, hcore⟩ := exists_core hps.proper
  obtain ⟨rs, rfl, hrs⟩ := hcore.head htokens
  have hscan := hcore.scannable hps
  have hproper := hscan.proper _ List.mem_cons_self
  have hop := isJqlOperator_spell hc hscan.tail.toSpelled (chain_within hsigns hcore.part).tail hrs
  rw [hcore.trim]
  rcases fieldName_spec hc.field with ⟨quote, content, hfield, hne, hname⟩ | ⟨w, hfield, -, hname⟩
  · rw [hfield] at hproper
    have hunbroken : quote ∉ content := by
      have := hscan.unbroken _ List.mem_cons_self
      rwa [hfield] at this
    have htext : spell (.tok c.field :: rs) = quote :: content ++ quote :: spell rs := by
      rw [spell_cons, hfield]
      simp [JqlPiece.spell, JqlToken.spell]
    rw [htext, fieldBefore, fieldCandidates_str hproper hne hunbroken,
      List.find?_cons_of_pos (by exact hop)]
    show some (String.ofList (unquote (quote :: content ++ [quote]))) = _
    rw [unquote_quoted hproper, JqlClause.name, hname]
    rfl
  · have hw := hrec w hfield
    rw [hfield] at hproper hscan
    obtain ⟨others, hcand⟩ := fieldCandidates_whole hproper hw (endsWord_spell hscan.toSpelled)
    have htext : spell (.tok c.field :: rs) = w ++ spell rs := by
      rw [spell_cons, hfield]
      rfl
    rw [htext, fieldBefore, hcand, List.find?_cons_of_pos (by exact hop)]
    show some (String.ofList (unquote w)) = _
    rw [unquote_plain hproper.2, JqlClause.name, hname]
    rfl

/-! ## What is accepted is indexed -/

/-- Every NOT is followed by white space. -/
def NotsSpaced (text : Text) : Prop :=
  ∀ ps, jqlPieces text = some ps → ps.IsChain SpacedAfterNot

theorem mem_jqlFieldReferences (hscan : ScannedAsRead text)
    (hspaced : NotsSpaced text) {t : JqlTree} (hread : ReadsText text (some t))
    (hc : c ∈ t.clauses) (hrec : c.Recognised) :
    String.ofList c.name
      ∈ jqlFieldReferences ((splitTopLevel matchOrderBy false text).headD []) := by
  obtain ⟨ps, hps, hsigns, hquery⟩ := hread
  obtain ⟨t', ht, hparse⟩ := hquery.conditions_of (hscan ps hps).2.2
  obtain rfl := Option.some.inj ht
  have hscannable := hscan.scannable hps
  obtain ⟨qs, hwithin, htokens, hleaf⟩ := hparse.leaf hscannable (hspaced ps hps) rfl c hc
  have hfield := fieldBefore_clause (hparse.clause_within hc).1 hrec (hscannable.within hwithin)
    (chain_within hsigns hwithin) htokens
  rw [body_eq hscan hps, jqlFieldReferences, leafPredicates_trim, ← spell_pieces hps,
    List.mem_filterMap]
  exact ⟨_, hleaf, hfield⟩

theorem encoded_field_lower {raw : Text} {t : EncodedTerm} (ht : termOf raw = some t) :
    ∀ c ∈ t.field, isFieldChar c = true := by
  rw [termOf] at ht
  split at ht
  case isTrue => cases ht
  case isFalse =>
    obtain ⟨⟨f, op, v⟩, hx, rfl⟩ := Option.map_eq_some_iff.mp ht
    cases hb : termBody raw with
    | nil => simp [hb, execEncodedTerm] at hx
    | cons c s =>
      rw [hb, execEncodedTerm] at hx
      split at hx
      case isFalse => cases hx
      case isTrue hc =>
        cases hm : matchOperator ENCODED_OPERATORS (s.dropWhile isFieldChar) with
        | none => simp [hm] at hx
        | some m =>
          simp only [hm] at hx
          split at hx
          case isTrue => cases hx
          case isFalse =>
            obtain ⟨rfl, -⟩ := Prod.mk.inj (Option.some.inj hx)
            intro d hd
            rcases List.mem_cons.mp hd with rfl | hd
            · rw [isFieldStart, Bool.or_eq_true] at hc
              rw [isFieldChar]
              rcases hc with hc | hc
              · rw [hc, Bool.true_or, Bool.true_or, Bool.true_or]
              · rw [hc, Bool.or_true, Bool.true_or]
            · exact List.mem_takeWhile_imp hd

theorem toLower_of_isFieldChar {c : Char} (h : isFieldChar c = true) :
    c.toNat < 128 ∧ c.toLower = c := by
  have hrange : (97 ≤ c.toNat ∧ c.toNat ≤ 122) ∨ (48 ≤ c.toNat ∧ c.toNat ≤ 57)
      ∨ c.toNat = 95 ∨ c.toNat = 46 := by
    simp only [isFieldChar, Char.isLower, Char.isDigit, Bool.or_eq_true, Bool.and_eq_true,
      decide_eq_true_eq, beq_iff_eq, ge_iff_le, UInt32.le_iff_toNat_le] at h
    rcases h with ((h | h) | rfl) | rfl
    · exact Or.inl h
    · exact Or.inr (Or.inl h)
    · exact Or.inr (Or.inr (Or.inl rfl))
    · exact Or.inr (Or.inr (Or.inr rfl))
  refine ⟨by omega, ?_⟩
  rw [Char.toLower, dif_neg]
  rintro ⟨hlow, hhigh⟩
  have hlow' : 65 ≤ c.toNat := UInt32.le_iff_toNat_le.mp hlow
  have hhigh' : c.toNat ≤ 90 := UInt32.le_iff_toNat_le.mp hhigh
  omega

theorem toLowerCase_field {platform : Platform} (hlower : LowersAscii platform) {f : Text}
    (h : ∀ c ∈ f, isFieldChar c = true) :
    platform.toLowerCase (String.ofList f) = String.ofList f := by
  rw [hlower f fun c hc => (toLower_of_isFieldChar (h c hc)).1]
  congr 1
  calc f.map Char.toLower
      = f.map id := List.map_congr_left fun c hc => (toLower_of_isFieldChar (h c hc)).2
    _ = f := List.map_id f

theorem accepted_encoded_indexed {platform : Platform} (hlower : LowersAscii platform) {catalog : QueryIndexCatalog}
    (h : (validateEncodedQuery platform text (some catalog)).valid = true) {raw : Text}
    {t : EncodedTerm} (hraw : raw ∈ rawTerms text) (ht : termOf raw = some t) :
    IndexedAt catalog (String.ofList t.field) := by
  have hproblems := (accepted_issues h).2.2
  have hname : ∀ s ∈ (((readQuery text).groups.flatMap fun group => group.map (·.field)).filter
      (· ≠ SYS_UPDATED_ON)).map String.ofList,
      platform.toLowerCase s = s := by
    intro s hs
    obtain ⟨f, hf, rfl⟩ := List.mem_map.mp hs
    obtain ⟨hf, -⟩ := List.mem_filter.mp hf
    obtain ⟨g, hg, hf⟩ := List.mem_flatMap.mp hf
    obtain ⟨u, hu, rfl⟩ := List.mem_map.mp hf
    rw [readQuery_groups] at hg
    refine toLowerCase_field hlower ?_
    by_contra hno
    have hnone : ∀ g ∈ partsOf [] (rawTerms text), u ∉ g :=
      not_mem_partsOf [] List.not_mem_nil fun _ _ hterm => hno (encoded_field_lower hterm)
    exact hnone g hg hu
  have hmem : String.ofList t.field
      ∈ (((readQuery text).groups.flatMap fun group => group.map (·.field)).filter
        (· ≠ SYS_UPDATED_ON)).map String.ofList := by
    obtain ⟨g, hg, htg⟩ := mem_partsOf [] (Or.inr ⟨raw, hraw, ht⟩)
    rw [← readQuery_groups] at hg
    exact List.mem_map_of_mem (List.mem_filter.mpr
      ⟨List.mem_flatMap.mpr ⟨g, hg, List.mem_map_of_mem htg⟩,
        by simpa using accepted_field h hraw ht⟩)
  obtain ⟨s, hs, hkey, hindexed⟩ := indexed_of_indexProblems hproblems _ hmem
  rw [hname s hs, hname _ hmem] at hkey
  exact hkey ▸ hindexed

theorem recognised_of_tokens (hlex : lexJql text = some ts) (horder : ∀ t ∈ ts, isOrder t = false)
    (hword : ∀ t ∈ ts, ∀ w, t = .word w → (w, []) ∈ fieldCandidates w) :
    ∀ t, ReadsText text (some t) → ∀ c ∈ t.clauses, c.Recognised := by
  rintro t ⟨ps, hps, -, hquery⟩ c hc w hfield
  rw [lexJql_eq, hps] at hlex
  obtain rfl := Option.some.inj hlex
  obtain ⟨t', ht, hparse⟩ := hquery.conditions_of horder
  obtain rfl := Option.some.inj ht
  refine hword c.field ((hparse.clause_within hc).2.subset ?_) w hfield
  rw [JqlClause.tokens, List.cons_append]
  exact List.mem_cons_self

/-- Jira's issues, with a description that is not searchable. -/
def issueCatalog : QueryIndexCatalog :=
  jiraCatalog Platform.ascii "issue"
    [{ id := "project", name := "Project", indexed := some true },
      { id := "status", name := "Status", indexed := some true },
      { id := "labels", name := "Labels", indexed := some true },
      { id := "description", name := "Description", indexed := some false }] []

theorem groupedQuery_notsSpaced : NotsSpaced groupedQuery := by
  have hpieces : (jqlPieces groupedQuery).all (fun ps => decide (ps.IsChain SpacedAfterNot))
      = true := by decide +kernel
  intro ps hps
  rw [hps, Option.all_some, decide_eq_true_eq] at hpieces
  exact hpieces

def wordIsWhole : JqlToken → Bool
  | .word w => decide ((w, []) ∈ fieldCandidates w)
  | _ => true

/-- `project = A AND NOT(description ~ x)`. -/
def unspacedNotQuery : Text := "project = A AND NOT(description ~ x)".toList

def branchProjectA : JqlClause where
  field := .word "project".toList
  operator := .equals
  operatorTokens := [.symbol '=']
  operand := [.word "A".toList]

def branchDescription : JqlClause where
  field := .word "description".toList
  operator := .contains
  operatorTokens := [.symbol '~']
  operand := [.word "x".toList]

end Cadena.NativeQuery
