import Cadena.NativeQuery.JqlScan

/-!
# The structure the validator sees

What `trim`, `stripOuterParens` and `splitTopLevel` give on the text of a
sentence of the grammar: its sentence inside the outer parentheses, and
the sentences between its connectives.
-/

namespace Cadena.NativeQuery

open Cadena.Base

/-! ## Trimming -/

def JqlPiece.isGap : JqlPiece → Bool
  | .gap _ => true
  | .tok _ => false

variable {c : Char} {k t : JqlToken} {ps qs : List JqlPiece} {as bs ts : List JqlToken}

theorem trimStart_space (hc : isSpace c = true) (t : Text) : trimStart (c :: t) = trimStart t := by
  rw [trimStart, List.dropWhile_cons_of_pos hc]
  rfl

theorem trimEnd_space (hc : isSpace c = true) (t : Text) : trimEnd (t ++ [c]) = trimEnd t := by
  rw [trimEnd, List.reverse_append, List.reverse_singleton, List.singleton_append,
    List.dropWhile_cons_of_pos hc]
  rfl

theorem trim_space_cons (hc : isSpace c = true) (t : Text) : trim (c :: t) = trim t := by
  rw [trim, trimStart_space hc]
  rfl

theorem trim_append_space (hc : isSpace c = true) (t : Text) : trim (t ++ [c]) = trim t := by
  have happ : trimStart (t ++ [c]) = if (trimStart t).isEmpty then trimStart [c]
      else trimStart t ++ [c] := List.dropWhile_append
  rw [trim, happ, trim]
  by_cases ht : (trimStart t).isEmpty = true
  · rw [if_pos ht, List.isEmpty_iff.mp ht, trimStart_space hc]
    rfl
  · rw [if_neg ht, trimEnd_space hc]

theorem JqlToken.spell_ends (ht : (JqlPiece.tok t).Proper) : (∃ c, t.spell.head? = some c ∧ isSpace c = false) ∧
      ∃ c, t.spell.getLast? = some c ∧ isSpace c = false := by
  have hone : ∀ c : Char, isSpace c = false → t.spell = [c] →
      (∃ c, t.spell.head? = some c ∧ isSpace c = false) ∧
        ∃ c, t.spell.getLast? = some c ∧ isSpace c = false := by
    intro c hc hspell
    rw [hspell]
    exact ⟨⟨c, rfl, hc⟩, ⟨c, rfl, hc⟩⟩
  cases t with
  | openParen => exact hone '(' (by decide) rfl
  | closeParen => exact hone ')' (by decide) rfl
  | symbol c =>
    refine hone c ?_ rfl
    rw [Bool.eq_false_iff]
    intro hc
    have hne : ∀ d : Char, isSpace d = false → c ≠ d := by
      rintro d hd rfl
      rw [hc] at hd
      cases hd
    have hno : isJqlSymbol c = false := by
      simp only [isJqlSymbol, Bool.or_eq_false_iff, beq_eq_false_iff_ne]
      exact ⟨⟨⟨⟨⟨hne _ (by decide), hne _ (by decide)⟩, hne _ (by decide)⟩, hne _ (by decide)⟩,
        hne _ (by decide)⟩, hne _ (by decide)⟩
    rw [show isJqlSymbol c = true from ht] at hno
    cases hno
  | str quote content =>
    have hquote := isSpace_of_isQuote ht
    refine ⟨⟨quote, rfl, hquote⟩, quote, ?_, hquote⟩
    show (quote :: content ++ [quote]).getLast? = some quote
    exact List.getLast?_concat
  | word w =>
    obtain ⟨hne, hw⟩ := ht
    have hspace : ∀ c ∈ w, isSpace c = false := fun c hc => (isPlain_spec (hw c hc)).2.2.2.1
    constructor
    · cases w with
      | nil => exact absurd rfl hne
      | cons c w => exact ⟨c, rfl, hspace c List.mem_cons_self⟩
    · obtain ⟨c, hc⟩ : ∃ c, w.getLast? = some c := by
        cases h : w.getLast? with
        | none => exact absurd (List.getLast?_eq_none_iff.mp h) hne
        | some c => exact ⟨c, rfl⟩
      exact ⟨c, hc, hspace c (List.mem_of_getLast? hc)⟩

/-- The trimmed texts between the separators at depth zero. -/
def cutTexts (sep : JqlToken → Bool) (d : Int) (ps : List JqlPiece) : List Text :=
  (splitTop JqlPiece.weight (onToken sep) d ps).map fun s => trim (spell s)

theorem cutTexts_quiet {sep : JqlToken → Bool} {d : Int} (h : Quiet JqlToken.weight sep d (tokensOf ps)) :
    ¬ (cutTexts sep d ps).length > 1 := by
  rw [cutTexts, splitTop_of_quiet (quiet_pieces h)]
  simp

theorem cutTexts_gap_cons (sep : JqlToken → Bool) (d : Int) (hc : isSpace c = true)
    (ps : List JqlPiece) : cutTexts sep d (.gap c :: ps) = cutTexts sep d ps := by
  have hweight : d + JqlPiece.weight (.gap c) = d := by simp [JqlPiece.weight]
  rw [cutTexts, splitTop, if_neg (by simp [onToken]), hweight, cutTexts]
  cases hs : splitTop JqlPiece.weight (onToken sep) d ps with
  | nil => exact absurd hs (splitTop_ne_nil _ _ _)
  | cons s ss =>
    show trim (c :: spell s) :: _ = trim (spell s) :: _
    rw [trim_space_cons hc]

theorem cutTexts_append_gap (sep : JqlToken → Bool) (hc : isSpace c = true)
    (ps : List JqlPiece) (d : Int) : cutTexts sep d (ps ++ [.gap c]) = cutTexts sep d ps := by
  have htrim : ∀ s : List JqlPiece, trim (spell (s ++ [.gap c])) = trim (spell s) := by
    intro s
    rw [spell_append]
    exact trim_append_space hc _
  -- only the last sequence differs, by the space behind it
  have hlast : ∀ d, ∃ front s, splitTop JqlPiece.weight (onToken sep) d ps = front ++ [s] ∧
      splitTop JqlPiece.weight (onToken sep) d (ps ++ [.gap c]) = front ++ [s ++ [.gap c]] := by
    induction ps with
    | nil => exact fun d => ⟨[], [], rfl, by simp [splitTop, onToken, consHead]⟩
    | cons p ps ih =>
      intro d
      obtain ⟨front, s, hps, hgap⟩ := ih (d + p.weight)
      rw [List.cons_append, splitTop, splitTop, hps, hgap]
      by_cases hsep : d = 0 ∧ onToken sep p = true
      · rw [if_pos hsep, if_pos hsep]
        exact ⟨[] :: front, s, rfl, rfl⟩
      · rw [if_neg hsep, if_neg hsep]
        cases front with
        | nil => exact ⟨[], p :: s, rfl, rfl⟩
        | cons f front => exact ⟨(p :: f) :: front, s, rfl, rfl⟩
  obtain ⟨front, s, hps, hgap⟩ := hlast d
  rw [cutTexts, cutTexts, hps, hgap, List.map_append, List.map_append, List.map_singleton,
    List.map_singleton, htrim]

structure Core (ps qs : List JqlPiece) : Prop where
  part : qs <:+: ps
  around : ∃ before after, ps = before ++ qs ++ after ∧ ∀ p ∈ before ++ after, p.isGap = true
  tokens : tokensOf qs = tokensOf ps
  trim : trim (spell ps) = spell qs
  cuts : ∀ sep, cutTexts sep 0 qs = cutTexts sep 0 ps
  starts : ∀ p ∈ qs.head?, p.isGap = false
  ends : ∀ p ∈ qs.getLast?, p.isGap = false

theorem exists_core (hproper : ∀ p ∈ ps, p.Proper) : ∃ qs, Core ps qs := by
  induction hn : ps.length using Nat.strongRecOn generalizing ps with
  | ind n ih =>
    cases ps with
    | nil => exact ⟨[], ⟨List.nil_infix, ⟨[], [], rfl, nofun⟩, rfl, rfl, fun _ => rfl, nofun, nofun⟩⟩
    | cons p rest =>
      cases p with
      | gap c =>
        have hc : isSpace c = true := hproper _ List.mem_cons_self
        obtain ⟨qs, hqs⟩ := ih rest.length (by simp [← hn])
          (fun q hq => hproper q (List.mem_cons_of_mem _ hq)) rfl
        have haround : ∃ before after, JqlPiece.gap c :: rest = before ++ qs ++ after ∧
            ∀ p ∈ before ++ after, p.isGap = true := by
          obtain ⟨before, after, hrest, hgaps⟩ := hqs.around
          refine ⟨.gap c :: before, after, by rw [hrest]; rfl, fun p hp => ?_⟩
          rcases List.mem_cons.mp hp with rfl | hp
          · rfl
          · exact hgaps p hp
        refine ⟨qs, ⟨hqs.part.trans (List.suffix_cons _ _).isInfix, haround, hqs.tokens, ?_,
          fun sep => (hqs.cuts sep).trans (cutTexts_gap_cons sep 0 hc rest).symm,
          hqs.starts, hqs.ends⟩⟩
        show trim (c :: spell rest) = _
        rw [trim_space_cons hc, hqs.trim]
      | tok t =>
        obtain ⟨front, q, hlast⟩ : ∃ front q, JqlPiece.tok t :: rest = front ++ [q] :=
          (List.eq_nil_or_concat' _).resolve_left (List.cons_ne_nil _ _)
        cases q with
        | gap c =>
          have hc : isSpace c = true := hproper (.gap c) (by rw [hlast]; simp)
          obtain ⟨qs, hqs⟩ := ih front.length (by rw [← hn, hlast]; simp)
            (fun r hr => hproper r (by rw [hlast]; exact List.mem_append_left _ hr)) rfl
          rw [hlast]
          have haround : ∃ before after, front ++ [JqlPiece.gap c] = before ++ qs ++ after ∧
              ∀ p ∈ before ++ after, p.isGap = true := by
            obtain ⟨before, after, hfront, hgaps⟩ := hqs.around
            refine ⟨before, after ++ [.gap c], by rw [hfront]; simp, fun p hp => ?_⟩
            rw [← List.append_assoc] at hp
            rcases List.mem_append.mp hp with hp | hp
            · exact hgaps p hp
            · obtain rfl := List.mem_singleton.mp hp
              rfl
          refine ⟨qs, ⟨hqs.part.trans (List.prefix_append _ _).isInfix, haround, ?_, ?_,
            fun sep => (hqs.cuts sep).trans (cutTexts_append_gap sep hc front 0).symm,
            hqs.starts, hqs.ends⟩⟩
          · rw [hqs.tokens]
            simp
          · rw [spell_append]
            show trim (spell front ++ [c]) = _
            rw [trim_append_space hc, hqs.trim]
        | tok u =>
          refine ⟨.tok t :: rest, ⟨List.infix_rfl, ⟨[], [], by simp, nofun⟩, rfl, ?_, fun _ => rfl,
            ?_, ?_⟩⟩
          · obtain ⟨⟨c, hc, hcs⟩, -⟩ :=
              JqlToken.spell_ends (hproper (.tok t) List.mem_cons_self)
            obtain ⟨-, d, hd, hds⟩ :=
              JqlToken.spell_ends (hproper (.tok u) (by rw [hlast]; simp))
            refine trim_eq_self ⟨c, ?_, hcs⟩ ⟨d, ?_, hds⟩
            · show (t.spell ++ spell rest).head? = some c
              rw [List.head?_append, hc]
              rfl
            · rw [hlast, spell_append]
              show (spell front ++ (u.spell ++ [])).getLast? = some d
              rw [List.append_nil, List.getLast?_append, hd]
              rfl
          · intro p hp
            obtain rfl : JqlPiece.tok t = p := by simpa using hp
            rfl
          · intro p hp
            rw [hlast] at hp
            obtain rfl : JqlPiece.tok u = p := by simpa using hp
            rfl

theorem Core.scannable (h : Core ps qs) (hps : Scannable ps) : Scannable qs :=
  hps.within h.part

theorem trim_append_gaps {gaps : List JqlPiece} (hproper : ∀ p ∈ gaps, p.Proper)
    (hgaps : ∀ p ∈ gaps, p.isGap = true) (ps : List JqlPiece) :
    trim (spell (ps ++ gaps)) = trim (spell ps) := by
  induction gaps generalizing ps with
  | nil => rw [List.append_nil]
  | cons p gaps ih =>
    cases p with
    | tok t => cases hgaps (.tok t) List.mem_cons_self
    | gap c =>
      have hc : isSpace c = true := hproper (.gap c) List.mem_cons_self
      rw [List.append_cons, ih (fun q hq => hproper q (List.mem_cons_of_mem _ hq))
        (fun q hq => hgaps q (List.mem_cons_of_mem _ hq)), spell_append]
      exact trim_append_space hc _

theorem Core.trim_tail (h : Core (.tok t :: ps) (.tok t :: qs))
    (hproper : ∀ p ∈ ps, p.Proper) : Cadena.Base.trim (spell ps) = Cadena.Base.trim (spell qs) := by
  obtain ⟨before, after, hps, hgaps⟩ := h.around
  cases before with
  | cons p before =>
    have hp := hgaps p List.mem_cons_self
    rw [List.cons_append, List.cons_append] at hps
    rw [← (List.cons.inj hps).1] at hp
    cases hp
  | nil =>
    obtain rfl : ps = qs ++ after := (List.cons.inj hps).2
    exact trim_append_gaps (fun p hp => hproper p (List.mem_append_right _ hp)) hgaps qs

theorem spell_eq_nil (hproper : ∀ p ∈ ps, p.Proper) (h : spell ps = []) : ps = [] := by
  cases ps with
  | nil => rfl
  | cons p ps =>
    rw [spell_cons, List.append_eq_nil_iff] at h
    exact absurd h.1 (JqlPiece.spell_ne_nil (hproper p List.mem_cons_self))

theorem trim_spell_ne_nil (hproper : ∀ p ∈ ps, p.Proper) (h : tokensOf ps ≠ []) : trim (spell ps) ≠ [] := by
  obtain ⟨qs, hqs⟩ := exists_core hproper
  rw [hqs.trim]
  intro hnil
  have hempty := spell_eq_nil (fun p hp => hproper p (hqs.part.subset hp)) hnil
  rw [← hqs.tokens, hempty] at h
  exact h rfl

/-! ## Parentheses -/

theorem trim_trim (t : Text) : trim (trim t) = trim t := by
  cases hs : trimStart t with
  | nil =>
    have hnil : trim t = [] := by
      rw [trim, hs]
      rfl
    rw [hnil]
    rfl
  | cons c u =>
    have hc : isSpace c = false := by
      have := List.head?_dropWhile_not isSpace t
      rw [show t.dropWhile isSpace = c :: u from hs] at this
      simpa using this
    -- the character is kept at the end, and is the first one then
    obtain ⟨v, hv⟩ : ∃ v, trim t = c :: v := by
      rw [trim, hs]
      have := trimEnd_append (a := [c]) (b := u) ⟨c, rfl, hc⟩
      exact ⟨trimEnd u, this⟩
    have hlast : ∃ d, (trim t).getLast? = some d ∧ isSpace d = false := by
      have hrev : (trim t).getLast? = ((c :: u).reverse.dropWhile isSpace).head? := by
        rw [trim, hs, trimEnd, List.getLast?_reverse]
      have hnot := List.head?_dropWhile_not isSpace (c :: u).reverse
      cases hd : ((c :: u).reverse.dropWhile isSpace).head? with
      | none =>
        rw [hd, hv] at hrev
        simp at hrev
      | some d =>
        rw [hd] at hnot
        exact ⟨d, by rw [hrev, hd], by simpa using hnot⟩
    exact trim_eq_self ⟨c, by rw [hv]; rfl, hc⟩ hlast

theorem stripOnce_length {current inner : Text} (h : stripOnce current = some inner) :
    inner.length < current.length := by
  rw [stripOnce] at h
  split at h
  case isFalse => cases h
  case isTrue hcond =>
    obtain rfl := Option.some.inj h
    have hlen := trim_length_le (current.drop 1).dropLast
    have hpos : 0 < current.length := by
      cases current with
      | nil => cases hcond.1
      | cons c t => simp
    simp only [List.length_dropLast, List.length_drop] at hlen
    omega

theorem stripOuterFrom_fuel : ∀ {n m : Nat} {current : Text}, current.length ≤ n →
    current.length ≤ m → stripOuterFrom n current = stripOuterFrom m current := by
  have hshort : ∀ {n : Nat} {current : Text}, current.length ≤ 0 →
      stripOuterFrom n current = current := by
    intro n current h
    have hnil : current = [] := List.length_eq_zero_iff.mp (by omega)
    cases n with
    | zero => rfl
    | succ n =>
      rw [hnil]
      rfl
  intro n
  induction n with
  | zero =>
    intro m current hn hm
    rw [hshort hn, hshort hn]
  | succ n ih =>
    intro m current hn hm
    cases m with
    | zero => rw [hshort hm, hshort hm]
    | succ m =>
      rw [stripOuterFrom, stripOuterFrom]
      cases hs : stripOnce current with
      | none => rfl
      | some inner =>
        have hlt := stripOnce_length hs
        exact ih (by omega) (by omega)

theorem stripOuterParens_of_none {t : Text} (h : stripOnce (trim t) = none) :
    stripOuterParens t = trim t := by
  rw [stripOuterParens]
  cases t.length with
  | zero => rfl
  | succ n => rw [stripOuterFrom, h]

theorem stripOuterParens_of_some {t u : Text} (h : stripOnce (trim t) = some (trim u)) :
    stripOuterParens t = stripOuterParens u := by
  have hlt := stripOnce_length h
  have hle := trim_length_le t
  have hle' := trim_length_le u
  rw [stripOuterParens, stripOuterParens, stripOuterFrom_fuel (m := (trim u).length + 1)
    (n := u.length) hle' (by omega)]
  obtain ⟨n, hn⟩ : ∃ n, t.length = n + 1 := ⟨t.length - 1, by omega⟩
  rw [hn, stripOuterFrom, h]
  exact stripOuterFrom_fuel (by omega) (by omega)

theorem stripOuterParens_trim (t : Text) : stripOuterParens (trim t) = stripOuterParens t := by
  rw [stripOuterParens, stripOuterParens, trim_trim]
  exact stripOuterFrom_fuel (le_refl _) (trim_length_le t)

theorem wrapsAllFrom_quoted (d : Int) {quote : Char} {content : Text} (h : quote ∉ content)
    (rest : Text) :
    wrapsAllFrom d (some quote) (content ++ quote :: rest) = wrapsAllFrom d none rest := by
  induction content with
  | nil => rw [List.nil_append, wrapsAllFrom, if_pos rfl]
  | cons c content ih =>
    obtain ⟨hc, hrest⟩ := not_or.mp (fun hm => h (List.mem_cons.mpr hm))
    rw [List.cons_append, wrapsAllFrom, if_neg (fun he => hc he.symm), ih hrest]

theorem wrapsAllFrom_char (d : Int) (hquote : ¬ (c = '"' ∨ c = '\'')) (hopen : c ≠ '(')
    (hclose : c ≠ ')') (rest : Text) :
    wrapsAllFrom d none (c :: rest) = wrapsAllFrom d none rest := by
  rw [wrapsAllFrom, if_neg hquote, if_neg hopen, if_neg hclose]

theorem wrapsAllFrom_piece (d : Int) {p : JqlPiece} (hp : p.Proper) (hstr : p.Unbroken)
    (hclose : p ≠ .tok .closeParen) (rest : Text) :
    wrapsAllFrom d none (p.spell ++ rest) = wrapsAllFrom (d + p.weight) none rest := by
  cases p with
  | gap c =>
    have hne : ∀ e : Char, isSpace e = false → c ≠ e := by
      rintro e he rfl
      rw [show isSpace c = true from hp] at he
      cases he
    have hstep := wrapsAllFrom_char d (not_or.mpr ⟨hne _ (by decide), hne _ (by decide)⟩)
      (hne _ (by decide)) (hne _ (by decide)) rest
    simpa [JqlPiece.spell, JqlPiece.weight] using hstep
  | tok t =>
    cases t with
    | closeParen => exact absurd rfl hclose
    | openParen =>
      simp [JqlPiece.spell, JqlToken.spell, JqlPiece.weight, JqlToken.weight, wrapsAllFrom]
    | str quote content =>
      show wrapsAllFrom d none (quote :: content ++ [quote] ++ rest) = _
      rw [List.append_assoc, List.cons_append, wrapsAllFrom, if_pos (isQuote_eq hp)]
      show wrapsAllFrom d (some quote) (content ++ quote :: rest) = _
      rw [wrapsAllFrom_quoted d hstr]
      simp [JqlPiece.weight, JqlToken.weight]
    | symbol c =>
      have hne : ∀ e : Char, isJqlSymbol e = false → c ≠ e := by
        rintro e he rfl
        rw [show isJqlSymbol c = true from hp] at he
        cases he
      have hstep := wrapsAllFrom_char d (not_or.mpr ⟨hne _ (by decide), hne _ (by decide)⟩)
        (hne _ (by decide)) (hne _ (by decide)) rest
      simpa [JqlPiece.spell, JqlToken.spell, JqlPiece.weight, JqlToken.weight] using hstep
    | word w =>
      have hword : ∀ w : Text, (∀ c ∈ w, isPlain c = true) →
          wrapsAllFrom d none (w ++ rest) = wrapsAllFrom d none rest := by
        intro w hw
        induction w with
        | nil => rfl
        | cons c w ih =>
          obtain ⟨hquote, hopen, hclose, -, -⟩ := isPlain_spec (hw c List.mem_cons_self)
          rw [List.cons_append, wrapsAllFrom_char d hquote hopen hclose,
            ih fun e he => hw e (List.mem_cons_of_mem _ he)]
      simpa [JqlPiece.spell, JqlToken.spell, JqlPiece.weight, JqlToken.weight]
        using hword w hp.2

theorem wrapsAllFrom_close (d : Int) (rest : Text) :
    wrapsAllFrom d none (')' :: rest)
      = if d - 1 = 0 ∧ rest ≠ [] then false else wrapsAllFrom (d - 1) none rest := by
  rw [wrapsAllFrom, if_neg (by decide), if_neg (by decide), if_pos rfl]

theorem wrapsAllFrom_nested {ms : List JqlPiece} (hproper : ∀ p ∈ ms, p.Proper)
    (hstr : ∀ p ∈ ms, p.Unbroken) {d e : Int} (h : Nested JqlPiece.weight d e ms) (rest : Text) :
    wrapsAllFrom (d + 1) none (spell ms ++ rest) = wrapsAllFrom (e + 1) none rest := by
  induction ms generalizing d with
  | nil =>
    obtain rfl : d = e := h
    rfl
  | cons p ms ih =>
    have hrest := ih (fun q hq => hproper q (List.mem_cons_of_mem _ hq))
      (fun q hq => hstr q (List.mem_cons_of_mem _ hq)) h.2
    rw [spell_cons, List.append_assoc]
    by_cases hclose : p = .tok .closeParen
    · subst hclose
      have hd : 0 ≤ d + -1 := h.1
      have hback : d + 1 - 1 = d + JqlPiece.weight (.tok .closeParen) + 1 := by
        simp [JqlPiece.weight, JqlToken.weight]
      show wrapsAllFrom (d + 1) none (')' :: (spell ms ++ rest)) = _
      rw [wrapsAllFrom_close, if_neg (by omega), hback, hrest]
    · rw [wrapsAllFrom_piece _ (hproper p List.mem_cons_self) (hstr p List.mem_cons_self) hclose]
      rw [show d + 1 + p.weight = d + p.weight + 1 by omega, hrest]

theorem wrapsAllFrom_closed {as : List JqlPiece} (hproper : ∀ p ∈ as, p.Proper)
    (hstr : ∀ p ∈ as, p.Unbroken) {d : Int} (hd : 0 < d) (h : d + rise JqlPiece.weight as = 0)
    {rest : Text} (hrest : rest ≠ []) : wrapsAllFrom d none (spell as ++ rest) = false := by
  induction as generalizing d with
  | nil =>
    rw [rise_nil] at h
    omega
  | cons p as ih =>
    have htail : ∀ {d' : Int}, 0 < d' → d' + rise JqlPiece.weight as = 0 →
        wrapsAllFrom d' none (spell as ++ rest) = false := fun hd' h' =>
      ih (fun q hq => hproper q (List.mem_cons_of_mem _ hq))
        (fun q hq => hstr q (List.mem_cons_of_mem _ hq)) hd' h'
    rw [rise_cons] at h
    rw [spell_cons, List.append_assoc]
    by_cases hclose : p = .tok .closeParen
    · subst hclose
      have hw : JqlPiece.weight (.tok .closeParen) = -1 := rfl
      rw [hw] at h
      show wrapsAllFrom d none (')' :: (spell as ++ rest)) = false
      rw [wrapsAllFrom_close]
      by_cases hone : d - 1 = 0
      · rw [if_pos ⟨hone, by simp [hrest]⟩]
      · rw [if_neg (fun hc => hone hc.1)]
        exact htail (by omega) (by omega)
    · have hp : 0 ≤ p.weight := by
        cases p with
        | gap c => exact le_refl _
        | tok t =>
          cases t with
          | closeParen => exact absurd rfl hclose
          | openParen => exact zero_le_one
          | str quote content => exact le_refl _
          | symbol c => exact le_refl _
          | word w => exact le_refl _
      rw [wrapsAllFrom_piece _ (hproper p List.mem_cons_self) (hstr p List.mem_cons_self) hclose]
      exact htail (by omega) (by omega)

/-! ## Stripping a sentence -/

theorem Core.head (h : Core ps qs)
    (ht : tokensOf ps = t :: ts) : ∃ qs', qs = .tok t :: qs' ∧ tokensOf qs' = ts := by
  rw [← h.tokens] at ht
  cases qs with
  | nil => cases ht
  | cons p qs =>
    cases p with
    | gap c => exact absurd (h.starts (.gap c) rfl) (by simp [JqlPiece.isGap])
    | tok u =>
      obtain ⟨rfl, hts⟩ := List.cons.inj ht
      exact ⟨qs, rfl, hts⟩

theorem Core.last (h : Core ps qs)
    (ht : tokensOf ps = ts ++ [t]) : ∃ qs', qs = qs' ++ [.tok t] ∧ tokensOf qs' = ts := by
  rw [← h.tokens] at ht
  rcases List.eq_nil_or_concat' qs with rfl | ⟨front, p, rfl⟩
  · simp at ht
  · cases p with
    | gap c => exact absurd (h.ends (.gap c) (by simp)) (by simp [JqlPiece.isGap])
    | tok u =>
      rw [tokensOf_append] at ht
      obtain ⟨hts, hu⟩ := List.append_inj' ht rfl
      obtain rfl : u = t := by simpa using hu
      exact ⟨front, rfl, hts⟩

theorem pieces_of_tokens (h : tokensOf ps = as ++ k :: bs) :
    ∃ ps' qs', ps = ps' ++ .tok k :: qs' ∧ tokensOf ps' = as ∧ tokensOf qs' = bs := by
  obtain ⟨front, back, rfl, hfront, hback⟩ := List.filterMap_eq_append_iff.mp h
  obtain ⟨gaps, p, rest, rfl, hgaps, hp, hrest⟩ := List.filterMap_eq_cons_iff.mp hback
  obtain rfl : p = .tok k := by
    cases p with
    | gap c => cases hp
    | tok t => rw [Option.some.inj hp]
  refine ⟨front ++ gaps, rest, by simp, ?_, hrest⟩
  rw [tokensOf_append, show tokensOf front = as from hfront,
    show tokensOf gaps = [] from List.filterMap_eq_nil_iff.mpr hgaps, List.append_nil]

theorem stripOnce_first (hps : Scannable ps) (hcore : Core ps qs)
    (ht : tokensOf ps = t :: ts) (hopen : t ≠ .openParen) :
    stripOnce (trim (spell ps)) = none := by
  obtain ⟨qs', rfl, -⟩ := hcore.head ht
  have hproper := (hcore.scannable hps).proper (.tok t) List.mem_cons_self
  have hhead : (spell (.tok t :: qs')).head? ≠ some '(' := by
    obtain ⟨⟨c, hc, -⟩, -⟩ := JqlToken.spell_ends hproper
    show (t.spell ++ spell qs').head? ≠ some '('
    rw [List.head?_append, hc, Option.some_or]
    intro hparen
    obtain rfl : c = '(' := Option.some.inj hparen
    cases t with
    | openParen => exact hopen rfl
    | closeParen => cases hc
    | str quote content =>
      obtain rfl : quote = '(' := Option.some.inj hc
      cases hproper
    | symbol d =>
      obtain rfl : d = '(' := Option.some.inj hc
      cases hproper
    | word w =>
      have hplain := hproper.2 '(' (List.mem_of_mem_head? hc)
      exact absurd hplain (by decide)
  rw [hcore.trim, stripOnce, if_neg (fun h => hhead h.1)]

theorem stripOuter_first (hps : Scannable ps) (ht : tokensOf ps = t :: ts) (hopen : t ≠ .openParen) :
    stripOuterParens (spell ps) = trim (spell ps) := by
  obtain ⟨qs, hcore⟩ := exists_core hps.proper
  exact stripOuterParens_of_none (stripOnce_first hps hcore ht hopen)

theorem stripOuter_cut (hps : Scannable ps) (htokens : tokensOf ps = as ++ k :: bs) (hne : as ≠ [])
    (hrise : rise JqlToken.weight as = 0) :
    stripOuterParens (spell ps) = trim (spell ps) := by
  obtain ⟨qs, hcore⟩ := exists_core hps.proper
  obtain ⟨t, as, rfl⟩ := List.exists_cons_of_ne_nil hne
  by_cases hopen : t = .openParen
  · subst hopen
    obtain ⟨qs', rfl, hqs'⟩ := hcore.head htokens
    have hsplit : tokensOf qs' = as ++ k :: bs := hqs'
    obtain ⟨front, back, rfl, hfront, -⟩ := pieces_of_tokens hsplit
    have hscan := hcore.scannable hps
    have hproper : ∀ p ∈ front, p.Proper := fun p hp => hscan.proper p (by simp [hp])
    have hstr : ∀ p ∈ front, p.Unbroken := fun p hp => hscan.unbroken p (by simp [hp])
    have hk := JqlPiece.spell_ne_nil (hscan.proper (.tok k) (by simp))
    have hdepth : 1 + rise JqlPiece.weight front = 0 := by
      rw [rise_pieces, hfront]
      simpa [JqlToken.weight] using hrise
    have hwraps : wrapsAllFrom 0 none (spell (.tok .openParen :: (front ++ .tok k :: back)))
        = false := by
      show wrapsAllFrom (0 + 1) none (spell (front ++ .tok k :: back)) = false
      rw [spell_append]
      exact wrapsAllFrom_closed hproper hstr (by decide) (by simpa using hdepth) (by simp [hk])
    refine stripOuterParens_of_none ?_
    rw [hcore.trim, stripOnce, if_neg]
    rintro ⟨-, -, h⟩
    rw [hwraps] at h
    cases h
  · exact stripOuterParens_of_none (stripOnce_first hps hcore htokens hopen)

theorem stripOuter_group (hps : Scannable ps) (htokens : tokensOf ps = .openParen :: ts ++ [.closeParen])
    (hnested : Nested JqlToken.weight 0 0 ts) :
    ∃ ms, ms <:+: ps ∧ tokensOf ms = ts ∧
      stripOuterParens (spell ps) = stripOuterParens (spell ms) := by
  obtain ⟨qs, hcore⟩ := exists_core hps.proper
  obtain ⟨qs', rfl, hqs'⟩ := hcore.head htokens
  obtain ⟨front, hfront, hrest⟩ := hcore.last htokens
  obtain ⟨ms, rfl, hms⟩ : ∃ ms, qs' = ms ++ [.tok .closeParen] ∧ tokensOf ms = ts := by
    cases front with
    | nil =>
      obtain ⟨hfalse, -⟩ := List.cons.inj hfront
      cases hfalse
    | cons p front =>
      obtain ⟨rfl, hback⟩ := List.cons.inj hfront
      obtain ⟨-, hts⟩ := List.cons.inj hrest
      exact ⟨front, hback, hts⟩
  have hscan := hcore.scannable hps
  have hproper : ∀ p ∈ ms, p.Proper := fun p hp => hscan.proper p (by simp [hp])
  have hstr : ∀ p ∈ ms, p.Unbroken := fun p hp => hscan.unbroken p (by simp [hp])
  have htext : spell (.tok .openParen :: (ms ++ [.tok .closeParen])) = '(' :: (spell ms ++ [')']) := by
    rw [spell_cons, spell_append]
    rfl
  have hwraps : wrapsAllFrom 0 none ('(' :: (spell ms ++ [')'])) = true := by
    have hpieces : Nested JqlPiece.weight 0 0 ms := nested_pieces (le_refl 0) (hms ▸ hnested)
    have hinner := wrapsAllFrom_nested hproper hstr hpieces [')']
    show wrapsAllFrom (0 + 1) none (spell ms ++ [')']) = true
    rw [hinner]
    rfl
  refine ⟨ms, ?_, hms, stripOuterParens_of_some ?_⟩
  · exact (List.infix_append [.tok .openParen] ms [.tok .closeParen]).trans
      (by simpa using hcore.part)
  · have hlast : ('(' :: spell ms ++ [')']).getLast? = some ')' := List.getLast?_concat
    have hinner : (('(' :: (spell ms ++ [')'])).drop 1).dropLast = spell ms := List.dropLast_concat
    rw [hcore.trim, htext, stripOnce, if_pos ⟨rfl, hlast, hwraps⟩, hinner]

/-! ## Cutting a sentence -/

theorem splitTopLevel_spell {keyword : String} (hkeyword : IsLowerWord keyword.toList)
    (hconnective : ∀ t, isKeyword keyword t = true → (JqlPiece.tok t).isConnective = true)
    (hps : Scannable ps)
    (hfirst : ∀ t ∈ (tokensOf ps).head?, isKeyword keyword t = false) :
    splitTopLevel (matchKeyword keyword) false (trim (spell ps))
      = (cutTexts (isKeyword keyword) 0 ps).filter (· ≠ []) := by
  obtain ⟨qs, hcore⟩ := exists_core hps.proper
  have hne : splitTop JqlPiece.weight (onToken (isKeyword keyword)) 0 qs ≠ [] :=
    splitTop_ne_nil _ _ _
  have hstart : ∀ p ∈ qs.head?, onToken (isKeyword keyword) p = true →
      (isSpace ' ' = true ∨ ' ' = ')') ∧ ([] : Text) ≠ [] := by
    intro p hp hk
    cases qs with
    | nil => cases hp
    | cons q qs =>
      obtain rfl : q = p := by simpa using hp
      cases q with
      | gap c => cases hk
      | tok t =>
        have := hfirst t (by rw [← hcore.tokens]; simp)
        rw [show isKeyword keyword t = true from hk] at this
        cases this
  rw [splitTopLevel, hcore.trim,
    splitFrom_spell hkeyword hconnective (hcore.scannable hps) 0 ' ' [] hstart,
    continued_nil _ hne, ← hcore.cuts, List.map_map]
  rfl

theorem matchOrderBy_word {w rest : Text} (hw : ∀ c ∈ w, isPlain c = true) (hrest : EndsWord rest)
    (horder : w.map Char.toLower ≠ "order".toList) : matchOrderBy (w ++ rest) = none := by
  rw [matchOrderBy, stripWord_word (by decide) hrest]
  by_cases hstarts : "order".toList <+: w.map Char.toLower
  · rw [if_pos hstarts]
    obtain ⟨c, w', hdrop⟩ : ∃ c w', w.drop "order".toList.length = c :: w' := by
      cases hd : w.drop "order".toList.length with
      | nil =>
        have hlen := congrArg List.length hd
        simp only [List.length_drop, List.length_nil] at hlen
        have hlong := hstarts.length_le
        rw [List.length_map] at hlong
        exact absurd (hstarts.eq_of_length (by rw [List.length_map]; omega)).symm horder
      | cons c w' => exact ⟨c, w', rfl⟩
    have hspace : isSpace c = false :=
      (isPlain_spec (hw c (List.mem_of_mem_drop (by rw [hdrop]; exact List.mem_cons_self)))).2.2.2.1
    rw [hdrop]
    simp [hspace]
  · rw [if_neg hstarts]

theorem splitTopLevel_orderBy (hps : Scannable ps) (horder : ∀ t ∈ tokensOf ps, isOrder t = false) :
    splitTopLevel matchOrderBy false (spell ps) = [trim (spell ps)].filter (· ≠ []) := by
  have hother : ∀ c t, isPlain c = false → matchOrderBy (c :: t) = none := by
    intro c t hc
    rw [matchOrderBy, stripWord_of_not_plain ⟨by decide, by decide⟩ hc]
  have hmiss : ∀ as w bs, ps = as ++ .tok (.word w) :: bs → matchOrderBy (w ++ spell bs) = none := by
    rintro as w bs rfl
    have hsuffix : Spelled (.tok (.word w) :: bs) :=
      hps.toSpelled.within (List.suffix_append as _).isInfix
    have hw := hsuffix.proper _ List.mem_cons_self
    have hno := horder (.word w) (by simp)
    exact matchOrderBy_word hw.2 (endsWord_spell hsuffix) (by simpa [isOrder, isKeyword] using hno)
  rw [splitTopLevel, splitFrom_quiet hother hps.proper hps.unbroken hmiss]
  rfl

theorem isScoped_eq (expression : Text) (isSelective : Text → Bool) (brackets : Bool) :
    isScoped expression isSelective brackets =
      (let stripped := stripOuterParens expression
       let branches := splitTopLevel (matchKeyword "or") brackets stripped
       if branches.length > 1 then branches.all fun b => isScoped b isSelective brackets
       else
         let conjuncts := splitTopLevel (matchKeyword "and") brackets stripped
         if conjuncts.length > 1 then conjuncts.any fun c => isScoped c isSelective brackets
         else isSelective stripped) := by
  have hpart {part : Text} (hlt : part.length < expression.length) :
      isScopedFrom isSelective brackets expression.length part = isScoped part isSelective brackets :=
    isScopedFrom_fuel isSelective brackets hlt (Nat.lt_succ_self _)
  rw [isScoped, isScopedFrom]
  dsimp only
  split_ifs with hor hand
  · exact all_congr_of_mem fun _ hp => hpart (part_shorter hor hp)
  · exact any_congr_of_mem fun _ hp => hpart (part_shorter hand hp)
  · rfl

theorem isScoped_trim (t : Text) (isSelective : Text → Bool) (brackets : Bool) :
    isScoped (trim t) isSelective brackets = isScoped t isSelective brackets := by
  rw [isScoped_eq (trim t), isScoped_eq t, stripOuterParens_trim]

theorem leafPredicates_eq (expression : Text) (brackets : Bool) :
    leafPredicates expression brackets =
      (let stripped := stripOuterParens expression
       match stripNot stripped with
       | some negated => leafPredicates negated brackets
       | none =>
         let branches := splitTopLevel (matchKeyword "or") brackets stripped
         if branches.length > 1 then branches.flatMap fun b => leafPredicates b brackets
         else
           let conjuncts := splitTopLevel (matchKeyword "and") brackets stripped
           if conjuncts.length > 1 then conjuncts.flatMap fun c => leafPredicates c brackets
           else if stripped = [] then [] else [stripped]) := by
  have hstrip := stripOuterParens_length_le expression
  have hpart {part : Text} (hlt : part.length < expression.length) :
      leafPredicatesFrom brackets expression.length part = leafPredicates part brackets :=
    leafPredicatesFrom_fuel brackets hlt (Nat.lt_succ_self _)
  rw [leafPredicates, leafPredicatesFrom]
  dsimp only
  cases hnot : stripNot (stripOuterParens expression) with
  | some negated =>
    have hshort := stripNot_length hnot
    exact leafPredicatesFrom_fuel brackets (by omega) (Nat.lt_succ_self _)
  | none =>
    dsimp only
    split_ifs with hor hand
    · exact List.flatMap_congr fun _ hp => hpart (part_shorter hor hp)
    · exact List.flatMap_congr fun _ hp => hpart (part_shorter hand hp)
    · rfl
    · rfl

theorem leafPredicates_trim (t : Text) (brackets : Bool) :
    leafPredicates (trim t) brackets = leafPredicates t brackets := by
  rw [leafPredicates_eq (trim t), leafPredicates_eq t, stripOuterParens_trim]

/-! ## Sentences of the grammar -/

/-- What a sentence is at a level: parentheses nest in it, it begins with
no connective, and none of the weaker ones stands outside parentheses. -/
structure Sentence (level : Level) (ts : List JqlToken) : Prop where
  ne_nil : ts ≠ []
  nested : Nested JqlToken.weight 0 0 ts
  first : ∀ t ∈ ts.head?, isAnd t = false ∧ isOr t = false
  quietOr : level ≠ .or → Quiet JqlToken.weight isOr 0 ts
  quietAnd : level = .not → Quiet JqlToken.weight isAnd 0 ts

theorem fieldName_spec (h : (fieldName t).isSome = true) :
    (∃ quote content, t = .str quote content ∧ content ≠ [] ∧ fieldName t = some content) ∨
      ∃ w, t = .word w ∧ isReserved (.word w) = false ∧ fieldName t = some w := by
  cases t with
  | str quote content =>
    by_cases hne : content = []
    · simp [fieldName, hne] at h
    · exact Or.inl ⟨quote, content, rfl, hne, by rw [fieldName, if_neg hne]⟩
  | word w =>
    by_cases hres : isReserved (.word w) = true
    · simp [fieldName, hres] at h
    · exact Or.inr ⟨w, rfl, by simpa using hres, by rw [fieldName, if_neg hres]⟩
  | openParen => cases h
  | closeParen => cases h
  | symbol c => cases h

theorem isKeyword_field {keyword : String} (hmem : keyword ∈ JQL_RESERVED)
    (h : (fieldName t).isSome = true) : isKeyword keyword t = false := by
  rcases fieldName_spec h with ⟨quote, content, rfl, -⟩ | ⟨w, rfl, hres, -⟩
  · rfl
  · exact not_isKeyword_of_free hmem hres

theorem weight_field (h : (fieldName t).isSome = true) : t.weight = 0 := by
  rcases fieldName_spec h with ⟨quote, content, rfl, -⟩ | ⟨w, rfl, -⟩ <;> rfl

theorem JqlClause.WellFormed.operator_token {c : JqlClause} (h : c.WellFormed)
    (ht : t ∈ c.operatorTokens) : t.weight = 0 ∧ isAnd t = false ∧ isOr t = false := by
  have hmem : t.lexeme ∈ c.operator.words := by
    rw [← h.operator]
    exact List.mem_map_of_mem ht
  obtain ⟨hempty, hand, hor, -⟩ := JqlOperator.mem_words hmem
  refine ⟨weight_of_lexeme hempty, ?_, ?_⟩
  · exact Bool.eq_false_iff.mpr fun hk => hand (isKeyword_lexeme hk)
  · exact Bool.eq_false_iff.mpr fun hk => hor (isKeyword_lexeme hk)

theorem JqlClause.WellFormed.free_of {c : JqlClause} (h : c.WellFormed)
    (ht : t ∈ c.tokens) : isAnd t = false ∧ isOr t = false := by
  have hand : "and" ∈ JQL_RESERVED := by decide
  have hor : "or" ∈ JQL_RESERVED := by decide
  rw [tokens, List.cons_append] at ht
  rcases List.mem_cons.mp ht with rfl | ht
  · exact ⟨isKeyword_field hand h.field, isKeyword_field hor h.field⟩
  · rcases List.mem_append.mp ht with ht | ht
    · exact (h.operator_token ht).2
    · exact ⟨not_isKeyword_of_free hand (h.free t ht), not_isKeyword_of_free hor (h.free t ht)⟩

theorem JqlClause.WellFormed.nested_tokens {c : JqlClause} (h : c.WellFormed) :
    Nested JqlToken.weight 0 0 c.tokens := by
  have hflat : ∀ t ∈ c.field :: c.operatorTokens, t.weight = 0 := by
    intro t ht
    rcases List.mem_cons.mp ht with rfl | ht
    · exact weight_field h.field
    · exact (h.operator_token ht).1
  have hfront := nested_of_flat hflat (le_refl 0)
  have hrise : rise JqlToken.weight (c.field :: c.operatorTokens) = 0 := by
    have := hfront.rise_eq
    omega
  refine nested_append.mpr ⟨?_, ?_⟩
  · rw [hrise]
    exact hfront
  · rw [hrise]
    exact h.nested

theorem weight_keyword {keyword : String} (h : isKeyword keyword t = true) : t.weight = 0 := by
  obtain ⟨w, rfl, -⟩ := isKeyword_eq h
  rfl

theorem weight_and (t : JqlToken) (h : isAnd t = true) : t.weight = 0 := weight_keyword h

theorem weight_or (t : JqlToken) (h : isOr t = true) : t.weight = 0 := weight_keyword h

theorem and_or_disjoint (h : isAnd t = true) : isOr t = false := by
  rw [Bool.eq_false_iff]
  intro hor
  have heq := (isKeyword_lexeme h).symm.trans (isKeyword_lexeme hor)
  exact absurd heq (by decide)

theorem nested_joined (hk : k.weight = 0)
    (has : Nested JqlToken.weight 0 0 as) (hbs : Nested JqlToken.weight 0 0 bs) :
    Nested JqlToken.weight 0 0 (as ++ k :: bs) := by
  have hrise : rise JqlToken.weight as = 0 := by
    have := has.rise_eq
    omega
  refine nested_append.mpr ⟨?_, ?_⟩
  · rw [hrise]
    exact has
  · rw [hrise, zero_add]
    exact ⟨by rw [hk, add_zero], by rw [hk, add_zero]; exact hbs⟩

theorem quiet_joined {sep : JqlToken → Bool}
    (hk : k.weight = 0) (hsep : sep k = false) (has : Nested JqlToken.weight 0 0 as)
    (hqas : Quiet JqlToken.weight sep 0 as) (hqbs : Quiet JqlToken.weight sep 0 bs) :
    Quiet JqlToken.weight sep 0 (as ++ k :: bs) := by
  refine quiet_append.mpr ⟨hqas, ?_⟩
  rw [has.rise_eq]
  refine ⟨fun h => ?_, by rw [hk, add_zero]; exact hqbs⟩
  rw [hsep] at h
  cases h.2

theorem head?_append_cons (h : as ≠ []) : (as ++ k :: bs).head? = as.head? := by
  cases as with
  | nil => exact absurd rfl h
  | cons a as => rfl

theorem Parses.sentence {level : Level} {t : JqlTree} (h : Parses level ts t) : Sentence level ts := by
  induction h with
  | @clause c hc =>
    exact {
      ne_nil := List.cons_ne_nil _ _
      nested := hc.nested_tokens
      first := fun t ht => hc.free_of (List.mem_of_mem_head? ht)
      quietOr := fun _ => quiet_of_forall (fun t ht => (hc.free_of ht).2) 0
      quietAnd := fun _ => quiet_of_forall (fun t ht => (hc.free_of ht).1) 0 }
  | @group ts t _ ih =>
    obtain ⟨hinner, hquiet⟩ := ih.nested.inner (le_refl 0)
    have hrise : rise JqlToken.weight (.openParen :: ts) = 1 := by
      have := ih.nested.rise_eq
      rw [rise_cons]
      show (1 : Int) + _ = 1
      omega
    have hgroup : ∀ sep : JqlToken → Bool, sep .openParen = false →
        Quiet JqlToken.weight sep 0 (.openParen :: ts ++ [.closeParen]) := by
      intro sep hopen
      refine quiet_append.mpr ⟨⟨fun h => ?_, hquiet sep⟩, ?_⟩
      · rw [hopen] at h
        cases h.2
      · rw [hrise]
        exact ⟨fun h => absurd h.1 (by decide), trivial⟩
    exact {
      ne_nil := List.cons_ne_nil _ _
      nested := by
        refine nested_append.mpr ⟨⟨by decide, ?_⟩, ?_⟩
        · rw [hrise]
          exact hinner
        · rw [hrise]
          exact ⟨by decide, rfl⟩
      first := fun t ht => by
        obtain rfl : JqlToken.openParen = t := by simpa using ht
        exact ⟨rfl, rfl⟩
      quietOr := fun _ => hgroup isOr rfl
      quietAnd := fun _ => hgroup isAnd rfl }
  | @not k ts t hk _ ih =>
    have hw := weight_keyword hk
    have hne : ∀ keyword, keyword ≠ "not" → isKeyword keyword k = false := by
      intro keyword hne
      rw [Bool.eq_false_iff]
      exact fun h => hne ((isKeyword_lexeme h).symm.trans (isKeyword_lexeme hk))
    exact {
      ne_nil := List.cons_ne_nil _ _
      nested := show Nested JqlToken.weight 0 0 ([] ++ k :: ts) from
        nested_joined hw rfl ih.nested
      first := fun t ht => by
        obtain rfl : k = t := by simpa using ht
        exact ⟨hne _ (by decide), hne _ (by decide)⟩
      quietOr := fun h => show Quiet JqlToken.weight isOr 0 ([] ++ k :: ts) from
        quiet_joined hw (hne _ (by decide)) rfl trivial (ih.quietOr h)
      quietAnd := fun h => show Quiet JqlToken.weight isAnd 0 ([] ++ k :: ts) from
        quiet_joined hw (hne _ (by decide)) rfl trivial (ih.quietAnd h) }
  | @andOne ts t _ ih =>
    exact { ih with quietOr := fun _ => ih.quietOr nofun, quietAnd := nofun }
  | @and k as bs t u _ hk _ iha ihb =>
    exact {
      ne_nil := by simp
      nested := nested_joined (weight_keyword hk) iha.nested ihb.nested
      first := by
        rw [head?_append_cons iha.ne_nil]
        exact iha.first
      quietOr := fun h => quiet_joined (weight_keyword hk) (and_or_disjoint hk) iha.nested
        (iha.quietOr nofun) (ihb.quietOr h)
      quietAnd := nofun }
  | @orOne ts t _ ih => exact { ih with quietOr := fun h => absurd rfl h, quietAnd := nofun }
  | @or k as bs t u _ hk _ iha ihb =>
    exact {
      ne_nil := by simp
      nested := nested_joined (weight_keyword hk) iha.nested ihb.nested
      first := by
        rw [head?_append_cons iha.ne_nil]
        exact iha.first
      quietOr := fun h => absurd rfl h
      quietAnd := nofun }

/-! ## Sentences joined by a connective -/

/-- Parts of one kind with a separator between any two. -/
inductive Joined (sep : JqlToken → Bool) (part : List JqlToken → Prop) : List JqlToken → Prop where
  | one {ts : List JqlToken} : part ts → Joined sep part ts
  | cons {as bs : List JqlToken} {k : JqlToken} :
      part as → sep k = true → Joined sep part bs → Joined sep part (as ++ k :: bs)

theorem Parses.joinedOr {t : JqlTree} (h : Parses .or ts t) : Joined isOr (Sentence .and) ts := by
  generalize hlevel : Level.or = level at h
  induction h with
  | clause _ => cases hlevel
  | group _ _ => cases hlevel
  | not _ _ _ => cases hlevel
  | andOne _ _ => cases hlevel
  | and _ _ _ _ _ => cases hlevel
  | orOne hand _ => exact .one hand.sentence
  | or hand hk _ _ ih => exact .cons hand.sentence hk (ih hlevel)

theorem Parses.joinedAnd {t : JqlTree} (h : Parses .and ts t) : Joined isAnd (Sentence .not) ts := by
  generalize hlevel : Level.and = level at h
  induction h with
  | clause _ => cases hlevel
  | group _ _ => cases hlevel
  | not _ _ _ => cases hlevel
  | andOne hnot _ => exact .one hnot.sentence
  | and hnot hk _ _ ih => exact .cons hnot.sentence hk (ih hlevel)
  | orOne _ _ => cases hlevel
  | or _ _ _ _ _ => cases hlevel

section Joins

variable {sep : JqlToken → Bool} {part : List JqlToken → Prop}
  (hsep : ∀ k, sep k = true → k.weight = 0)
  (hpart : ∀ ts, part ts → ts ≠ [] ∧ Nested JqlToken.weight 0 0 ts ∧ Quiet JqlToken.weight sep 0 ts)

include hsep in
theorem splitTop_joined {as bs : List JqlPiece} {k : JqlToken} (hk : sep k = true)
    (hnested : Nested JqlToken.weight 0 0 (tokensOf as))
    (hquiet : Quiet JqlToken.weight sep 0 (tokensOf as)) :
    splitTop JqlPiece.weight (onToken sep) 0 (as ++ .tok k :: bs)
      = as :: splitTop JqlPiece.weight (onToken sep) 0 bs := by
  have hrise : 0 + rise JqlPiece.weight as = 0 := by
    rw [rise_pieces]
    exact hnested.rise_eq
  have hweight : JqlPiece.weight (.tok k) = 0 := hsep k hk
  rw [splitTop_append hrise (show onToken sep (.tok k) = true from hk),
    splitTop_of_quiet (quiet_pieces hquiet), hweight]
  rfl

include hsep hpart in
theorem Joined.parts {ts : List JqlToken} (h : Joined sep part ts) {ps : List JqlPiece}
    (hps : tokensOf ps = ts) :
    ∀ s ∈ splitTop JqlPiece.weight (onToken sep) 0 ps, part (tokensOf s) := by
  induction h generalizing ps with
  | @one ts hone =>
    have hquiet := (hpart ts hone).2.2
    rw [← hps] at hquiet
    rw [splitTop_of_quiet (quiet_pieces hquiet)]
    intro s hs
    obtain rfl := List.mem_singleton.mp hs
    rw [hps]
    exact hone
  | @cons as bs k has hk _ ih =>
    obtain ⟨front, back, rfl, hfront, hback⟩ := pieces_of_tokens hps
    obtain ⟨-, hnested, hquiet⟩ := hpart as has
    rw [splitTop_joined hsep hk (hfront ▸ hnested) (hfront ▸ hquiet)]
    intro s hs
    rcases List.mem_cons.mp hs with rfl | hs
    · rw [hfront]
      exact has
    · exact ih hback s hs

include hsep hpart in
theorem Joined.cut {ps : List JqlPiece} (h : Joined sep part (tokensOf ps)) :
    splitTop JqlPiece.weight (onToken sep) 0 ps = [ps] ∨
      (1 < (splitTop JqlPiece.weight (onToken sep) 0 ps).length ∧
        ∃ as bs k, tokensOf ps = as ++ k :: bs ∧ as ≠ [] ∧ rise JqlToken.weight as = 0) := by
  generalize hts : tokensOf ps = ts at h
  cases h with
  | one hone =>
    left
    have hquiet := (hpart ts hone).2.2
    rw [← hts] at hquiet
    exact splitTop_of_quiet (quiet_pieces hquiet)
  | @cons as bs k has hk _ =>
    right
    obtain ⟨front, back, rfl, hfront, hback⟩ := pieces_of_tokens hts
    obtain ⟨hne, hnested, hquiet⟩ := hpart as has
    have hpos : 0 < (splitTop JqlPiece.weight (onToken sep) 0 back).length :=
      List.length_pos_iff.mpr (splitTop_ne_nil _ _ _)
    refine ⟨?_, as, bs, k, rfl, hne, ?_⟩
    · rw [splitTop_joined hsep hk (hfront ▸ hnested) (hfront ▸ hquiet), List.length_cons]
      omega
    · have := hnested.rise_eq
      omega

end Joins

theorem and_part (h : Sentence .and ts) :
    ts ≠ [] ∧ Nested JqlToken.weight 0 0 ts ∧ Quiet JqlToken.weight isOr 0 ts :=
  ⟨h.ne_nil, h.nested, h.quietOr nofun⟩

theorem not_part (h : Sentence .not ts) :
    ts ≠ [] ∧ Nested JqlToken.weight 0 0 ts ∧ Quiet JqlToken.weight isAnd 0 ts :=
  ⟨h.ne_nil, h.nested, h.quietAnd rfl⟩

/-! ## What `splitTopLevel` gives for a sentence -/

theorem or_connective (t : JqlToken) (h : isKeyword "or" t = true) :
    (JqlPiece.tok t).isConnective = true := by
  simp [JqlPiece.isConnective, onToken, isOr, h]

theorem and_connective (t : JqlToken) (h : isKeyword "and" t = true) :
    (JqlPiece.tok t).isConnective = true := by
  simp [JqlPiece.isConnective, onToken, isAnd, h]

theorem splitTopLevel_or (hps : Scannable ps) (h : Joined isOr (Sentence .and) (tokensOf ps)) {level : Level}
    (hsentence : Sentence level (tokensOf ps)) :
    splitTopLevel (matchKeyword "or") false (trim (spell ps)) = cutTexts isOr 0 ps := by
  rw [splitTopLevel_spell ⟨by decide, by decide⟩ or_connective hps
    fun t ht => (hsentence.first t ht).2]
  refine List.filter_eq_self.mpr fun text htext => ?_
  obtain ⟨s, hs, rfl⟩ := List.mem_map.mp htext
  have hne := (h.parts weight_or (fun _ => and_part) rfl s hs).ne_nil
  have hproper : ∀ p ∈ s, p.Proper := fun p hp =>
    hps.proper p ((infix_of_mem_splitTop hs).subset hp)
  simpa using trim_spell_ne_nil hproper hne

theorem splitTopLevel_and (hps : Scannable ps) (h : Joined isAnd (Sentence .not) (tokensOf ps)) {level : Level}
    (hsentence : Sentence level (tokensOf ps)) :
    splitTopLevel (matchKeyword "and") false (trim (spell ps)) = cutTexts isAnd 0 ps := by
  rw [splitTopLevel_spell ⟨by decide, by decide⟩ and_connective hps
    fun t ht => (hsentence.first t ht).1]
  refine List.filter_eq_self.mpr fun text htext => ?_
  obtain ⟨s, hs, rfl⟩ := List.mem_map.mp htext
  have hne := (h.parts weight_and (fun _ => not_part) rfl s hs).ne_nil
  have hproper : ∀ p ∈ s, p.Proper := fun p hp =>
    hps.proper p ((infix_of_mem_splitTop hs).subset hp)
  simpa using trim_spell_ne_nil hproper hne

end Cadena.NativeQuery
