import Cadena.NativeQuery.ServiceNowQuery
import Mathlib.Data.List.Induction

/-!
# Bounds of a scheduled encoded query

The adapter cuts the text at `^NQ` and appends the bound to every piece;
the validator cuts it at single carets. The two agree on where a part
ends exactly when no piece ends with a caret, which would make the
appended caret a doubled one, and no part starts anywhere but at a
literal `^NQ` (`KeepsParts`). For the texts the validator accepts this is
the condition for every part of the string that is sent to carry the
bound as a clause of its own.
-/

namespace Cadena.NativeQuery

open Cadena.Base

/-! ## Raw terms -/

theorem rawTerms_append {a b : Text} (ha : a.getLast? ≠ some '^') (hb : b.head? ≠ some '^') :
    rawTerms (a ++ '^' :: b) = rawTerms a ++ rawTerms b := by
  rw [rawTerms, splitSingle_append ha hb, List.map_append, rawTerms, rawTerms]

theorem startsQuery_trim {t : Text} (h : startsQuery t = true) : startsQuery (trim t) = true := by
  obtain ⟨r, rfl⟩ := startsQuery_eq h
  have hstart : trimStart ('N' :: 'Q' :: r) = ['N', 'Q'] ++ r := rfl
  rw [trim, hstart, trimEnd_append ⟨'Q', rfl, by decide⟩]
  rfl

variable {t : EncodedTerm} {bounds : List Bound} {more raws : List Text} {current g : List EncodedTerm}
  {query seg : Text}

theorem termOf_caret {raw : Text} (hraw : '^' ∈ raw) (ht : termOf raw = some t) :
    '^' ∈ t.field ++ t.operator ++ t.value := by
  have hbody : '^' ∈ termBody raw := by
    rw [termBody]
    split
    case isTrue h =>
      -- the two characters cut off are letters
      rcases Bool.or_eq_true_iff.mp h with h | h
      · obtain ⟨r, rfl⟩ := startsQuery_eq h
        simpa using hraw
      · rw [startsOr, Bool.and_eq_true] at h
        obtain ⟨r, hr⟩ := List.isPrefixOf_iff_prefix.mp h.2
        obtain rfl : raw = 'O' :: 'R' :: r := hr.symm
        simpa using hraw
    case isFalse h => exact hraw
  rw [termOf] at ht
  split at ht
  case isTrue h => cases ht
  case isFalse h =>
    obtain ⟨⟨f, op, v⟩, hx, rfl⟩ := Option.map_eq_some_iff.mp ht
    have hsplit : f ++ op ++ v = termBody raw := by
      cases hb : termBody raw with
      | nil => simp [hb, execEncodedTerm] at hx
      | cons c s =>
        rw [hb, execEncodedTerm] at hx
        split at hx
        case isFalse => cases hx
        case isTrue hc =>
          cases hm : matchOperator ENCODED_OPERATORS (s.dropWhile isFieldChar) with
          | none => simp [hm] at hx
          | some m =>
            obtain ⟨o, rest⟩ := m
            simp only [hm] at hx
            split at hx
            case isTrue => cases hx
            case isFalse =>
              obtain ⟨o', ho', hm⟩ := Option.map_eq_some_iff.mp hm
              have hpre := List.find?_some ho'
              obtain ⟨s', hs'⟩ := List.isPrefixOf_iff_prefix.mp hpre
              simp only [Option.some.injEq, Prod.mk.injEq] at hx hm
              obtain ⟨rfl, rfl, rfl⟩ := hx
              obtain ⟨rfl, rfl⟩ := hm
              rw [← hs', List.drop_left, List.cons_append, List.cons_append,
                List.append_assoc, hs', List.takeWhile_append_dropWhile]
    rw [hsplit]
    exact hbody

theorem Bound.term_plain (b : Bound) : '^' ∉ b.term.field ++ b.term.operator ++ b.term.value :=
  b.caret_not_mem_text

theorem Bound.trim_text (b : Bound) : trim b.text = b.text := by
  obtain ⟨r, hr⟩ := b.text_eq
  exact trim_eq_self ⟨'s', by rw [hr]; rfl, by decide⟩ b.text_getLast

/-- The bounds as the adapter joins them. -/
def boundsText (bounds : List Bound) : Text := ['^'].intercalate (bounds.map Bound.text)

def AndedIn (bounds : List Bound) (group : List EncodedTerm) : Prop :=
  ∀ b ∈ bounds, [b.term] ∈ clausesOf group

theorem clausesOf_append_bounds (group : List EncodedTerm) (bounds : List Bound) :
    clausesOf (group ++ bounds.map Bound.term)
      = clausesOf group ++ bounds.map fun b => [b.term] := by
  induction bounds using List.reverseRecOn with
  | nil => simp
  | append_singleton bounds b ih =>
    rw [List.map_append, List.map_append, ← List.append_assoc, ← List.append_assoc, ← ih]
    show clausesOf (_ ++ [b.term]) = _
    rw [clausesOf, List.foldl_append, ← clausesOf]
    show addToClauses _ b.term = _
    rw [addToClauses]
    cases (clausesOf (group ++ bounds.map Bound.term)).getLast? with
    | none => rfl
    | some clause => simp [Bound.term]

theorem mem_of_mem_clausesOf {group clause : List EncodedTerm}
    (hc : clause ∈ clausesOf group) (ht : t ∈ clause) : t ∈ group := by
  induction group using List.reverseRecOn generalizing clause with
  | nil => exact absurd hc List.not_mem_nil
  | append_singleton group u ih =>
    rw [clausesOf, List.foldl_append, ← clausesOf] at hc
    change clause ∈ addToClauses (clausesOf group) u at hc
    have hold : ∀ c ∈ clausesOf group, t ∈ c → t ∈ group := fun c hc ht => ih hc ht
    rw [addToClauses] at hc
    rw [List.mem_append]
    cases hl : (clausesOf group).getLast? with
    | none =>
      rw [hl] at hc
      rcases List.mem_append.mp hc with hc | hc
      · exact Or.inl (hold _ hc ht)
      · rw [List.mem_singleton.mp hc] at ht
        exact Or.inr ht
    | some last =>
      rw [hl] at hc
      have hlast : last ∈ clausesOf group := List.mem_of_getLast? hl
      simp only at hc
      split at hc
      · rcases List.mem_append.mp hc with hc | hc
        · exact Or.inl (hold _ ((List.dropLast_sublist _).subset hc) ht)
        · rw [List.mem_singleton.mp hc] at ht
          rcases List.mem_append.mp ht with ht | ht
          · exact Or.inl (hold _ hlast ht)
          · exact Or.inr ht
      · rcases List.mem_append.mp hc with hc | hc
        · exact Or.inl (hold _ hc ht)
        · rw [List.mem_singleton.mp hc] at ht
          exact Or.inr ht

theorem AndedIn.mem {group : List EncodedTerm} (h : AndedIn bounds group)
    {b : Bound} (hb : b ∈ bounds) : b.term ∈ group :=
  mem_of_mem_clausesOf (h b hb) (List.mem_singleton_self _)

/-! ## Parts of concatenated terms -/

theorem partsOf_append (current : List EncodedTerm) (more : List Text) (h : ∀ raw ∈ raws, startsQuery raw = false) :
    partsOf current (raws ++ more) = partsOf (current ++ raws.filterMap termOf) more := by
  induction raws generalizing current with
  | nil => simp
  | cons raw raws ih =>
    rw [List.cons_append, partsOf, h raw List.mem_cons_self, if_neg Bool.false_ne_true,
      ih _ fun r hr => h r (List.mem_cons_of_mem _ hr)]
    cases ht : termOf raw with
    | none => simp [ht]
    | some t => simp [ht]

theorem partsOf_append_start {raw : Text} (h : startsQuery raw = true) : partsOf current (raws ++ raw :: more)
      = partsOf current raws ++ partsOf (termOf raw).toList more := by
  induction raws generalizing current with
  | nil =>
    show (if startsQuery raw then _ else _) = _
    rw [if_pos h]
    rfl
  | cons r raws ih =>
    rw [List.cons_append, partsOf, partsOf]
    by_cases hr : startsQuery r = true
    · rw [if_pos hr, if_pos hr, ih, List.cons_append]
    · rw [if_neg hr, if_neg hr, ih]

theorem partsOf_append_inert (h : ∀ raw ∈ more, startsQuery raw = false ∧ termOf raw = none) :
    partsOf current (raws ++ more) = partsOf current raws := by
  induction raws generalizing current with
  | nil =>
    have := partsOf_append current [] fun r hr => (h r hr).1
    rw [List.append_nil] at this
    rw [List.nil_append, this, List.filterMap_eq_nil_iff.mpr fun r hr => (h r hr).2,
      List.append_nil]
  | cons r raws ih => rw [List.cons_append, partsOf, partsOf, ih, ih]

theorem not_mem_partsOf (current : List EncodedTerm)
    (hcur : t ∉ current) (hraws : ∀ raw ∈ raws, termOf raw ≠ some t) :
    ∀ g ∈ partsOf current raws, t ∉ g := by
  induction raws generalizing current with
  | nil => simpa [partsOf] using hcur
  | cons raw raws ih =>
    have hraw : t ∉ (termOf raw).toList := by
      simpa [Option.mem_toList] using hraws raw List.mem_cons_self
    have hrest : ∀ r ∈ raws, termOf r ≠ some t := fun r hr => hraws r (List.mem_cons_of_mem _ hr)
    rw [partsOf]
    split
    · intro g hg
      rcases List.mem_cons.mp hg with rfl | hg
      · exact hcur
      · exact ih _ hraw hrest g hg
    · refine ih _ ?_ hrest
      rw [List.mem_append, not_or]
      exact ⟨hcur, hraw⟩

theorem exists_part_without (current : List EncodedTerm) (more : List Text)
    (hcur : t ∉ current) (hraws : ∀ raw ∈ raws, termOf raw ≠ some t)
    (hstart : ∃ raw ∈ raws, startsQuery raw = true) :
    ∃ g ∈ partsOf current (raws ++ more), t ∉ g := by
  obtain ⟨raw, hmem, hstart⟩ := hstart
  obtain ⟨before, after, rfl⟩ := List.append_of_mem hmem
  rw [List.append_assoc, List.cons_append, partsOf_append_start hstart]
  obtain ⟨g, gs, hg⟩ := List.exists_cons_of_ne_nil (partsOf_ne_nil current before)
  refine ⟨g, List.mem_append_left _ (by rw [hg]; exact List.mem_cons_self), ?_⟩
  exact not_mem_partsOf current hcur (fun r hr => hraws r (List.mem_append_left _ hr)) g
    (by rw [hg]; exact List.mem_cons_self)

theorem mem_partsOf_blocks {first : List Text} {blocks : List (List Text)}
    (hblocks : ∀ block ∈ blocks, ∃ raw rest, block = raw :: rest ∧ startsQuery raw = true)
    (hmore : ∀ raw ∈ more, startsQuery raw = false ∧ termOf raw = none) :
    g ∈ partsOf current (first ++ (blocks.flatten ++ more)) ↔
      g ∈ partsOf current first ∨ ∃ block ∈ blocks, g ∈ (partsOf [] block).tail := by
  induction blocks generalizing current first with
  | nil =>
    rw [List.flatten_nil, List.nil_append, partsOf_append_inert hmore]
    simp
  | cons block blocks ih =>
    obtain ⟨raw, rest, rfl, hstart⟩ := hblocks _ List.mem_cons_self
    have htail : (partsOf [] (raw :: rest)).tail = partsOf (termOf raw).toList rest := by
      rw [partsOf, if_pos hstart, List.tail_cons]
    rw [List.flatten_cons, List.append_assoc, List.cons_append, partsOf_append_start hstart,
      List.mem_append, ih fun b hb => hblocks b (List.mem_cons_of_mem _ hb)]
    simp [htail]

/-! ## The text that is sent -/

theorem rawTerms_boundsText (bounds : List Bound) (h : bounds ≠ []) :
    rawTerms (boundsText bounds) = bounds.map Bound.text := by
  induction bounds with
  | nil => exact absurd rfl h
  | cons b bounds ih =>
    have hone : rawTerms b.text = [b.text] := by
      rw [rawTerms, splitSingle_of_not_mem b.caret_not_mem_text, List.map_singleton, b.trim_text]
    cases bounds with
    | nil => simpa [boundsText] using hone
    | cons b' bounds =>
      have hlast : b.text.getLast? ≠ some '^' := fun e =>
        b.caret_not_mem_text (List.mem_of_getLast? e)
      have hhead : (boundsText (b' :: bounds)).head? ≠ some '^' := by
        obtain ⟨r, hr⟩ := b'.text_eq
        obtain ⟨s, hs⟩ := prefix_intercalate ['^'] b'.text (bounds.map Bound.text)
        rw [boundsText, List.map_cons, ← hs, hr]
        exact fun e => absurd (Option.some.inj e) (by decide)
      have hjoin : boundsText (b :: b' :: bounds) = b.text ++ '^' :: boundsText (b' :: bounds) := by
        rw [boundsText, List.map_cons, List.map_cons, List.intercalate_cons_cons,
          List.append_assoc]
        rfl
      rw [hjoin, rawTerms_append hlast hhead, hone, ih (List.cons_ne_nil _ _)]
      rfl

/-- The pieces of a query, each with the `NQ` it follows. -/
def segmentsOf (query : Text) : List Text :=
  match splitText "^NQ".toList query with
  | [] => []
  | first :: rest => first :: rest.map ("NQ".toList ++ ·)

theorem segmentsOf_eq (query : Text) :
    ∃ first rest, splitText "^NQ".toList query = first :: rest ∧
      segmentsOf query = first :: rest.map ("NQ".toList ++ ·) := by
  obtain ⟨first, rest, h⟩ := List.exists_cons_of_ne_nil (splitText_ne_nil '^' ['N', 'Q'] query)
  have h' : splitText "^NQ".toList query = first :: rest := h
  exact ⟨first, rest, h', by rw [segmentsOf, h']⟩

theorem intercalate_segmentsOf (query : Text) : ['^'].intercalate (segmentsOf query) = query := by
  obtain ⟨first, rest, hsplit, hseg⟩ := segmentsOf_eq query
  calc ['^'].intercalate (segmentsOf query)
      = ['^', 'N', 'Q'].intercalate (first :: rest) := by
        rw [hseg]
        exact (intercalate_cons_sep '^' ['N', 'Q'] first rest).symm
    _ = query := by
        rw [← hsplit]
        exact intercalate_splitText '^' ['N', 'Q'] query

theorem boundEveryPart_eq (query bound : Text) :
    boundEveryPart query bound
      = ['^'].intercalate ((segmentsOf query).map (· ++ '^' :: bound)) := by
  obtain ⟨first, rest, hsplit, hseg⟩ := segmentsOf_eq query
  rw [boundEveryPart, hsplit, hseg, List.map_cons, List.map_cons, List.map_map]
  show ['^', 'N', 'Q'].intercalate _ = _
  rw [intercalate_cons_sep, List.map_map]
  congr 2

theorem segmentsOf_head (query : Text) (h : seg ∈ (segmentsOf query).tail) :
    ∃ part ∈ splitText "^NQ".toList query, seg = 'N' :: 'Q' :: part := by
  obtain ⟨first, rest, hsplit, hseg⟩ := segmentsOf_eq query
  rw [hseg, List.tail_cons] at h
  obtain ⟨part, hpart, rfl⟩ := List.mem_map.mp h
  exact ⟨part, by rw [hsplit]; exact List.mem_cons_of_mem _ hpart, rfl⟩

theorem head_of_mem_tail (query : Text) :
    ∀ seg ∈ (segmentsOf query).tail, ∃ c, seg.head? = some c ∧ c ≠ '^' := fun seg h => by
  obtain ⟨part, -, rfl⟩ := segmentsOf_head query h
  exact ⟨'N', rfl, by decide⟩

theorem rawTerms_segment (h : bounds ≠ []) (hseg : seg.getLast? ≠ some '^') :
    rawTerms (seg ++ '^' :: boundsText bounds) = rawTerms seg ++ bounds.map Bound.text := by
  obtain ⟨b, bounds, rfl⟩ := List.exists_cons_of_ne_nil h
  have hhead : (boundsText (b :: bounds)).head? ≠ some '^' := by
    obtain ⟨r, hr⟩ := b.text_eq
    obtain ⟨s, hs⟩ := prefix_intercalate ['^'] b.text (bounds.map Bound.text)
    rw [boundsText, List.map_cons, ← hs, hr]
    exact fun e => absurd (Option.some.inj e) (by decide)
  rw [rawTerms_append hseg hhead, rawTerms_boundsText _ h]

theorem rawTerms_swallowed (b : Bound) (bounds : List Bound) (hseg : seg.getLast? = some '^') :
    ∃ before glued, '^' ∈ glued ∧
      rawTerms (seg ++ '^' :: boundsText (b :: bounds))
        = before ++ trim glued :: bounds.map Bound.text ∧
      ∀ r, before <+: rawTerms (seg ++ r) := by
  obtain ⟨A, l, hl, heq, hpre⟩ := splitSingle_glue hseg b.caret_not_mem_text
  refine ⟨A.map trim, l, hl, ?_, fun r => (hpre r).map trim⟩
  have hone : rawTerms (seg ++ '^' :: b.text) = A.map trim ++ [trim l] := by
    rw [rawTerms, heq, List.map_append, List.map_singleton]
  cases bounds with
  | nil => simpa [boundsText] using hone
  | cons b' bounds =>
    have hlast : (seg ++ '^' :: b.text).getLast? ≠ some '^' := fun e => by
      obtain ⟨c, hc, -⟩ := b.text_getLast
      rw [List.getLast?_append, List.getLast?_cons, hc] at e
      obtain rfl : c = '^' := by simpa using e
      exact b.caret_not_mem_text (List.mem_of_getLast? hc)
    have hjoin : seg ++ '^' :: boundsText (b :: b' :: bounds)
        = (seg ++ '^' :: b.text) ++ '^' :: boundsText (b' :: bounds) := by
      simp [boundsText]
    rw [hjoin, rawTerms_segment (List.cons_ne_nil _ _) hlast, hone]
    simp

theorem order_inert :
    ∀ raw ∈ rawTerms "ORDERBYsys_updated_on^ORDERBYsys_id".toList,
      startsQuery raw = false ∧ termOf raw = none := by decide

theorem rawTerms_intercalate {segs : List Text} (hne : segs ≠ [])
    (hlast : ∀ seg ∈ segs, seg.getLast? ≠ some '^')
    (hhead : ∀ seg ∈ segs.tail, ∃ c, seg.head? = some c ∧ c ≠ '^') :
    rawTerms (['^'].intercalate segs) = segs.flatMap rawTerms := by
  obtain ⟨init, last, rfl⟩ : ∃ init last, segs = init ++ [last] :=
    ⟨_, _, (List.dropLast_append_getLast hne).symm⟩
  rw [rawTerms, splitSingle_intercalate (fun s hs => hlast s (List.mem_append_left _ hs)) hhead,
    List.intercalate_singleton, List.map_append, List.map_flatMap, List.flatMap_append,
    List.flatMap_singleton]
  rfl

theorem getLast_segment (seg : Text) (h : bounds ≠ []) : (seg ++ '^' :: boundsText bounds).getLast? ≠ some '^' := by
  induction bounds generalizing seg with
  | nil => exact absurd rfl h
  | cons b bounds ih =>
    cases bounds with
    | nil =>
      obtain ⟨c, hc, hs⟩ := b.text_getLast
      intro e
      have hb : boundsText [b] = b.text := by simp [boundsText]
      rw [hb, List.getLast?_append, List.getLast?_cons, hc] at e
      obtain rfl : c = '^' := by simpa using e
      exact b.caret_not_mem_text (List.mem_of_getLast? hc)
    | cons b' bounds =>
      have hjoin : seg ++ '^' :: boundsText (b :: b' :: bounds)
          = (seg ++ '^' :: b.text) ++ '^' :: boundsText (b' :: bounds) := by
        simp [boundsText]
      rw [hjoin]
      exact ih _ (List.cons_ne_nil _ _)

theorem rawTerms_segment_start (r : Text) :
    ∃ first rest, splitSingle '^' ('N' :: 'Q' :: r) = ('N' :: 'Q' :: first) :: rest ∧
      rawTerms ('N' :: 'Q' :: r) = trim ('N' :: 'Q' :: first) :: rest.map trim ∧
      startsQuery (trim ('N' :: 'Q' :: first)) = true := by
  obtain ⟨first, rest, h⟩ := List.exists_cons_of_ne_nil (splitSingleFrom_ne_nil '^' false r)
  have hsplit : splitSingle '^' ('N' :: 'Q' :: r) = ('N' :: 'Q' :: first) :: rest := by
    rw [splitSingle_cons (by decide), splitSingle_cons (by decide), splitSingle, h]
    rfl
  exact ⟨first, rest, hsplit, by rw [rawTerms, hsplit]; rfl, startsQuery_trim rfl⟩

/-- The parts of the text that is sent: those of the first segment with the
bounds behind it, and of every later one, less the empty part before its `NQ`. -/
theorem mem_sent_groups {first : Text} {segs : List Text}
    (h : bounds ≠ []) (hseg : segmentsOf query = first :: segs) :
    g ∈ (readQuery (boundEveryPart query (boundsText bounds) ++ orderBySuffix)).groups ↔
      g ∈ partsOf [] (rawTerms (first ++ '^' :: boundsText bounds)) ∨
        ∃ seg ∈ segs, g ∈ (partsOf [] (rawTerms (seg ++ '^' :: boundsText bounds))).tail := by
  have htail : ∀ seg ∈ segs, ∃ r, seg = 'N' :: 'Q' :: r := fun seg hs => by
    obtain ⟨r, -, hr⟩ := segmentsOf_head query (by rw [hseg]; exact hs)
    exact ⟨r, hr⟩
  obtain ⟨bounded, hbounded⟩ :
      ∃ bounded, bounded = (first :: segs).map (· ++ '^' :: boundsText bounds) := ⟨_, rfl⟩
  have hsent : boundEveryPart query (boundsText bounds) ++ orderBySuffix
      = ['^'].intercalate bounded ++ '^' :: "ORDERBYsys_updated_on^ORDERBYsys_id".toList := by
    rw [boundEveryPart_eq, hseg, hbounded]
    rfl
  have hlast : ∀ seg ∈ bounded, seg.getLast? ≠ some '^' := fun seg hs => by
    rw [hbounded] at hs
    obtain ⟨s, -, rfl⟩ := List.mem_map.mp hs
    exact getLast_segment s h
  have hhead : ∀ seg ∈ bounded.tail, ∃ c, seg.head? = some c ∧ c ≠ '^' := fun seg hs => by
    rw [hbounded, List.map_cons, List.tail_cons] at hs
    obtain ⟨s, hs', rfl⟩ := List.mem_map.mp hs
    obtain ⟨r, rfl⟩ := htail s hs'
    exact ⟨'N', rfl, by decide⟩
  have hne : bounded ≠ [] := by simp [hbounded]
  have hjoin : (['^'].intercalate bounded).getLast? ≠ some '^' := by
    obtain ⟨init, last, rfl⟩ : ∃ init last, bounded = init ++ [last] :=
      ⟨_, _, (List.dropLast_append_getLast hne).symm⟩
    obtain ⟨pre, hpre⟩ := suffix_intercalate ['^'] last init
    have hend := hlast last (by simp)
    rw [← hpre, List.getLast?_append]
    cases hl : last.getLast? with
    | none =>
      -- no bounded segment is empty
      obtain ⟨s, -, hs⟩ := List.mem_map.mp (hbounded ▸ List.mem_append_right init
        (List.mem_singleton_self last))
      rw [List.getLast?_eq_none_iff.mp hl] at hs
      simp at hs
    | some c => simpa [hl] using hend
  have hraw : rawTerms (boundEveryPart query (boundsText bounds) ++ orderBySuffix)
      = rawTerms (first ++ '^' :: boundsText bounds)
        ++ ((segs.map fun seg => rawTerms (seg ++ '^' :: boundsText bounds)).flatten
          ++ rawTerms "ORDERBYsys_updated_on^ORDERBYsys_id".toList) := by
    rw [hsent, rawTerms_append hjoin (by decide), rawTerms_intercalate hne hlast hhead, hbounded,
      List.map_cons, List.flatMap_cons, List.append_assoc, List.flatMap_def, List.map_map]
    rfl
  have hblocks : ∀ block ∈ segs.map fun seg => rawTerms (seg ++ '^' :: boundsText bounds),
      ∃ raw rest, block = raw :: rest ∧ startsQuery raw = true := fun block hb => by
    obtain ⟨seg, hs, rfl⟩ := List.mem_map.mp hb
    obtain ⟨r, rfl⟩ := htail seg hs
    obtain ⟨t, rest, -, heq, hstart⟩ := rawTerms_segment_start (r ++ '^' :: boundsText bounds)
    exact ⟨_, _, heq, hstart⟩
  rw [readQuery_groups, hraw, mem_partsOf_blocks hblocks order_inert]
  refine or_congr_right ?_
  simp

/-! ## When the two readings agree -/

/-- No piece of `split('^NQ')` ends with a caret, the first term starts no
part, and a term that starts one does so directly behind its caret. -/
def KeepsParts (query : Text) : Prop :=
  (∀ part ∈ splitText "^NQ".toList query, part.getLast? ≠ some '^') ∧
    startsQuery (trim ((splitSingle '^' query).headD [])) = false ∧
      ∀ term ∈ (splitSingle '^' query).tail,
        startsQuery (trim term) = true → startsQuery term = true

instance (query : Text) : Decidable (KeepsParts query) :=
  inferInstanceAs (Decidable (_ ∧ _ ∧ _))

theorem getLast_of_mem_segmentsOf (h : ∀ part ∈ splitText "^NQ".toList query, part.getLast? ≠ some '^') :
    ∀ seg ∈ segmentsOf query, seg.getLast? ≠ some '^' := fun seg hs => by
  obtain ⟨first, rest, hsplit, hseg⟩ := segmentsOf_eq query
  rw [hsplit] at h
  rw [hseg] at hs
  rcases List.mem_cons.mp hs with rfl | hs
  · exact h _ List.mem_cons_self
  · obtain ⟨part, hpart, rfl⟩ := List.mem_map.mp hs
    have hp := h part (List.mem_cons_of_mem _ hpart)
    intro e
    rw [List.getLast?_append] at e
    cases hl : part.getLast? with
    | none =>
      rw [hl] at e
      exact absurd e (by decide)
    | some c => exact hp (by rw [hl] at e ⊢; exact e)

theorem not_startsQuery_inner {term : Text} (hseg : seg ∈ segmentsOf query)
    (hterm : term ∈ (splitSingle '^' seg).tail) : startsQuery term = false := by
  by_contra hstart
  obtain ⟨r, rfl⟩ := startsQuery_eq (by simpa using hstart)
  have hin : ['^', 'N', 'Q'] <:+: seg :=
    List.IsInfix.trans ⟨[], r, rfl⟩ (infix_of_mem_tail_splitSingle hterm)
  obtain ⟨first, rest, hsplit, hsegs⟩ := segmentsOf_eq query
  have hno : ∀ part ∈ splitText "^NQ".toList query, ¬ ['^', 'N', 'Q'] <:+: part :=
    fun part hp => sep_not_infix_of_mem_splitText hp
  rw [hsplit] at hno
  rw [hsegs] at hseg
  rcases List.mem_cons.mp hseg with rfl | hs
  · exact hno _ List.mem_cons_self hin
  · obtain ⟨part, hpart, rfl⟩ := List.mem_map.mp hs
    refine hno part (List.mem_cons_of_mem _ hpart) ?_
    -- the match cannot begin with the `N` or the `Q` in front
    rcases List.infix_cons_iff.mp hin with h | hin
    · exact absurd (List.cons_prefix_cons.mp h).1 (by decide)
    · rcases List.infix_cons_iff.mp hin with h | hin
      · exact absurd (List.cons_prefix_cons.mp h).1 (by decide)
      · exact hin

theorem splitSingle_query (h : ∀ seg ∈ segmentsOf query, seg.getLast? ≠ some '^') :
    splitSingle '^' query = (segmentsOf query).flatMap (splitSingle '^') := by
  obtain ⟨first, rest, -, hseg⟩ := segmentsOf_eq query
  have hne : segmentsOf query ≠ [] := by
    rw [hseg]
    exact List.cons_ne_nil _ _
  obtain ⟨init, last, hsplit⟩ : ∃ init last, segmentsOf query = init ++ [last] :=
    ⟨_, _, (List.dropLast_append_getLast hne).symm⟩
  have hhead := head_of_mem_tail query
  have hquery := intercalate_segmentsOf query
  rw [hsplit] at h hhead hquery
  calc splitSingle '^' query
      = splitSingle '^' (['^'].intercalate (init ++ [last])) := by rw [hquery]
    _ = init.flatMap (splitSingle '^') ++ splitSingle '^' (['^'].intercalate [last]) :=
        splitSingle_intercalate (fun s hs => h s (List.mem_append_left _ hs)) hhead
    _ = (segmentsOf query).flatMap (splitSingle '^') := by
        rw [hsplit, List.flatMap_append, List.flatMap_singleton, List.intercalate_singleton]

theorem andedIn_partsOf (h : ∀ raw ∈ raws, startsQuery raw = false) :
    ∀ g ∈ partsOf current (raws ++ bounds.map Bound.text), AndedIn bounds g := by
  intro g hg b hb
  have hq : ∀ raw ∈ bounds.map Bound.text, startsQuery raw = false := fun raw hr => by
    obtain ⟨b, -, rfl⟩ := List.mem_map.mp hr
    exact b.startsQuery_text
  have hterm : (bounds.map Bound.text).filterMap termOf = bounds.map Bound.term := by
    rw [List.filterMap_map, ← List.filterMap_eq_map]
    exact List.filterMap_congr fun b _ => b.termOf_text
  have hend := partsOf_append (current ++ raws.filterMap termOf) [] hq
  rw [List.append_nil, hterm] at hend
  rw [partsOf_append _ _ h, hend, partsOf, List.mem_singleton] at hg
  rw [hg, clausesOf_append_bounds]
  exact List.mem_append_right _ (List.mem_map_of_mem hb)

theorem bounded_of_keepsParts (hne : bounds ≠ []) (h : KeepsParts query)
    (hg : g ∈ (readQuery (boundEveryPart query (boundsText bounds) ++ orderBySuffix)).groups) :
    AndedIn bounds g := by
  obtain ⟨hlast, hfirst, hrest⟩ := h
  obtain ⟨first, rest, -, hseg⟩ := segmentsOf_eq query
  generalize rest.map ("NQ".toList ++ ·) = segs at hseg
  have hfirstMem : first ∈ segmentsOf query := by
    rw [hseg]
    exact List.mem_cons_self
  have hsegLast := getLast_of_mem_segmentsOf hlast
  have hterms := splitSingle_query hsegLast
  obtain ⟨t, ts, ht⟩ := List.exists_cons_of_ne_nil (splitSingleFrom_ne_nil '^' false first)
  have ht' : splitSingle '^' first = t :: ts := ht
  have hquery : splitSingle '^' query = t :: (ts ++ segs.flatMap (splitSingle '^')) := by
    rw [hterms, hseg, List.flatMap_cons, ht', List.cons_append]
  rw [hquery] at hfirst hrest
  have hquiet : ∀ seg ∈ segmentsOf query, ∀ term ∈ (splitSingle '^' seg).tail,
      startsQuery (trim term) = false := fun seg hs term hterm => by
    by_contra hstart
    have hmem : term ∈ ts ++ segs.flatMap (splitSingle '^') := by
      rw [hseg] at hs
      rcases List.mem_cons.mp hs with rfl | hs
      · rw [ht', List.tail_cons] at hterm
        exact List.mem_append_left _ hterm
      · exact List.mem_append_right _
          (List.mem_flatMap.mpr ⟨seg, hs, List.mem_of_mem_tail hterm⟩)
    have hraw := hrest term hmem (by simpa using hstart)
    rw [not_startsQuery_inner hs hterm] at hraw
    cases hraw
  rw [mem_sent_groups hne hseg] at hg
  rcases hg with hg | ⟨seg, hs, hg⟩
  · rw [rawTerms_segment hne (hsegLast first hfirstMem)] at hg
    refine andedIn_partsOf (fun raw hr => ?_) g hg
    obtain ⟨term, hterm, rfl⟩ := List.mem_map.mp hr
    rw [ht'] at hterm
    rcases List.mem_cons.mp hterm with rfl | hterm
    · exact hfirst
    · exact hquiet first hfirstMem term (by rw [ht']; exact hterm)
  · have hmem : seg ∈ segmentsOf query := by
      rw [hseg]
      exact List.mem_cons_of_mem _ hs
    obtain ⟨r, -, rfl⟩ := segmentsOf_head query (by rw [hseg]; exact hs)
    obtain ⟨n, rest', hsplit, hraw, hstart⟩ := rawTerms_segment_start r
    rw [rawTerms_segment hne (hsegLast _ hmem), hraw, List.cons_append, partsOf, if_pos hstart,
      List.tail_cons] at hg
    refine andedIn_partsOf (fun raw hr => ?_) g hg
    obtain ⟨term, hterm, rfl⟩ := List.mem_map.mp hr
    exact hquiet _ hmem term (by rw [hsplit]; exact hterm)

section Converse

variable {query : Text} {b : Bound} {bounds : List Bound}

/-- A segment with a caret at its end leaves a part without the bound: the
first such segment's terms are terms of the text, and the bound behind it
is glued to the last of them. -/
theorem getLast_of_bounded (hother : ∀ b' ∈ bounds, b'.term ≠ b.term)
    (hfree : ∀ raw ∈ rawTerms query, termOf raw ≠ some b.term)
    (h : ∀ g ∈ (readQuery (boundEveryPart query (boundsText (b :: bounds))
      ++ orderBySuffix)).groups, b.term ∈ g) :
    ∀ seg ∈ segmentsOf query, seg.getLast? ≠ some '^' := by
  by_contra hbad
  push Not at hbad
  obtain ⟨bad, hbad, hcaret⟩ := hbad
  have hfind : ((segmentsOf query).find? fun seg => decide (seg.getLast? = some '^')).isSome := by
    rw [List.find?_isSome]
    exact ⟨bad, hbad, decide_eq_true hcaret⟩
  obtain ⟨seg, hseg⟩ := Option.isSome_iff_exists.mp hfind
  obtain ⟨hlast, before, after, hsplit, hbefore⟩ := List.find?_eq_some_iff_append.mp hseg
  have hlast : seg.getLast? = some '^' := by simpa using hlast
  have hbefore : ∀ a ∈ before, a.getLast? ≠ some '^' := fun a ha => by simpa using hbefore a ha
  obtain ⟨own, glued, hglued, hblock, hown⟩ := rawTerms_swallowed b bounds hlast
  have hsub : ∀ raw ∈ own, raw ∈ rawTerms query := fun raw hr => by
    have hhead := head_of_mem_tail query
    have hquery := intercalate_segmentsOf query
    rw [hsplit] at hhead hquery
    obtain ⟨r, hr'⟩ := prefix_intercalate ['^'] seg after
    rw [rawTerms, ← hquery, splitSingle_intercalate hbefore hhead, ← hr', List.map_append]
    exact List.mem_append_right _ ((hown r).subset hr)
  have hsilent : ∀ raw ∈ rawTerms (seg ++ '^' :: boundsText (b :: bounds)),
      termOf raw ≠ some b.term := fun raw hr => by
    rw [hblock] at hr
    rcases List.mem_append.mp hr with hr | hr
    · exact hfree raw (hsub raw hr)
    rcases List.mem_cons.mp hr with rfl | hr
    · exact fun e => b.term_plain (termOf_caret (mem_trim hglued (by decide)) e)
    · obtain ⟨b', hb', rfl⟩ := List.mem_map.mp hr
      rw [b'.termOf_text]
      exact fun e => hother b' hb' (Option.some.inj e)
  have hnone := not_mem_partsOf [] List.not_mem_nil hsilent
  obtain ⟨first, rest, -, hsegs⟩ := segmentsOf_eq query
  generalize rest.map ("NQ".toList ++ ·) = segs at hsegs
  cases before with
  | nil =>
    rw [hsegs, List.nil_append] at hsplit
    obtain ⟨rfl, rfl⟩ := List.cons.inj hsplit
    obtain ⟨g, gs, hg⟩ := List.exists_cons_of_ne_nil
      (partsOf_ne_nil [] (rawTerms (first ++ '^' :: boundsText (b :: bounds))))
    have hmem : g ∈ partsOf [] (rawTerms (first ++ '^' :: boundsText (b :: bounds))) := by
      rw [hg]
      exact List.mem_cons_self
    exact hnone g hmem (h g ((mem_sent_groups (List.cons_ne_nil _ _) hsegs).mpr (Or.inl hmem)))
  | cons a before =>
    rw [hsegs, List.cons_append] at hsplit
    obtain ⟨rfl, rfl⟩ := List.cons.inj hsplit
    obtain ⟨r, -, rfl⟩ : ∃ part ∈ _, seg = 'N' :: 'Q' :: part :=
      segmentsOf_head query (by rw [hsegs]; simp)
    obtain ⟨n, rest', -, hraw, hstart⟩ :=
      rawTerms_segment_start (r ++ '^' :: boundsText (b :: bounds))
    have hraw' : rawTerms ('N' :: 'Q' :: r ++ '^' :: boundsText (b :: bounds)) = _ := hraw
    obtain ⟨g, gs, hg⟩ := List.exists_cons_of_ne_nil
      (partsOf_ne_nil (termOf (trim ('N' :: 'Q' :: n))).toList (rest'.map trim))
    have hparts : partsOf [] (rawTerms ('N' :: 'Q' :: r ++ '^' :: boundsText (b :: bounds)))
        = [] :: g :: gs := by
      rw [hraw', partsOf, if_pos hstart, hg]
    refine hnone g (by rw [hparts]; simp) (h g ?_)
    refine (mem_sent_groups (List.cons_ne_nil _ _) hsegs).mpr (Or.inr ⟨'N' :: 'Q' :: r, ?_, ?_⟩)
    · exact List.mem_append_right _ List.mem_cons_self
    · rw [hparts]
      simp

theorem keepsParts_of_bounded (hother : ∀ b' ∈ bounds, b'.term ≠ b.term)
    (hfree : ∀ raw ∈ rawTerms query, termOf raw ≠ some b.term)
    (h : ∀ g ∈ (readQuery (boundEveryPart query (boundsText (b :: bounds))
      ++ orderBySuffix)).groups, b.term ∈ g) : KeepsParts query := by
  have hsegLast := getLast_of_bounded hother hfree h
  have hterms := splitSingle_query hsegLast
  have hne : b :: bounds ≠ [] := List.cons_ne_nil _ _
  obtain ⟨first, rest, hsplit, hsegs⟩ := segmentsOf_eq query
  have hfree' : ∀ seg ∈ segmentsOf query, ∀ raw ∈ rawTerms seg, termOf raw ≠ some b.term :=
    fun seg hs raw hr => hfree raw (by
      rw [rawTerms, hterms, List.map_flatMap]
      exact List.mem_flatMap.mpr ⟨seg, hs, hr⟩)
  refine ⟨fun part hpart => ?_, ?_⟩
  · rw [hsplit] at hpart
    rw [hsegs] at hsegLast
    rcases List.mem_cons.mp hpart with rfl | hpart
    · exact hsegLast _ List.mem_cons_self
    · intro e
      refine hsegLast _ (List.mem_cons_of_mem _ (List.mem_map_of_mem hpart)) ?_
      rw [List.getLast?_append, e, Option.some_or]
  · generalize rest.map ("NQ".toList ++ ·) = segs at hsegs
    have hfirstMem : first ∈ segmentsOf query := by
      rw [hsegs]
      exact List.mem_cons_self
    -- a term that starts a part inside a segment closes a part without the bound
    have hquiet : ∀ term ∈ splitSingle '^' first, startsQuery (trim term) = false :=
      fun term hterm => by
        by_contra hstart
        obtain ⟨g, hg, hno⟩ := exists_part_without []
          ((b :: bounds).map Bound.text) List.not_mem_nil (hfree' first hfirstMem)
          ⟨trim term, List.mem_map_of_mem hterm, by simpa using hstart⟩
        rw [← rawTerms_segment hne (hsegLast first hfirstMem)] at hg
        exact hno (h g ((mem_sent_groups hne hsegs).mpr (Or.inl hg)))
    have hquiet' : ∀ seg ∈ segs, ∀ term ∈ (splitSingle '^' seg).tail,
        startsQuery (trim term) = false := fun seg hs term hterm => by
      by_contra hstart
      have hmem : seg ∈ segmentsOf query := by
        rw [hsegs]
        exact List.mem_cons_of_mem _ hs
      obtain ⟨r, -, rfl⟩ := segmentsOf_head query (by rw [hsegs]; exact hs)
      obtain ⟨n, rest', hs', hraw, hn⟩ := rawTerms_segment_start r
      have hf := hfree' _ hmem
      rw [hraw] at hf
      rw [hs', List.tail_cons] at hterm
      obtain ⟨g, hg, hno⟩ := exists_part_without
        (termOf (trim ('N' :: 'Q' :: n))).toList ((b :: bounds).map Bound.text)
        (by simpa [Option.mem_toList] using hf _ List.mem_cons_self)
        (fun raw hr => hf raw (List.mem_cons_of_mem _ hr))
        ⟨trim term, List.mem_map_of_mem hterm, by simpa using hstart⟩
      refine hno (h g ((mem_sent_groups hne hsegs).mpr (Or.inr ⟨_, hs, ?_⟩)))
      rw [rawTerms_segment hne (hsegLast _ hmem), hraw, List.cons_append, partsOf, if_pos hn,
        List.tail_cons]
      exact hg
    obtain ⟨u, us, hu⟩ := List.exists_cons_of_ne_nil (splitSingleFrom_ne_nil '^' false first)
    have hu' : splitSingle '^' first = u :: us := hu
    rw [hterms, hsegs, List.flatMap_cons, hu', List.cons_append]
    rw [hu'] at hquiet
    refine ⟨hquiet u List.mem_cons_self, fun term hterm hstart => ?_⟩
    rcases List.mem_append.mp hterm with hterm | hterm
    · rw [hquiet term (List.mem_cons_of_mem _ hterm)] at hstart
      cases hstart
    · obtain ⟨seg, hs, hterm⟩ := List.mem_flatMap.mp hterm
      obtain ⟨r, -, rfl⟩ := segmentsOf_head query (by rw [hsegs]; exact hs)
      obtain ⟨n, rest', hs', -, -⟩ := rawTerms_segment_start r
      rw [hs'] at hterm
      rcases List.mem_cons.mp hterm with rfl | hterm
      · rfl
      · rw [hquiet' _ hs term (by rw [hs']; exact hterm)] at hstart
        cases hstart

end Converse

/-! ## The queries the adapter sends -/

/-- In every part the text has, each bound is an ANDed clause of its own. -/
def EveryPartBounded (bounds : List Bound) (sent : Text) : Prop :=
  ∀ g ∈ (readQuery sent).groups, AndedIn bounds g

theorem sinceBound_eq (calendar : Calendar) (timeZone : String) (since : Int) :
    sinceBound calendar timeZone since = boundsText [lowerBound calendar timeZone since] := by
  rw [boundsText, List.map_singleton, List.intercalate_singleton]
  rfl

theorem windowBound_eq (calendar : Calendar) (timeZone : String) (start to_ : Int) :
    windowBound calendar timeZone start to_
      = boundsText [lowerBound calendar timeZone start, upperBound calendar timeZone to_] := by
  rw [boundsText, List.map_cons, List.map_singleton, List.intercalate_cons_cons,
    List.intercalate_singleton, List.append_assoc]
  rfl

theorem everyPartBounded_iff {platform : Platform} {catalog : Option QueryIndexCatalog}
    (haccepted : (validateEncodedQuery platform query catalog).valid = true)
    {b : Bound} (hfield : b.term.field = SYS_UPDATED_ON)
    (hother : ∀ b' ∈ bounds, b'.term ≠ b.term) :
    EveryPartBounded (b :: bounds) (boundEveryPart query (boundsText (b :: bounds)) ++ orderBySuffix)
      ↔ KeepsParts query := by
  constructor
  · intro h
    refine keepsParts_of_bounded hother (fun raw hr e => ?_) fun g hg => ?_
    · exact accepted_field haccepted hr e hfield
    · exact (h g hg).mem List.mem_cons_self
  · intro h g hg
    exact bounded_of_keepsParts (List.cons_ne_nil _ _) h hg

theorem ne_nil_of_accepted {platform : Platform} {catalog : Option QueryIndexCatalog}
    (haccepted : (validateEncodedQuery platform query catalog).valid = true) :
    query ≠ [] := by
  rintro rfl
  cases haccepted

/-- An accepted scheduled query is bounded by its watermark in every part,
and an accepted backfill query by its window, exactly when the adapter's
pieces are the validator's parts. -/
theorem accepted_query_bounded_iff (platform : Platform) (catalog : Option QueryIndexCatalog)
    (calendar : Calendar) (timeZone : String) (query : Text)
    (haccepted : (validateEncodedQuery platform query catalog).valid = true) :
    (∀ since, ∃ sent, ServiceNow.fetchNativeQuery calendar timeZone query (some since) = .ok sent ∧
        (EveryPartBounded [lowerBound calendar timeZone since] sent ↔ KeepsParts query)) ∧
      ∀ tables entityType window pageToken start skip, entityType ∈ tables →
        resumePoint calendar window pageToken = .ok (start, skip) →
        ∃ sent, ServiceNow.fetchBackfillPage calendar timeZone tables entityType window
            (some query) pageToken = .ok sent ∧
          (EveryPartBounded
              [lowerBound calendar timeZone start, upperBound calendar timeZone window.to_] sent ↔
            KeepsParts query) := by
  refine ⟨fun since => ⟨_, rfl, ?_⟩, fun tables entityType window pageToken start skip htable hstart => ?_⟩
  · rw [sinceBound_eq]
    exact everyPartBounded_iff haccepted rfl fun b' hb => absurd hb List.not_mem_nil
  · obtain ⟨c, t, rfl⟩ := List.exists_cons_of_ne_nil (ne_nil_of_accepted haccepted)
    refine ⟨boundEveryPart (c :: t) (windowBound calendar timeZone start window.to_)
      ++ orderBySuffix, ?_, ?_⟩
    · rw [ServiceNow.fetchBackfillPage, hstart, if_neg (not_not_intro htable)]
      rfl
    · rw [windowBound_eq]
      refine everyPartBounded_iff haccepted rfl fun b' hb e => ?_
      rw [List.mem_singleton.mp hb] at e
      have hop : "<".toList = ">=".toList := congrArg EncodedTerm.operator e
      exact absurd hop (by decide)

/-- Two parts, each bounded on its own. -/
theorem accepted_query_bounded_iff_two_parts :
    ∃ sent, ServiceNow.fetchNativeQuery epochCalendar "UTC" "assignment_group=abc^NQcaller_id=u1".toList
        (some 0) = .ok sent ∧
      EveryPartBounded [lowerBound epochCalendar "UTC" 0] sent := by
  obtain ⟨sent, hsent, hiff⟩ := (accepted_query_bounded_iff Platform.ascii none epochCalendar "UTC"
    "assignment_group=abc^NQcaller_id=u1".toList (by decide)).1 0
  exact ⟨sent, hsent, hiff.mpr (by decide)⟩

/-- A caret at the end of an accepted query makes the appended one a
doubled caret: the watermark becomes part of the last value. -/
theorem trailing_caret_unbounded :
    ¬ ∀ (platform : Platform) (catalog : Option QueryIndexCatalog) (calendar : Calendar)
        (timeZone : String) (query : Text) (since : Int) (sent : Text),
      (validateEncodedQuery platform query catalog).valid = true →
      ServiceNow.fetchNativeQuery calendar timeZone query (some since) = .ok sent →
      EveryPartBounded [lowerBound calendar timeZone since] sent := by
  intro h
  have hunbounded := h Platform.ascii none epochCalendar "UTC" "assignment_group=abc^".toList 0 _
    (by decide) rfl
  have hmem : lowerBound epochCalendar "UTC" 0 ∈ [lowerBound epochCalendar "UTC" 0] :=
    List.mem_singleton_self _
  exact absurd (fun g hg => hunbounded g hg _ hmem) (by decide)

end Cadena.NativeQuery
