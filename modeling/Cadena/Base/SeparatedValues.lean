import Mathlib.Data.List.Basic
import Mathlib.Tactic.Common

/-!
# Separated values

Tables of texts as lines of fields, after RFC 4180: a field that holds a
mark is put between quotes with its own quotes doubled, fields are joined
by a comma and every record ends with a line break of two marks. The
reader refuses what the grammar does not derive, and reads back every
table whose records have a field (`read_writeTable`). Nothing here depends
on the program or on the alphabet.
-/

namespace Cadena.Base.SeparatedValues

/-- The four letters that are no text data. -/
structure Marks (α : Type*) where
  quote : α
  comma : α
  cr : α
  lf : α
  distinct : [quote, comma, cr, lf].Nodup

variable {α : Type*} [DecidableEq α] (m : Marks α)

def Marks.all : List α := [m.quote, m.comma, m.cr, m.lf]

def doubled (t : List α) : List α := t.flatMap fun c => if c = m.quote then [c, c] else [c]

/-- A field, between quotes if it holds a mark. -/
def writeField (t : List α) : List α :=
  if t.any (· ∈ m.all) then m.quote :: doubled m t ++ [m.quote] else t

def writeRecord (fields : List (List α)) : List α :=
  [m.comma].intercalate (fields.map (writeField m))

def writeTable (records : List (List (List α))) : List α :=
  records.flatMap fun r => writeRecord m r ++ [m.cr, m.lf]

/-- Where the reader stands. -/
inductive Mode where
  /-- Before a record. -/
  | record
  /-- Before a field. -/
  | field
  /-- In a field without quotes. -/
  | plain
  | quoted
  /-- After a quote in a quoted field: it closes the field or is the first of two. -/
  | closing
  /-- After the first mark of a line break. -/
  | broken

/-- Put a letter before the first field of the first record. -/
def consLetter (c : α) : List (List (List α)) → List (List (List α))
  | (f :: fs) :: rs => ((c :: f) :: fs) :: rs
  | rs => rs

/-- The field read is followed by others in its record. -/
def consField : List (List (List α)) → List (List (List α))
  | r :: rs => ([] :: r) :: rs
  | [] => []

/-- What is read from here on. The first field of the first record is the
one the reader stands in. -/
def readFrom : Mode → List α → Option (List (List (List α)))
  | .record, [] => some []
  | .field, [] | .plain, [] | .closing, [] => some [[[]]]
  | .quoted, [] | .broken, [] => none
  | .quoted, c :: t =>
    if c = m.quote then readFrom .closing t else (readFrom .quoted t).map (consLetter c)
  | .closing, c :: t =>
    if c = m.quote then (readFrom .quoted t).map (consLetter c)
    else if c = m.comma then (readFrom .field t).map consField
    else if c = m.cr then readFrom .broken t
    else none
  | .broken, c :: t => if c = m.lf then (readFrom .record t).map ([[]] :: ·) else none
  | .plain, c :: t =>
    if c = m.comma then (readFrom .field t).map consField
    else if c = m.cr then readFrom .broken t
    else if c = m.quote ∨ c = m.lf then none
    else (readFrom .plain t).map (consLetter c)
  | .record, c :: t | .field, c :: t =>
    if c = m.quote then readFrom .quoted t
    else if c = m.comma then (readFrom .field t).map consField
    else if c = m.cr then readFrom .broken t
    else if c = m.lf then none
    else (readFrom .plain t).map (consLetter c)

/-- The records of a text; `none` if it is not derived by the grammar. -/
def read (t : List α) : Option (List (List (List α))) := readFrom m .record t

/-! ## One field -/

/-- Put a text before the first field of the first record. -/
def consText (t : List α) (rs : List (List (List α))) : List (List (List α)) :=
  t.foldr consLetter rs

omit [DecidableEq α] in
@[simp] theorem consText_nil : consText ([] : List α) = id := rfl

omit [DecidableEq α] in
theorem consLetter_consText (c : α) (t : List α) :
    consLetter c ∘ consText t = consText (c :: t) := rfl

omit [DecidableEq α] in
@[simp] theorem consText_cons (t f : List α) (fs : List (List α)) (rs : List (List (List α))) :
    consText t ((f :: fs) :: rs) = ((t ++ f) :: fs) :: rs := by
  induction t with
  | nil => rfl
  | cons c t ih => rw [consText, List.foldr_cons, ← consText, ih, consLetter, List.cons_append]

/-- A field ends at a comma or at a line break. -/
def Ends (r : List α) : Prop := ∃ c r', r = c :: r' ∧ (c = m.comma ∨ c = m.cr)

omit [DecidableEq α] in
theorem Marks.ne : m.quote ≠ m.comma ∧ m.quote ≠ m.cr ∧ m.quote ≠ m.lf ∧ m.comma ≠ m.cr
    ∧ m.comma ≠ m.lf ∧ m.cr ≠ m.lf := by
  simpa [List.nodup_cons, not_or, and_assoc] using m.distinct

theorem readFrom_ends {r : List α} (h : Ends m r) :
    readFrom m .closing r = readFrom m .field r ∧ readFrom m .plain r = readFrom m .field r := by
  obtain ⟨c, r, rfl, rfl | rfl⟩ := h
  · simp [readFrom, m.ne.1.symm]
  · simp [readFrom, m.ne.2.1.symm, m.ne.2.2.2.1.symm]

theorem readFrom_plain {t : List α} (ht : t.any (· ∈ m.all) = false) (r : List α) :
    readFrom m .plain (t ++ r) = (readFrom m .plain r).map (consText t) := by
  induction t with
  | nil => simp
  | cons c t ih =>
    have hc : c ∉ m.all := by
      intro hc
      simp [hc] at ht
    simp only [Marks.all, List.mem_cons, List.not_mem_nil, or_false, not_or] at hc
    obtain ⟨hq, hcomma, hcr, hlf⟩ := hc
    rw [List.any_cons, Bool.or_eq_false_iff] at ht
    rw [List.cons_append, readFrom, if_neg hcomma, if_neg hcr, if_neg (by simp [hq, hlf]),
      ih ht.2, Option.map_map, consLetter_consText]

theorem readFrom_quoted (t r : List α) :
    readFrom m .quoted (doubled m t ++ m.quote :: r)
      = (readFrom m .closing r).map (consText t) := by
  induction t with
  | nil => simp [doubled, readFrom]
  | cons c t ih =>
    rw [doubled, List.flatMap_cons, ← doubled, List.append_assoc]
    by_cases hc : c = m.quote
    · -- the first quote seems to close the field, the second opens it again
      rw [if_pos hc, hc, List.cons_append, List.singleton_append, readFrom, if_pos rfl,
        readFrom, if_pos rfl, ih, Option.map_map, consLetter_consText]
    · rw [if_neg hc, List.singleton_append, readFrom, if_neg hc, ih, Option.map_map,
        consLetter_consText]

/-- **A field is read back** in front of a comma or a line break. -/
theorem readFrom_writeField (t : List α) {r : List α} (hr : Ends m r) :
    readFrom m .field (writeField m t ++ r) = (readFrom m .field r).map (consText t) := by
  unfold writeField
  by_cases ht : t.any (· ∈ m.all) = true
  · rw [if_pos ht, List.cons_append, List.cons_append, List.append_assoc, List.singleton_append,
      readFrom, if_pos rfl, readFrom_quoted, (readFrom_ends m hr).1]
  · rw [if_neg ht]
    cases t with
    | nil => simp
    | cons c t =>
      have hplain := readFrom_plain m (Bool.eq_false_iff.mpr ht) r
      rw [(readFrom_ends m hr).2] at hplain
      rw [← hplain]
      have hc : c ∉ m.all := by
        intro hc
        simp [hc] at ht
      simp only [Marks.all, List.mem_cons, List.not_mem_nil, or_false, not_or] at hc
      simp [readFrom, hc]

theorem readFrom_record (f : List α) (fs : List (List α)) (r : List α) :
    readFrom m .field (writeRecord m (f :: fs) ++ m.cr :: m.lf :: r)
      = (readFrom m .record r).map ((f :: fs) :: ·) := by
  induction fs generalizing f with
  | nil =>
    have h : Ends m (m.cr :: m.lf :: r) := ⟨_, _, rfl, .inr rfl⟩
    rw [writeRecord, List.map_singleton, List.intercalate_singleton, readFrom_writeField m f h,
      readFrom, if_neg m.ne.2.1.symm, if_neg m.ne.2.2.2.1.symm, if_pos rfl, readFrom, if_pos rfl,
      Option.map_map]
    congr 1
    funext rs
    simp
  | cons g gs ih =>
    have h : Ends m (m.comma :: (writeRecord m (g :: gs) ++ m.cr :: m.lf :: r)) :=
      ⟨_, _, rfl, .inl rfl⟩
    have hw : writeRecord m (f :: g :: gs) ++ m.cr :: m.lf :: r
        = writeField m f ++ m.comma :: (writeRecord m (g :: gs) ++ m.cr :: m.lf :: r) := by
      simp [writeRecord, List.intercalate_cons_cons]
    rw [hw, readFrom_writeField m f h, readFrom, if_neg m.ne.1.symm, if_pos rfl, ih,
      Option.map_map, Option.map_map]
    congr 1
    funext rs
    simp [consField]

/-- What a record is read as: one without a field has an empty one. -/
def asRead (r : List (List α)) : List (List α) := if r = [] then [[]] else r

theorem readFrom_field_cons (c : α) (t : List α) :
    readFrom m .record (c :: t) = readFrom m .field (c :: t) := by
  rw [readFrom, readFrom]

theorem readFrom_line (r : List (List α)) (t : List α) :
    readFrom m .record (writeRecord m r ++ m.cr :: m.lf :: t)
      = (readFrom m .record t).map (asRead r :: ·) := by
  obtain ⟨c, u, hu⟩ : ∃ c u, writeRecord m r ++ m.cr :: m.lf :: t = c :: u :=
    List.exists_cons_of_ne_nil (by simp)
  rw [hu, readFrom_field_cons, ← hu]
  cases r with
  | nil =>
    rw [show writeRecord m [] = writeRecord m [[]] by simp [writeRecord, writeField],
      readFrom_record]
    rfl
  | cons f fs => rw [readFrom_record, asRead, if_neg (List.cons_ne_nil f fs)]

theorem read_writeTable (records : List (List (List α))) :
    read m (writeTable m records) = some (records.map asRead) := by
  unfold read
  induction records with
  | nil => rfl
  | cons r rs ih =>
    rw [writeTable, List.flatMap_cons, ← writeTable, List.append_assoc]
    show readFrom m .record (writeRecord m r ++ m.cr :: m.lf :: writeTable m rs) = _
    rw [readFrom_line, ih]
    rfl

end Cadena.Base.SeparatedValues
