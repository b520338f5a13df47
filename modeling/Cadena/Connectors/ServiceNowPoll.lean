import Cadena.Base.Page
import Cadena.Base.Table
import Cadena.Connectors.Types
import Mathlib.Data.Prod.Lex
import Mathlib.Order.Lattice

/-!
# Incremental polling of a ServiceNow table

`queryPages` of `servicenow-connector.adapter.ts`: one poll is a sequence of
page requests at growing offsets, between which rows are updated. The
records of a row are the rows themselves: `toRecord` reads one row at a time.
-/

namespace Cadena.Connectors.ServiceNow

open Cadena.Base

def PAGE_SIZE : Nat := 100

structure SourceRow (ι : Type) where
  sysId : ι
  updatedOn : Millis
  values : Fields

/-- A table at one moment; `sys_id` is its key. -/
structure SourceTable (ι : Type) where
  rows : List (SourceRow ι)
  unique : (rows.map (·.sysId)).Nodup

section Source

variable {ι : Type} [LinearOrder ι]

theorem update_ids (rows : List (SourceRow ι)) (id : ι) (stamp : Millis) (values : Fields) :
    (Table.update (fun r => r.sysId = id)
      (fun r => { r with updatedOn := stamp, values := values }) rows).map (·.sysId)
      = rows.map (·.sysId) :=
  Table.update_column (f := fun r : SourceRow ι => { r with updatedOn := stamp, values := values })
    _ (fun _ => rfl) rows

def SourceTable.updateRow (t : SourceTable ι) (id : ι) (stamp : Millis) (values : Fields) :
    SourceTable ι where
  rows := Table.update (fun r => r.sysId = id)
    (fun r => { r with updatedOn := stamp, values := values }) t.rows
  unique := by
    rw [update_ids]
    exact t.unique

inductive Evolves : SourceTable ι → SourceTable ι → Prop where
  | refl (t) : Evolves t t
  | update {t u} (before : Evolves t u) (id : ι) (stamp : Millis) (values : Fields)
      (later : ∀ r ∈ u.rows, r.updatedOn < stamp) : Evolves t (u.updateRow id stamp values)

/-- `ORDERBYsys_updated_on^ORDERBYsys_id`. -/
def orderKey (r : SourceRow ι) : Lex (Millis × ι) := toLex (r.updatedOn, r.sysId)

/-! ## The poll -/

/-- `sys_updated_on>=` the cursor, which the query names in whole seconds. -/
def sinceSecond (cursor : Option Millis) : Option Millis := cursor.map fun w => w / 1000 * 1000

def satisfiesQuery (since : Option Millis) (r : SourceRow ι) : Bool :=
  match since with
  | some w => w ≤ r.updatedOn
  | none => true

/-- What the provider answers to one request. -/
def requestPage (since : Option Millis) (offset : Nat) (t : SourceTable ι) :
    List (SourceRow ι) :=
  Page.page orderKey offset PAGE_SIZE (t.rows.filter (satisfiesQuery since))

/-- The variables of the loop. -/
structure Poll (ι : Type) where
  records : List (SourceRow ι)
  offset : Nat
  pages : Nat
  exhausted : Bool
  advanced : Bool

def Poll.start : Poll ι := ⟨[], 0, 0, false, false⟩

/-- Later than the prior watermark, which is `-Infinity` without a cursor. -/
def advances (cursor : Option Millis) (r : SourceRow ι) : Bool :=
  match cursor with
  | some w => w < r.updatedOn
  | none => true

def Poll.read (cursor : Option Millis) (p : Poll ι) (rows : List (SourceRow ι)) : Poll ι where
  records := p.records ++ rows
  offset := p.offset + rows.length
  pages := p.pages + 1
  exhausted := rows.length < PAGE_SIZE
  advanced := p.advanced || rows.any (advances cursor)

/-- The condition of the loop. -/
def Poll.goesOn (maxPages : Nat) (p : Poll ι) : Bool :=
  !p.exhausted && (p.pages < maxPages || !p.advanced)

/-- The loop; `source k` is the table at the request that follows `k`
others. -/
def pollFrom (maxPages : Nat) (cursor : Option Millis) (source : Nat → SourceTable ι) :
    Nat → Poll ι → Option (Poll ι)
  | 0, _ => none
  | fuel + 1, p =>
    let p := p.read cursor (requestPage (sinceSecond cursor) p.offset (source p.pages))
    if p.goesOn maxPages then pollFrom maxPages cursor source fuel p else some p

structure FetchPage (ι : Type) where
  records : List (SourceRow ι)
  hasMore : Bool
  nextCursor : Millis

/-- The cursor's value, or the epoch. -/
def watermarkOf (cursor : Option Millis) : Millis := cursor.getD 0

def Poll.result (cursor : Option Millis) (p : Poll ι) : FetchPage ι where
  records := p.records
  hasMore := !p.exhausted
  nextCursor := p.records.foldl (fun w r => max w r.updatedOn) (watermarkOf cursor)

/-- The end of the loop. Each full page is a hundred rows of the table, so
the loop needs no more turns than the table has rows. -/
def queryPages (maxPages : Nat) (cursor : Option Millis) (source : Nat → SourceTable ι) :
    Option (Poll ι) :=
  pollFrom maxPages cursor source ((source 0).rows.length + 1) .start

/-- A row that is due is returned in a version it had at some request, or
is not older than the next cursor when the poll ends. -/
def LosesNothing (cursor : Option Millis) (source : Nat → SourceTable ι) (p : Poll ι) : Prop :=
  ∀ r ∈ (source p.pages).rows, watermarkOf cursor ≤ r.updatedOn →
    (∃ record ∈ (p.result cursor).records, record.sysId = r.sysId ∧
      ∃ k < p.pages, record ∈ (source k).rows) ∨
    (p.result cursor).nextCursor ≤ r.updatedOn

/-- The row's place in the answer at the request that follows `k` others. -/
def placeAt (cursor : Option Millis) (source : Nat → SourceTable ι) (k : Nat)
    (r : SourceRow ι) : Nat :=
  Page.position orderKey ((source k).rows.filter (satisfiesQuery (sinceSecond cursor))) r

/-- Request `k` passes over a due row: no page before had it, it lies before
the offset all the same, and behind the offset is a later one; and it is not
updated any more while the poll goes on. -/
structure PassesOver (cursor : Option Millis) (source : Nat → SourceTable ι) (pages k : Nat)
    (r : SourceRow ι) : Prop where
  due : watermarkOf cursor ≤ r.updatedOn
  here : r ∈ (source k).rows
  kept : r ∈ (source pages).rows
  behind : placeAt cursor source k r < PAGE_SIZE * k
  unread : ∀ i < k, ∀ q ∈ (source i).rows, q.sysId = r.sysId →
    satisfiesQuery (sinceSecond cursor) q = true →
    ¬ (PAGE_SIZE * i ≤ placeAt cursor source i q ∧
      placeAt cursor source i q < PAGE_SIZE * i + PAGE_SIZE)
  overtaken : ∃ q ∈ (source k).rows, PAGE_SIZE * k ≤ placeAt cursor source k q ∧
    placeAt cursor source k q < PAGE_SIZE * k + PAGE_SIZE ∧ r.updatedOn < q.updatedOn

/-! ## The table between two requests -/

variable {t u : SourceTable ι}

theorem Evolves.ids (h : Evolves t u) : u.rows.map (·.sysId) = t.rows.map (·.sysId) := by
  induction h with
  | refl => rfl
  | update before id stamp values later ih =>
    rw [← ih]
    exact update_ids _ id stamp values

theorem Evolves.length (h : Evolves t u) : u.rows.length = t.rows.length := by
  have hlength := congrArg List.length h.ids
  simpa using hlength

theorem Evolves.kept_or_later (h : Evolves t u) :
    ∀ r ∈ u.rows, r ∈ t.rows ∨ ∀ q ∈ t.rows, q.updatedOn < r.updatedOn := by
  induction h with
  | refl => exact fun r hr => .inl hr
  | update before id stamp values later ih =>
    rename_i u
    intro r hr
    rcases Table.mem_update.mp hr with ⟨q, hq, -, rfl⟩ | ⟨hr, -⟩
    · -- the stamp is later than the rows of `u`, and those than the rows of `t`
      right
      intro q' hq'
      obtain ⟨v, hv, hid⟩ : ∃ v ∈ u.rows, v.sysId = q'.sysId := by
        have hmem := List.mem_map_of_mem (f := (·.sysId)) hq'
        rw [← before.ids] at hmem
        exact List.mem_map.mp hmem
      have hlater := later v hv
      rcases ih v hv with hold | hnew
      · have heq : v = q' := Table.eq_of_key (SourceTable.unique _) hold hq' hid
        exact heq ▸ hlater
      · exact (hnew q' hq').trans hlater
    · exact ih r hr

theorem Evolves.trans {v : SourceTable ι} (htu : Evolves t u) (huv : Evolves u v) : Evolves t v := by
  induction huv with
  | refl => exact htu
  | update before id stamp values later ih => exact .update ih id stamp values later

theorem evolves_of_le {source : Nat → SourceTable ι}
    (hsource : ∀ k, Evolves (source k) (source (k + 1))) {i j : Nat} (hij : i ≤ j) :
    Evolves (source i) (source j) := by
  induction hij with
  | refl => exact .refl _
  | step _ ih => exact ih.trans (hsource _)

theorem mem_between {source : Nat → SourceTable ι}
    (hsource : ∀ k, Evolves (source k) (source (k + 1))) {i j k : Nat} (hij : i ≤ j)
    (hjk : j ≤ k) {r : SourceRow ι} (hi : r ∈ (source i).rows) (hk : r ∈ (source k).rows) :
    r ∈ (source j).rows := by
  rcases (evolves_of_le hsource hjk).kept_or_later r hk with hj | hlater
  · exact hj
  · obtain ⟨q, hq, hid⟩ : ∃ q ∈ (source j).rows, q.sysId = r.sysId := by
      have hmem := List.mem_map_of_mem (f := (·.sysId)) hi
      rw [← (evolves_of_le hsource hij).ids] at hmem
      exact List.mem_map.mp hmem
    rcases (evolves_of_le hsource hij).kept_or_later q hq with hold | hnew
    · have heq : q = r := Table.eq_of_key (source i).unique hold hi hid
      exact heq ▸ hq
    · exact absurd ((hnew r hi).trans (hlater q hq)) (lt_irrefl _)

/-! ## Places -/

section Places

variable {cursor : Option Millis} {source : Nat → SourceTable ι}

variable {q r : SourceRow ι}

omit [LinearOrder ι] in
theorem satisfiesQuery_of_due (h : watermarkOf cursor ≤ r.updatedOn) :
    satisfiesQuery (sinceSecond cursor) r = true := by
  cases cursor with
  | none => rfl
  | some w =>
    have hw : w ≤ r.updatedOn := h
    exact decide_eq_true ((Int.ediv_mul_le w (by decide)).trans hw)

omit [LinearOrder ι] in
theorem orderKey_inj (h : orderKey q = orderKey r) : q.sysId = r.sysId :=
  congrArg Prod.snd (toLex_inj.mp h)

theorem orderKey_lt (h : q.updatedOn < r.updatedOn) : orderKey q < orderKey r :=
  Prod.Lex.toLex_lt_toLex.mpr (.inl h)

theorem updatedOn_le (h : orderKey q < orderKey r) : q.updatedOn ≤ r.updatedOn := by
  rcases Prod.Lex.toLex_lt_toLex.mp h with hlt | ⟨heq, -⟩
  · exact hlt.le
  · exact heq.le

omit [LinearOrder ι] in
theorem answer_unique (t : SourceTable ι) (since : Option Millis) :
    ((t.rows.filter (satisfiesQuery since)).map orderKey).Nodup := by
  have hids : ((t.rows.filter (satisfiesQuery since)).map (·.sysId)).Nodup :=
    t.unique.sublist (List.filter_sublist.map _)
  rw [List.Nodup, List.pairwise_map] at hids ⊢
  exact hids.imp fun hne heq => hne (orderKey_inj heq)

theorem mem_requestPage {k : Nat} : r ∈ requestPage (sinceSecond cursor) (PAGE_SIZE * k) (source k) ↔
      r ∈ (source k).rows ∧ satisfiesQuery (sinceSecond cursor) r = true ∧
        PAGE_SIZE * k ≤ placeAt cursor source k r ∧
        placeAt cursor source k r < PAGE_SIZE * k + PAGE_SIZE := by
  rw [requestPage, Page.mem_page_iff (answer_unique _ _), List.mem_filter, and_assoc]
  rfl

theorem placeAt_lt {k : Nat} (hq : q ∈ (source k).rows)
    (hsat : satisfiesQuery (sinceSecond cursor) q = true) (h : q.updatedOn < r.updatedOn) :
    placeAt cursor source k q < placeAt cursor source k r :=
  Page.position_lt (List.mem_filter.mpr ⟨hq, hsat⟩) (orderKey_lt h)

theorem placeAt_mono (hsource : ∀ k, Evolves (source k) (source (k + 1))) {i j : Nat}
    (hij : i ≤ j) (hr : r ∈ (source i).rows) :
    placeAt cursor source j r ≤ placeAt cursor source i r := by
  unfold placeAt Page.position
  rw [List.countP_filter, List.countP_filter, List.countP_eq_length_filter,
    List.countP_eq_length_filter]
  refine (List.subperm_of_subset ?_ ?_).length_le
  · exact (List.Nodup.of_map _ (source j).unique).filter _
  · intro q hq
    obtain ⟨hmem, hbefore⟩ := List.mem_filter.mp hq
    refine List.mem_filter.mpr ⟨?_, hbefore⟩
    rcases (evolves_of_le hsource hij).kept_or_later q hmem with hold | hnew
    · exact hold
    · have hlt := hnew r hr
      simp only [Bool.and_eq_true, decide_eq_true_eq] at hbefore
      exact absurd (updatedOn_le hbefore.1) (not_le.mpr hlt)

end Places

/-! ## The loop -/

section Loop

variable {maxPages : Nat} {cursor : Option Millis} {source : Nat → SourceTable ι}

/-- The page of the request that follows `k` full ones. -/
def pageAt (cursor : Option Millis) (source : Nat → SourceTable ι) (k : Nat) :
    List (SourceRow ι) :=
  requestPage (sinceSecond cursor) (PAGE_SIZE * k) (source k)

def Poll.Read (cursor : Option Millis) (source : Nat → SourceTable ι) (p : Poll ι) : Prop :=
  p.records = (List.range p.pages).flatMap (pageAt cursor source)

/-- Between two turns: every page so far was full. -/
structure Poll.Full (cursor : Option Millis) (source : Nat → SourceTable ι) (p : Poll ι) :
    Prop where
  read : p.Read cursor source
  offset : p.offset = PAGE_SIZE * p.pages
  full : ∀ k < p.pages, (pageAt cursor source k).length = PAGE_SIZE

theorem Poll.full_start : (Poll.start : Poll ι).Full cursor source where
  read := rfl
  offset := rfl
  full k hk := absurd hk (Nat.not_lt_zero k)

theorem length_pageAt (k : Nat) :
    (pageAt cursor source k).length ≤ PAGE_SIZE := by
  rw [pageAt, requestPage, Page.length_page]
  exact Nat.min_le_left _ _

variable {p : Poll ι}

theorem Poll.Full.read_next (h : p.Full cursor source) :
    (p.read cursor (requestPage (sinceSecond cursor) p.offset (source p.pages))).Read
      cursor source := by
  show p.records ++ requestPage (sinceSecond cursor) p.offset (source p.pages)
    = (List.range (p.pages + 1)).flatMap (pageAt cursor source)
  rw [List.range_succ, List.flatMap_append, ← h.read, h.offset]
  simp [pageAt]

theorem Poll.Full.next (h : p.Full cursor source) (hgoes : (p.read cursor
      (requestPage (sinceSecond cursor) p.offset (source p.pages))).goesOn maxPages = true) :
    (p.read cursor (requestPage (sinceSecond cursor) p.offset (source p.pages))).Full
      cursor source := by
  have hlast : (pageAt cursor source p.pages).length = PAGE_SIZE := by
    have hle : (pageAt cursor source p.pages).length ≤ PAGE_SIZE := length_pageAt p.pages
    simp only [Poll.goesOn, Poll.read, Bool.and_eq_true, Bool.not_eq_true',
      decide_eq_false_iff_not, h.offset] at hgoes
    have hge := hgoes.1
    unfold pageAt at hle ⊢
    omega
  refine ⟨h.read_next, ?_, ?_⟩
  · show p.offset + (requestPage (sinceSecond cursor) p.offset (source p.pages)).length
      = PAGE_SIZE * (p.pages + 1)
    rw [h.offset]
    unfold pageAt at hlast
    rw [hlast, Nat.mul_succ]
  · intro k hk
    rcases Nat.lt_succ_iff_lt_or_eq.mp hk with hk | rfl
    · exact h.full k hk
    · exact hlast

theorem Poll.Full.pages_le (hsource : ∀ k, Evolves (source k) (source (k + 1)))
    (h : p.Full cursor source) : p.pages ≤ (source 0).rows.length := by
  cases hp : p.pages with
  | zero => exact Nat.zero_le _
  | succ k =>
    have hfull := h.full k (by omega)
    rw [pageAt, requestPage, Page.length_page] at hfull
    have hfilter := List.length_filter_le (satisfiesQuery (sinceSecond cursor)) (source k).rows
    have hlength := (evolves_of_le hsource (Nat.zero_le k)).length
    unfold PAGE_SIZE at hfull
    omega

theorem pollFrom_ends (hsource : ∀ k, Evolves (source k) (source (k + 1))) (fuel : Nat)
    (h : p.Full cursor source) (hfuel : (source 0).rows.length < fuel + p.pages) :
    ∃ q, pollFrom maxPages cursor source fuel p = some q ∧ q.Read cursor source ∧
      ∀ k, k + 1 < q.pages → (pageAt cursor source k).length = PAGE_SIZE := by
  induction fuel generalizing p with
  | zero =>
    have hle := h.pages_le hsource
    omega
  | succ fuel ih =>
    rw [pollFrom]
    split
    · rename_i hgoes
      refine ih (h.next hgoes) ?_
      show _ < fuel + (p.pages + 1)
      omega
    · exact ⟨_, rfl, h.read_next, fun k hk => h.full k (Nat.lt_of_succ_lt_succ hk)⟩

theorem queryPages_ends (maxPages : Nat) (cursor : Option Millis)
    (hsource : ∀ k, Evolves (source k) (source (k + 1))) :
    ∃ p, queryPages maxPages cursor source = some p ∧ p.Read cursor source ∧
      ∀ k, k + 1 < p.pages → (pageAt cursor source k).length = PAGE_SIZE :=
  pollFrom_ends hsource _ Poll.full_start (by simp [Poll.start])

theorem Poll.Read.mem_records (h : p.Read cursor source) {r : SourceRow ι} :
    r ∈ p.records ↔ ∃ k < p.pages, r ∈ pageAt cursor source k := by
  rw [h, List.mem_flatMap]
  simp only [List.mem_range]

end Loop

/-! ## What a poll loses -/

section Lost

variable {maxPages : Nat} {cursor : Option Millis} {source : Nat → SourceTable ι}

omit [LinearOrder ι] in
theorem nextCursor_le_iff {p : Poll ι} {stamp : Millis} :
    (p.result cursor).nextCursor ≤ stamp ↔
      watermarkOf cursor ≤ stamp ∧ ∀ r ∈ p.records, r.updatedOn ≤ stamp := by
  show p.records.foldl (fun w r => max w r.updatedOn) (watermarkOf cursor) ≤ stamp ↔ _
  generalize watermarkOf cursor = w
  induction p.records generalizing w with
  | nil => simp
  | cons r rs ih =>
    rw [List.foldl_cons, ih, max_le_iff, List.forall_mem_cons, and_assoc]

theorem PassesOver.unread_by_all (hsource : ∀ k, Evolves (source k) (source (k + 1)))
    {pages k : Nat} {r : SourceRow ι} (h : PassesOver cursor source pages k r) {i : Nat}
    (hi : i < pages) {record : SourceRow ι} (hrecord : record ∈ pageAt cursor source i) :
    record.sysId ≠ r.sysId := by
  intro hid
  obtain ⟨hmem, hsat, hlo, hhi⟩ := mem_requestPage.mp hrecord
  by_cases hik : i < k
  · exact h.unread i hik record hmem hid hsat ⟨hlo, hhi⟩
  · have hki : k ≤ i := Nat.le_of_not_lt hik
    have hthere := mem_between hsource hki hi.le h.here h.kept
    have heq : record = r := Table.eq_of_key (source i).unique hmem hthere hid
    subst heq
    have hplace : placeAt cursor source i record ≤ placeAt cursor source k record :=
      placeAt_mono hsource hki h.here
    have hbehind := h.behind
    have hgrow : PAGE_SIZE * k ≤ PAGE_SIZE * i := Nat.mul_le_mul_left _ hki
    omega

/-- A due row on none of the pages, older than a row on one of them, was
before the offset of that page's request. -/
theorem passesOver_of_unread (hsource : ∀ k, Evolves (source k) (source (k + 1)))
    {pages i : Nat} (hi : i < pages) {r q : SourceRow ι} (hr : r ∈ (source pages).rows)
    (hdue : watermarkOf cursor ≤ r.updatedOn)
    (hunread : ∀ k < pages, ∀ record ∈ pageAt cursor source k, record.sysId ≠ r.sysId)
    (hq : q ∈ pageAt cursor source i) (hlater : r.updatedOn < q.updatedOn) :
    PassesOver cursor source pages i r := by
  obtain ⟨hqmem, -, hlo, hhi⟩ := mem_requestPage.mp hq
  have hhere : r ∈ (source i).rows := by
    rcases (evolves_of_le hsource hi.le).kept_or_later r hr with hold | hnew
    · exact hold
    · exact absurd (hnew q hqmem) (not_lt.mpr hlater.le)
  have hsat := satisfiesQuery_of_due hdue
  have hplace : placeAt cursor source i r < placeAt cursor source i q :=
    placeAt_lt hhere hsat hlater
  refine ⟨hdue, hhere, hr, ?_, ?_, q, hqmem, hlo, hhi, hlater⟩
  · by_contra hnot
    refine hunread i hi r (mem_requestPage.mpr ⟨hhere, hsat, ?_, ?_⟩) rfl
    · omega
    · omega
  · intro k hk record hmem hid hsat' hplace'
    exact hunread k (hk.trans hi) record (mem_requestPage.mpr ⟨hmem, hsat', hplace'⟩) hid

/-- Between two requests no row before the next offset is updated. -/
def Undisturbed (cursor : Option Millis) (source : Nat → SourceTable ι) (pages : Nat) : Prop :=
  ∀ k, k + 1 < pages → ∀ r ∈ (source k).rows, satisfiesQuery (sinceSecond cursor) r = true →
    placeAt cursor source k r < PAGE_SIZE * (k + 1) → r ∈ (source (k + 1)).rows

/-- Without a disturbance, what lies before an offset lay before it at the
request before: those rows are as many as the offset says, and they are
still there. -/
theorem Undisturbed.before {pages k : Nat} (h : Undisturbed cursor source pages)
    (hsource : ∀ k, Evolves (source k) (source (k + 1))) (hk : k + 1 < pages)
    (hfull : (pageAt cursor source k).length = PAGE_SIZE) {r : SourceRow ι}
    (hr : r ∈ (source (k + 1)).rows) (hsat : satisfiesQuery (sinceSecond cursor) r = true)
    (hplace : placeAt cursor source (k + 1) r < PAGE_SIZE * (k + 1)) :
    r ∈ (source k).rows ∧ placeAt cursor source k r < PAGE_SIZE * (k + 1) := by
  have hcount : PAGE_SIZE * (k + 1) ≤
      ((source k).rows.filter (satisfiesQuery (sinceSecond cursor))).length := by
    rw [pageAt, requestPage, Page.length_page] at hfull
    unfold PAGE_SIZE at hfull ⊢
    omega
  have hnodup : (((source k).rows.filter (satisfiesQuery (sinceSecond cursor))).filter
      fun q => placeAt cursor source k q < PAGE_SIZE * (k + 1)).Nodup :=
    ((List.Nodup.of_map _ (source k).unique).filter _).filter _
  have hstays : ∀ q ∈ ((source k).rows.filter (satisfiesQuery (sinceSecond cursor))).filter
      (fun q => placeAt cursor source k q < PAGE_SIZE * (k + 1)),
      q ∈ (source (k + 1)).rows.filter (satisfiesQuery (sinceSecond cursor)) ∧
        placeAt cursor source (k + 1) q < PAGE_SIZE * (k + 1) := by
    intro q hq
    obtain ⟨hmem, hlt⟩ := List.mem_filter.mp hq
    obtain ⟨hmem, hsat⟩ := List.mem_filter.mp hmem
    have hlt : placeAt cursor source k q < PAGE_SIZE * (k + 1) := by simpa using hlt
    refine ⟨List.mem_filter.mpr ⟨h k hk q hmem hsat hlt, hsat⟩, ?_⟩
    exact (placeAt_mono hsource (Nat.le_succ k) hmem).trans_lt hlt
  have hlength := Page.length_before (answer_unique (source k) (sinceSecond cursor)) hcount
  have hcount' : PAGE_SIZE * (k + 1) ≤
      ((source (k + 1)).rows.filter (satisfiesQuery (sinceSecond cursor))).length := by
    rw [← hlength]
    exact (List.subperm_of_subset hnodup fun q hq => (hstays q hq).1).length_le
  have hlength' :=
    Page.length_before (answer_unique (source (k + 1)) (sinceSecond cursor)) hcount'
  have hsub : ((source k).rows.filter (satisfiesQuery (sinceSecond cursor))).filter
      (fun q => placeAt cursor source k q < PAGE_SIZE * (k + 1)) ⊆
      ((source (k + 1)).rows.filter (satisfiesQuery (sinceSecond cursor))).filter
        (fun q => placeAt cursor source (k + 1) q < PAGE_SIZE * (k + 1)) := by
    intro q hq
    obtain ⟨hmem, hlt⟩ := hstays q hq
    exact List.mem_filter.mpr ⟨hmem, by simpa using hlt⟩
  have hperm := (List.subperm_of_subset hnodup hsub).perm_of_length_le
    (le_of_eq (hlength'.trans hlength.symm))
  have hmem := hperm.mem_iff.mpr
    (List.mem_filter.mpr ⟨List.mem_filter.mpr ⟨hr, hsat⟩, by simpa using hplace⟩)
  obtain ⟨hmem, hlt⟩ := List.mem_filter.mp hmem
  exact ⟨(List.mem_filter.mp hmem).1, by simpa using hlt⟩

theorem Undisturbed.not_passesOver {pages : Nat} (h : Undisturbed cursor source pages)
    (hsource : ∀ k, Evolves (source k) (source (k + 1)))
    (hfull : ∀ k, k + 1 < pages → (pageAt cursor source k).length = PAGE_SIZE) :
    ∀ k < pages, ∀ r, ¬ PassesOver cursor source pages k r := by
  have hread : ∀ k < pages, ∀ r ∈ (source k).rows,
      satisfiesQuery (sinceSecond cursor) r = true →
      placeAt cursor source k r < PAGE_SIZE * k → ∃ i < k, r ∈ pageAt cursor source i := by
    intro k
    induction k with
    | zero =>
      intro _ r _ _ hplace
      rw [Nat.mul_zero] at hplace
      exact absurd hplace (Nat.not_lt_zero _)
    | succ k ih =>
      intro hk r hr hsat hplace
      obtain ⟨hmem, hlt⟩ := h.before hsource hk (hfull k hk) hr hsat hplace
      by_cases hlo : PAGE_SIZE * k ≤ placeAt cursor source k r
      · refine ⟨k, Nat.lt_succ_self k, mem_requestPage.mpr ⟨hmem, hsat, hlo, ?_⟩⟩
        rwa [Nat.mul_succ] at hlt
      · obtain ⟨i, hi, hpage⟩ := ih (by omega) r hmem hsat (by omega)
        exact ⟨i, by omega, hpage⟩
  intro k hk r hpass
  obtain ⟨i, hi, hpage⟩ :=
    hread k hk r hpass.here (satisfiesQuery_of_due hpass.due) hpass.behind
  exact hpass.unread_by_all hsource (hi.trans hk) hpage rfl

end Lost

end Source

/-! ## A row that slips -/

/-- A hundred and one incidents, each stamped with its number. -/
def incidentTable : SourceTable Nat where
  rows := (List.range 101).map fun n => ⟨n, n, []⟩
  unique := by
    rw [List.map_map]
    exact List.nodup_range.map fun _ _ h => h

/-- The first incident is updated behind the first page. -/
def busyTable : Nat → SourceTable Nat
  | 0 => incidentTable
  | _ + 1 => incidentTable.updateRow 0 200 []

theorem busyTable_evolves : ∀ k, Evolves (busyTable k) (busyTable (k + 1))
  | 0 => by
    refine .update (.refl _) 0 200 [] ?_
    intro r hr
    obtain ⟨n, hn, rfl⟩ := List.mem_map.mp hr
    have hlt := List.mem_range.mp hn
    show (n : Int) < 200
    omega
  | _ + 1 => .refl _

end Cadena.Connectors.ServiceNow
