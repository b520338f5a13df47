import Cadena.Base.Keyset
import Cadena.Connectors.BackfillPlanner
import Cadena.Connectors.QueryWindows
import Cadena.Connectors.ServiceNowPoll

/-!
# Reading a window of a ServiceNow table

`fetchBackfillPage` of `servicenow-connector.adapter.ts`, with the zone in
UTC. A token is the position of a reader of the window's sorted rows
(`Cadena.Base.Keyset`), so that feeding every token back reads the window once
from one end to the other (`window_read_once`).
-/

namespace Cadena.Connectors.ServiceNow

open Cadena.Base

/-! ## One page -/

/-- Windows are of whole minutes, so the text of their bounds is exact. -/
structure BackfillWindow where
  windowFrom : Millis
  windowTo : Millis
  wholeFrom : windowFrom % MINUTE_MS = 0
  wholeTo : windowTo % MINUTE_MS = 0

/-- `stamp|consumed` after `split`; `none` stands for what is not a date, or
not a number. -/
structure PageToken where
  stamp : Option Millis
  consumed : Option Nat
  deriving DecidableEq

structure BackfillPage (ι : Type) where
  records : List (SourceRow ι)
  nextPageToken : Option PageToken

section Page

variable {ι : Type} [LinearOrder ι]

/-- Where the page starts, and how many rows it skips. -/
def resumeFrom (window : BackfillWindow) : Option PageToken → Except String (Millis × Nat)
  | none => .ok (window.windowFrom, 0)
  | some ⟨some stamp, some consumed⟩ => .ok (stamp, consumed)
  | some _ => .error "The backfill page token is malformed"

/-- `sys_updated_on>=start^sys_updated_on<to`, with the operator's query. -/
def isBound (query : SourceRow ι → Bool) (start stop : Millis) (r : SourceRow ι) : Bool :=
  query r && decide (formatInTimeZone start utc ≤ r.updatedOn ∧
    r.updatedOn < formatInTimeZone stop utc)

def nextPageToken (pageToken : Option PageToken) (skip : Nat) (records : List (SourceRow ι)) :
    Option PageToken :=
  if records.length < PAGE_SIZE then none
  else records.getLast?.map fun last =>
    let lastStamp := last.updatedOn
    let atLast := records.countP fun record => record.updatedOn = lastStamp
    let carried :=
      match pageToken with
      | some token => if atLast = records.length ∧ token.stamp = some lastStamp then skip else 0
      | none => 0
    ⟨some lastStamp, some (atLast + carried)⟩

/-- `entityTypes` are the tables of the connector's configuration, and
`query` holds of the rows that an operator's query selects. -/
def fetchBackfillPage (entityTypes : List String) (source : SourceTable ι) (entityType : String)
    (window : BackfillWindow) (query : SourceRow ι → Bool) (pageToken : Option PageToken) :
    Except String (BackfillPage ι) :=
  if !entityTypes.contains entityType then
    .error s!"Table '{entityType}' is not configured on this connector"
  else do
    let (start, skip) ← resumeFrom window pageToken
    let records := Page.page orderKey skip PAGE_SIZE
      (source.rows.filter (isBound query start window.windowTo))
    return ⟨records, nextPageToken pageToken skip records⟩

/-- The pages of a window, each token fed back; `none` if `fuel` requests do
not reach the last page. -/
def readPages (fetch : Option PageToken → Except String (BackfillPage ι)) :
    Nat → Option PageToken → Except String (Option (List (SourceRow ι)))
  | 0, _ => .ok none
  | fuel + 1, pageToken => do
    let page ← fetch pageToken
    match page.nextPageToken with
    | none => return some page.records
    | some next => return (← readPages fetch fuel (some next)).map (page.records ++ ·)

def BackfillWindow.selects (window : BackfillWindow) (query : SourceRow ι → Bool)
    (r : SourceRow ι) : Bool :=
  query r && decide (window.windowFrom ≤ r.updatedOn ∧ r.updatedOn < window.windowTo)

/-- The window's rows by `sys_updated_on`, then `sys_id`. -/
def BackfillWindow.sorted (window : BackfillWindow) (query : SourceRow ι → Bool)
    (source : SourceTable ι) : List (SourceRow ι) :=
  Page.sortByKey orderKey (source.rows.filter (window.selects query))

end Page

/-! ## Tokens are positions -/

def tokenOf (p : Keyset.Position Millis) : PageToken := ⟨some p.stamp, some p.consumed⟩

def skipOf : Option (Keyset.Position Millis) → Nat
  | none => 0
  | some p => p.consumed

/-- Where a reader of these rows stands. -/
def tokenAfter {ι : Type} (read : List (SourceRow ι)) : Option PageToken :=
  (Keyset.after SourceRow.updatedOn read).map tokenOf

theorem nextPageToken_eq {ι : Type} (p : Option (Keyset.Position Millis))
    {records : List (SourceRow ι)} (hfull : PAGE_SIZE ≤ records.length) :
    nextPageToken (p.map tokenOf) (skipOf p) records =
      (Keyset.advance SourceRow.updatedOn p records).map tokenOf := by
  rw [nextPageToken, if_neg (by omega), Keyset.advance, Option.map_map]
  congr 1
  funext last
  cases p with
  | none => rfl
  | some p => simp [tokenOf, skipOf, Keyset.carried, Keyset.countAt]

theorem utc_exact {t : Millis} (h : t % 1000 = 0) : formatInTimeZone t utc = t := by
  have hdiv := Int.ediv_mul_cancel (Int.dvd_of_emod_eq_zero h)
  show (t + 0) / 1000 * 1000 = t
  rw [Int.add_zero, hdiv]

theorem whole_second {t : Millis} (h : t % MINUTE_MS = 0) : t % 1000 = 0 :=
  Int.emod_eq_zero_of_dvd
    ((show (1000 : Int) ∣ MINUTE_MS by decide).trans (Int.dvd_of_emod_eq_zero h))

section Window

variable {ι : Type} [LinearOrder ι] {source : SourceTable ι} {window : BackfillWindow}
  {query : SourceRow ι → Bool}

omit [LinearOrder ι] in
theorem rows_unique (source : SourceTable ι) (p : SourceRow ι → Bool) :
    ((source.rows.filter p).map orderKey).Nodup := by
  have hids : ((source.rows.filter p).map (·.sysId)).Nodup :=
    source.unique.sublist (List.filter_sublist.map _)
  rw [List.Nodup, List.pairwise_map] at hids ⊢
  exact hids.imp fun hne heq => hne (orderKey_inj heq)

theorem sorted_pairwise :
    (window.sorted query source).Pairwise fun a b => orderKey a < orderKey b :=
  Page.sortByKey_sorted (rows_unique source _)

theorem sorted_stamps : Keyset.Sorted SourceRow.updatedOn (window.sorted query source) :=
  sorted_pairwise.imp fun h => updatedOn_le h

theorem mem_sorted {r : SourceRow ι} :
    r ∈ window.sorted query source ↔ r ∈ source.rows ∧ window.selects query r = true := by
  rw [BackfillWindow.sorted, (Page.sortByKey_perm orderKey _).mem_iff, List.mem_filter]

theorem page_eq {start : Millis} (hwhole : start % 1000 = 0) (hstart : window.windowFrom ≤ start)
    (skip : Nat) :
    Page.page orderKey skip PAGE_SIZE (source.rows.filter (isBound query start window.windowTo)) =
      (((window.sorted query source).filter fun r => start ≤ r.updatedOn).drop skip).take
        PAGE_SIZE := by
  have hrows : source.rows.filter (isBound query start window.windowTo) =
      (source.rows.filter (window.selects query)).filter fun r => start ≤ r.updatedOn := by
    rw [List.filter_filter]
    refine List.filter_congr fun r _ => ?_
    rw [isBound, utc_exact hwhole, utc_exact (whole_second window.wholeTo), BackfillWindow.selects,
      Bool.eq_iff_iff]
    simp only [Bool.and_eq_true, decide_eq_true_eq]
    constructor
    · rintro ⟨hquery, hfrom, hto⟩
      exact ⟨hfrom, hquery, hstart.trans hfrom, hto⟩
    · rintro ⟨hfrom, hquery, -, hto⟩
      exact ⟨hquery, hfrom, hto⟩
  rw [Page.page, hrows, Page.sortByKey_filter (rows_unique source _)]
  rfl

variable {entityTypes : List String} {entityType : String}
  (hconfigured : entityTypes.contains entityType = true)
  (hseconds : ∀ r ∈ source.rows, r.updatedOn % 1000 = 0)
include hconfigured hseconds

/-- **A page is the next rows that were not read, and its token stands behind
them.** -/
theorem fetchBackfillPage_after {read rest : List (SourceRow ι)}
    (hsplit : window.sorted query source = read ++ rest) :
    fetchBackfillPage entityTypes source entityType window query (tokenAfter read) =
      .ok ⟨rest.take PAGE_SIZE,
        if rest.length < PAGE_SIZE then none else tokenAfter (read ++ rest.take PAGE_SIZE)⟩ := by
  have hstamps : Keyset.Sorted SourceRow.updatedOn (read ++ rest) := hsplit ▸ sorted_stamps
  have hpage : ∃ start, resumeFrom window (tokenAfter read) =
        .ok (start, skipOf (Keyset.after SourceRow.updatedOn read)) ∧
      Page.page orderKey (skipOf (Keyset.after SourceRow.updatedOn read)) PAGE_SIZE
        (source.rows.filter (isBound query start window.windowTo)) = rest.take PAGE_SIZE := by
    have hrest := Keyset.restOf_after hstamps
    cases hlast : read.getLast? with
    | none =>
      rw [List.getLast?_eq_none_iff] at hlast
      subst hlast
      refine ⟨window.windowFrom, rfl, ?_⟩
      rw [page_eq (whole_second window.wholeFrom) le_rfl, hsplit]
      have hall : (rest.filter fun r => decide (window.windowFrom ≤ r.updatedOn)) = rest := by
        rw [List.filter_eq_self]
        intro r hr
        have hmem : r ∈ window.sorted query source := by rw [hsplit]; exact hr
        have hselected := (mem_sorted.mp hmem).2
        simp only [BackfillWindow.selects, Bool.and_eq_true, decide_eq_true_eq] at hselected
        exact decide_eq_true hselected.2.1
      rw [List.nil_append, hall]
      rfl
    | some last =>
      have hmem : last ∈ window.sorted query source := by
        rw [hsplit]
        exact List.mem_append_left _ (List.mem_of_getLast? hlast)
      obtain ⟨hrow, hselected⟩ := mem_sorted.mp hmem
      simp only [BackfillWindow.selects, Bool.and_eq_true, decide_eq_true_eq] at hselected
      refine ⟨last.updatedOn, ?_, ?_⟩
      · simp only [tokenAfter, Keyset.after, hlast]
        rfl
      · rw [page_eq (hseconds last hrow) hselected.2.1, hsplit]
        rw [Keyset.after, hlast] at hrest ⊢
        exact congrArg (List.take PAGE_SIZE) hrest
  obtain ⟨start, hresume, hrows⟩ := hpage
  have hnext : nextPageToken (tokenAfter read)
      (skipOf (Keyset.after SourceRow.updatedOn read)) (rest.take PAGE_SIZE) =
      if rest.length < PAGE_SIZE then none else tokenAfter (read ++ rest.take PAGE_SIZE) := by
    by_cases hshort : rest.length < PAGE_SIZE
    · rw [if_pos hshort, nextPageToken, if_pos (by rw [List.length_take]; omega)]
    · have hlength : (rest.take PAGE_SIZE).length = PAGE_SIZE := by
        rw [List.length_take]
        omega
      have hne : rest.take PAGE_SIZE ≠ [] := by
        intro hnil
        rw [hnil] at hlength
        exact absurd hlength (by simp [PAGE_SIZE])
      have hpiece : Keyset.Sorted SourceRow.updatedOn (read ++ rest.take PAGE_SIZE) :=
        hstamps.sublist ((List.take_sublist _ _).append_left _)
      rw [if_neg hshort, tokenAfter, nextPageToken_eq _ hlength.ge,
        Keyset.advance_after hpiece hne]
      rfl
  rw [fetchBackfillPage, if_neg (by simpa using hconfigured), hresume]
  show Except.ok _ = _
  rw [hrows, hnext]

theorem readPages_after (fuel : Nat) {read rest : List (SourceRow ι)}
    (hsplit : window.sorted query source = read ++ rest) (hfuel : rest.length / PAGE_SIZE < fuel) :
    readPages (fetchBackfillPage entityTypes source entityType window query) fuel
      (tokenAfter read) = .ok (some rest) := by
  induction fuel generalizing read rest with
  | zero => exact absurd hfuel (Nat.not_lt_zero _)
  | succ fuel ih =>
    rw [readPages, fetchBackfillPage_after hconfigured hseconds hsplit]
    by_cases hshort : rest.length < PAGE_SIZE
    · rw [if_pos hshort, List.take_of_length_le hshort.le]
      rfl
    · have hleft : window.sorted query source =
          (read ++ rest.take PAGE_SIZE) ++ rest.drop PAGE_SIZE := by
        rw [hsplit, List.append_assoc, List.take_append_drop]
      have hless : (rest.drop PAGE_SIZE).length / PAGE_SIZE < fuel := by
        rw [List.length_drop]
        have hpos : 0 < PAGE_SIZE := by decide
        have hsub := Nat.div_eq_sub_div hpos (Nat.not_lt.mp hshort)
        omega
      have hrun := ih hleft hless
      have hstands : ∃ next, tokenAfter (read ++ rest.take PAGE_SIZE) = some next := by
        cases htoken : tokenAfter (read ++ rest.take PAGE_SIZE) with
        | some next => exact ⟨next, rfl⟩
        | none =>
          simp only [tokenAfter, Keyset.after, Option.map_eq_none_iff,
            List.getLast?_eq_none_iff, List.append_eq_nil_iff, List.take_eq_nil_iff] at htoken
          rcases htoken.2 with hzero | hnil
          · exact absurd hzero (by decide)
          · subst hnil
            exact absurd (by simp [PAGE_SIZE]) hshort
      obtain ⟨next, hnext⟩ := hstands
      rw [hnext] at hrun
      rw [if_neg hshort, hnext]
      show (do return (← readPages _ fuel (some next)).map (rest.take PAGE_SIZE ++ ·)) = _
      rw [hrun]
      show Except.ok (some (rest.take PAGE_SIZE ++ rest.drop PAGE_SIZE)) = _
      rw [List.take_append_drop]

/-- **Feeding every token back reads the rows of the window in their order,
each of them once, whatever stamps they share.** -/
theorem window_read_once (window : BackfillWindow) (query : SourceRow ι → Bool) :
    ∃ records,
      (∀ fuel, source.rows.length / PAGE_SIZE < fuel →
        readPages (fetchBackfillPage entityTypes source entityType window query) fuel none
          = .ok (some records)) ∧
      records.Perm (source.rows.filter (window.selects query)) ∧
      records.Pairwise (fun a b => orderKey a < orderKey b) ∧
      (records.map (·.sysId)).Nodup := by
  have hperm : (window.sorted query source).Perm (source.rows.filter (window.selects query)) :=
    Page.sortByKey_perm orderKey _
  refine ⟨window.sorted query source, ?_, hperm, sorted_pairwise, ?_⟩
  · intro fuel hfuel
    have hlength : (window.sorted query source).length ≤ source.rows.length := by
      rw [hperm.length_eq]
      exact List.length_filter_le _ _
    have hpages := Nat.div_le_div_right (c := PAGE_SIZE) hlength
    have hrun : readPages (fetchBackfillPage entityTypes source entityType window query) fuel
        (tokenAfter []) = .ok (some (window.sorted query source)) :=
      readPages_after hconfigured hseconds fuel rfl (hpages.trans_lt hfuel)
    exact hrun
  · rw [(hperm.map _).nodup_iff]
    exact source.unique.sublist (List.filter_sublist.map _)

end Window

/-- A page and a half of incidents of one second, and a page of the next. -/
def tiedTable : SourceTable Nat where
  rows := (List.range 250).map fun n => ⟨n, ((n / 150 * 1000 : Nat) : Int), []⟩
  unique := by
    rw [List.map_map]
    exact List.nodup_range.map fun _ _ h => h

def firstMinute : BackfillWindow where
  windowFrom := 0
  windowTo := 60000
  wholeFrom := by decide
  wholeTo := by decide

theorem tied_rows_read_once :
    ∃ records,
      (∀ fuel, tiedTable.rows.length / PAGE_SIZE < fuel →
        readPages (fetchBackfillPage ["incident"] tiedTable "incident" firstMinute fun _ => true)
          fuel none = .ok (some records)) ∧
      records.Perm (tiedTable.rows.filter (firstMinute.selects fun _ => true)) ∧
      records.Pairwise (fun a b => orderKey a < orderKey b) ∧
      (records.map (·.sysId)).Nodup := by
  refine window_read_once (by decide) ?_ firstMinute fun _ => true
  intro r hr
  obtain ⟨n, -, rfl⟩ := List.mem_map.mp hr
  show ((n / 150 * 1000 : Nat) : Int) % 1000 = 0
  omega

end Cadena.Connectors.ServiceNow
