import Cadena.Flow.WaitScore
import Cadena.WorkItems.EditHistory

/-!
# Report windows

The waits of a tenant in a range of time. A wait keeps its reason and its
blocking item in every window, and what two windows that meet report adds up
to what the window of both reports.
-/

namespace Cadena.Flow

open Cadena.Base Cadena.Connectors Cadena.WorkItems Page Timeline

/-! ## `collectWaits` -/

structure WaitRange where
  fromText : Option String
  toText : Option String

structure WaitFilter where
  itemId : Option Uuid
  teamId : Option Uuid
  itemType : Option WorkItemType

structure InvalidFlowRange where
  message : String
  deriving DecidableEq

def maxReportItems : Nat := 10000

def defaultWindowDays : Int := 30

/-- `parseDate` is `new Date(value)` where that is a time. -/
def parseDay (parseDate : String → Option Millis) (value : Option String) (field : String) :
    Except InvalidFlowRange (Option Millis) :=
  match value.filter (· != "") with
  | none => .ok none
  | some text =>
    match parseDate text with
    | none => .error ⟨field ++ " must be an ISO 8601 date"⟩
    | some t => .ok (some t)

/-- The last thirty days are the default. -/
def parseRange (parseDate : String → Option Millis) (range : WaitRange) (now : Millis) :
    Except InvalidFlowRange (Millis × Millis) := do
  let windowFrom ← parseDay parseDate range.fromText "from"
  let windowTo ← parseDay parseDate range.toText "to"
  let stop := windowTo.getD now
  let start := windowFrom.getD (stop - defaultWindowDays * msPerDay)
  if stop ≤ start then throw ⟨"from must be earlier than to"⟩
  return (start, stop)

structure WaitRow where
  workItemId : Uuid
  itemKey : String
  itemType : WorkItemType
  priority : WorkItemPriority
  teamId : Uuid
  teamName : Option String
  state : String
  classification : FlowBucket
  startedAt : Millis
  endedAt : Millis
  isOpen : Bool
  calendar : SlaCalendar
  reason : String
  reasonSource : ReasonSource
  note : Option String
  blockingItem : Option BlockingItem
  ambiguousBlockers : Nat
  ms : Int

structure CollectedWaits where
  rows : List WaitRow
  total : Int
  unclassifiedMs : Int
  truncated : Bool
  itemsConsidered : Nat
  windowFrom : Millis
  windowTo : Millis

def isReported (orgId : Uuid) (filter : WaitFilter) (item : WorkItem) : Bool :=
  item.orgId == orgId && filter.teamId.all (item.teamId == ·) && filter.itemType.all (item.type == ·)
    && filter.itemId.all (item.id == ·)

def itemOrder (item : WorkItem) : Lex (Millis × Nat) := toLex (item.createdAt, item.id.toNat)

/-- The items created before the end, and whether there are more than the
limit. -/
def loadItems (db : FlowDb) (orgId : Uuid) (stop : Millis) (filter : WaitFilter) : List WorkItem × Bool :=
  let rows := (sortByKey itemOrder (db.items.filter fun item =>
    decide (item.createdAt < stop) && isReported orgId filter item)).take (maxReportItems + 1)
  (rows.take maxReportItems, maxReportItems < rows.length)

def rowOf (db : FlowDb) (orgId : Uuid) (item : WorkItem) (s : Scored) (wait : WaitAttribution) : WaitRow where
  workItemId := item.id
  itemKey := item.itemKey
  itemType := item.type
  priority := item.priority
  teamId := item.teamId
  teamName := teamName db orgId item.teamId
  state := s.state
  classification := s.classification
  startedAt := s.startedAt
  endedAt := s.endedAt
  isOpen := s.isOpen
  calendar := s.calendar
  reason := wait.reason
  reasonSource := wait.reasonSource
  note := wait.note
  blockingItem := wait.blockingItem
  ambiguousBlockers := wait.ambiguousBlockers
  ms := s.ms

/-- A wait that takes no business time has no row. -/
def waitRow (db : FlowDb) (orgId : Uuid) (item : WorkItem) (s : Scored) : Option WaitRow :=
  match s.wait with
  | none => none
  | some wait => if s.ms ≤ 0 then none else some (rowOf db orgId item s wait)

def collectWaits (parseDate : String → Option Millis) (db : FlowDb) (orgId : Uuid) (range : WaitRange)
    (filter : WaitFilter) (now : Millis) : Except InvalidFlowRange CollectedWaits := do
  let window ← parseRange parseDate range now
  let (items, truncated) := loadItems db orgId window.2 filter
  let ctx := flowContext db orgId items
  let scored (item : WorkItem) := (score ctx item (some window.1) (some window.2) now).1
  let rows := items.flatMap fun item => (scored item).filterMap (waitRow db orgId item)
  let unclassified := items.flatMap fun item => (scored item).filter (·.classification == .unclassified)
  return {
    rows := rows
    total := (rows.map (·.ms)).sum
    unclassifiedMs := (unclassified.map (·.ms)).sum
    truncated := truncated
    itemsConsidered := items.length
    windowFrom := window.1
    windowTo := window.2 }

/-- What the rows have that satisfy a test. -/
def CollectedWaits.msWhere (w : CollectedWaits) (p : WaitRow → Bool) : Int := ((w.rows.filter p).map (·.ms)).sum

/-- The milliseconds of the whole are those of its two parts. -/
structure AddsUp (whole left right : CollectedWaits) : Prop where
  total : whole.total = left.total + right.total
  unclassified : whole.unclassifiedMs = left.unclassifiedMs + right.unclassifiedMs
  bucket : ∀ c : FlowBucket, whole.msWhere (·.classification == c) =
    left.msWhere (·.classification == c) + right.msWhere (·.classification == c)
  reason : ∀ reason : String, whole.msWhere (·.reason == reason) =
    left.msWhere (·.reason == reason) + right.msWhere (·.reason == reason)
  blockingItem : ∀ id : Option Uuid, whole.msWhere (·.blockingItem.map (·.id) == id) =
    left.msWhere (·.blockingItem.map (·.id) == id) + right.msWhere (·.blockingItem.map (·.id) == id)

/-- Each piece lies in a visit of the unclipped history and is attributed as it
is. -/
def KeepsAttribution (whole pieces : List Scored) : Prop :=
  ∀ piece ∈ pieces, ∃ visit ∈ whole, visit.state = piece.state ∧ visit.startedAt ≤ piece.startedAt ∧
    piece.endedAt ≤ visit.endedAt ∧ visit.wait = piece.wait

theorem businessMs_add (calendar : SlaCalendar) {a b c : Millis} (hab : a ≤ b) (hbc : b ≤ c) :
    businessMs a c calendar = businessMs a b calendar + businessMs b c calendar := by
  rcases eq_or_lt_of_le hab with rfl | hab
  · rw [show businessMs a a calendar = 0 from if_pos (le_refl a), zero_add]
  · rcases eq_or_lt_of_le hbc with rfl | hbc
    · rw [show businessMs b b calendar = 0 from if_pos (le_refl b), add_zero]
    · cases calendar with
      | always =>
        simp only [businessMs, if_neg (not_le.mpr hab), if_neg (not_le.mpr hbc),
          if_neg (not_le.mpr (lt_trans hab hbc))]
        omega
      | businessHours =>
        rw [businessMs_businessHours a c (lt_trans hab hbc), businessMs_businessHours a b hab,
          businessMs_businessHours b c hbc]
        omega

def businessTime (calendar : SlaCalendar) : Measure Millis Int where
  of start stop := businessMs start stop calendar
  empty h := if_pos h
  add := businessMs_add calendar

/-! ## Pieces -/

section
variable {windowFrom windowTo : Option Millis} {i p : StateInterval}

theorem clipInterval_spec (h : clipInterval windowFrom windowTo i = some p) :
    p.state = i.state ∧ p.reason = i.reason ∧ i.start ≤ p.start ∧ p.start < p.stop ∧ p.stop ≤ i.stop := by
  unfold clipInterval at h
  obtain ⟨hlength, heq⟩ := Option.ite_none_right_eq_some.mp h
  obtain rfl := Option.some.inj heq
  refine ⟨rfl, rfl, ?_, hlength, ?_⟩
  · show i.start ≤ (windowFrom.filter (i.start < ·)).getD i.start
    cases hfrom : windowFrom.filter (i.start < ·) with
    | none => exact le_refl _
    | some a => exact le_of_lt (by simpa using (Option.filter_eq_some_iff.mp hfrom).2)
  · show (windowTo.filter (· < i.stop)).getD i.stop ≤ i.stop
    cases hto : windowTo.filter (· < i.stop) with
    | none => exact le_refl _
    | some b => exact le_of_lt (by simpa using (Option.filter_eq_some_iff.mp hto).2)

theorem clipInterval_window (a b : Millis) (i : StateInterval) :
    (clipInterval (some a) (some b) i).map (fun p => (p.start, p.stop)) =
      if max a i.start < min b i.stop then some (max a i.start, min b i.stop) else none := by
  have hstart : ((some a).filter (i.start < ·)).getD i.start = max a i.start := by
    by_cases h : i.start < a
    · simp [Option.filter_some, h, max_eq_left (le_of_lt h)]
    · simp [Option.filter_some, h, max_eq_right (not_lt.mp h)]
  have hstop : ((some b).filter (· < i.stop)).getD i.stop = min b i.stop := by
    by_cases h : b < i.stop
    · simp [Option.filter_some, h, min_eq_left (le_of_lt h)]
    · simp [Option.filter_some, h, min_eq_right (not_lt.mp h)]
  unfold clipInterval
  dsimp only
  rw [hstart, hstop]
  split <;> rfl

end

section
variable {built : List StateInterval} {i p : StateInterval} {windowFrom windowTo : Option Millis}

theorem enteredAt_piece (h : InOrder StateInterval.start StateInterval.stop built) (hi : i ∈ built)
    (hstate : p.state = i.state) (hstart : i.start ≤ p.start) (hlength : p.start < p.stop)
    (hstop : p.stop ≤ i.stop) : enteredAt built p = i.start := by
  have hsame : (i.state == p.state) = true := beq_iff_eq.mpr hstate.symm
  unfold enteredAt
  rw [h.find_around (p := fun candidate => candidate.state == p.state) hi hsame hlength hstart hstop]
  rfl

theorem scoreInterval_piece (ctx : FlowContext) (item : WorkItem)
    (h : InOrder StateInterval.start StateInterval.stop built) (hi : i ∈ built)
    (hclip : clipInterval windowFrom windowTo i = some p) :
    scoreInterval ctx item built p =
      { scoreInterval ctx item built i with
        startedAt := p.start
        endedAt := p.stop
        isOpen := p.isOpen
        ms := businessMs p.start p.stop (ctx.calendar item.type i.state) } := by
  obtain ⟨hstate, hreason, hstart, hlength, hstop⟩ := clipInterval_spec hclip
  have hpiece := enteredAt_piece h hi hstate hstart hlength hstop
  have hwhole := enteredAt_piece h hi rfl (le_refl _) (h.positive i hi) (le_refl _)
  unfold scoreInterval
  rw [hpiece, hwhole, hstate, hreason]

theorem score_keeps (ctx : FlowContext) (item : WorkItem) (windowFrom windowTo : Option Millis) (now : Millis) :
    KeepsAttribution (score ctx item none none now).1 (score ctx item windowFrom windowTo now).1 := by
  have horder : InOrder StateInterval.start StateInterval.stop (builtHistory ctx item now).intervals :=
    buildIntervals_inOrder _ _ _ _ _
  intro piece hpiece
  obtain ⟨p, hp, rfl⟩ := List.mem_map.mp hpiece
  obtain ⟨i, hi, hclip⟩ := List.mem_filterMap.mp hp
  obtain ⟨hstate, -, hstart, hlength, hstop⟩ := clipInterval_spec hclip
  have hwhole : clipInterval none none i = some i := by
    simp [clipInterval, horder.positive i hi]
  refine ⟨_, List.mem_map_of_mem (List.mem_filterMap.mpr ⟨i, hi, hwhole⟩), hstate.symm, hstart, hstop, ?_⟩
  rw [scoreInterval_piece ctx item horder hi hclip]

end

/-! ## Sums -/

section
variable {α β : Type}

theorem sum_filter (p : α → Bool) (g : α → Int) (l : List α) :
    ((l.filter p).map g).sum = (l.map fun x => if p x then g x else 0).sum := by
  induction l with
  | nil => rfl
  | cons x l ih =>
    rw [List.map_cons, List.sum_cons, ← ih, List.filter_cons]
    split
    · rw [List.map_cons, List.sum_cons]
    · rw [zero_add]

theorem sum_filterMap (f : α → Option β) (g : β → Int) (l : List α) :
    ((l.filterMap f).map g).sum = (l.map fun x => ((f x).map g).getD 0).sum := by
  induction l with
  | nil => rfl
  | cons x l ih =>
    rw [List.map_cons, List.sum_cons, ← ih, List.filterMap_cons]
    cases f x with
    | none => exact (zero_add _).symm
    | some y => rw [List.map_cons, List.sum_cons]; rfl

theorem sum_flatMap (f : α → List β) (g : β → Int) (l : List α) :
    ((l.flatMap f).map g).sum = (l.map fun x => ((f x).map g).sum).sum := by
  induction l with
  | nil => rfl
  | cons x l ih => rw [List.flatMap_cons, List.map_append, List.sum_append, ih, List.map_cons, List.sum_cons]

end

/-- A test that does not look at the window. -/
def WindowFree (q : Scored → Bool) : Prop :=
  ∀ s startedAt endedAt isOpen ms,
    q { s with startedAt := startedAt, endedAt := endedAt, isOpen := isOpen, ms := ms } = q s

section
variable (ctx : FlowContext) (item : WorkItem) (now : Millis) (q : Scored → Bool)

/-- What a visit has in a window. -/
def visitMs (a b : Millis) (i : StateInterval) : Int :=
  if q (scoreInterval ctx item (builtHistory ctx item now).intervals i) then
    (businessTime (ctx.calendar item.type i.state)).of (max a i.start) (min b i.stop)
  else 0

/-- What an item has in a window. -/
def itemMs (a b : Millis) : Int :=
  ((builtHistory ctx item now).intervals.map (visitMs ctx item now q a b)).sum

theorem itemMs_add {a b c : Millis} (hab : a ≤ b) (hbc : b ≤ c) :
    itemMs ctx item now q a c = itemMs ctx item now q a b + itemMs ctx item now q b c := by
  unfold itemMs
  rw [← List.sum_map_add]
  congr 1
  refine List.map_congr_left fun i _ => ?_
  unfold visitMs
  split
  · exact (businessTime _).window_add hab hbc i.start i.stop
  · rfl

variable {q}

theorem score_sum (hq : WindowFree q) (a b : Millis) :
    (((score ctx item (some a) (some b) now).1.filter q).map (·.ms)).sum = itemMs ctx item now q a b := by
  have horder : InOrder StateInterval.start StateInterval.stop (builtHistory ctx item now).intervals :=
    buildIntervals_inOrder _ _ _ _ _
  rw [sum_filter]
  unfold score clipIntervals itemMs
  dsimp only
  rw [List.map_map, sum_filterMap]
  congr 1
  refine List.map_congr_left fun i hi => ?_
  have hwindow := clipInterval_window a b i
  unfold visitMs
  cases hclip : clipInterval (some a) (some b) i with
  | none =>
    rw [hclip] at hwindow
    have hempty : ¬ max a i.start < min b i.stop := fun h => by
      rw [if_pos h] at hwindow
      cases hwindow
    rw [(businessTime _).empty (not_lt.mp hempty), ite_self]
    rfl
  | some p =>
    rw [hclip, Option.map_some] at hwindow
    split at hwindow
    · obtain ⟨hstart, hstop⟩ := Prod.mk.inj (Option.some.inj hwindow)
      show (if q (scoreInterval ctx item (builtHistory ctx item now).intervals p) = true then
        (scoreInterval ctx item (builtHistory ctx item now).intervals p).ms else 0) = _
      rw [scoreInterval_piece ctx item horder hi hclip, hq, ← hstart, ← hstop]
      rfl
    · cases hwindow

theorem itemMs_later {a b : Millis} (h : b ≤ item.createdAt) : itemMs ctx item now q a b = 0 := by
  refine List.sum_eq_zero fun x hx => ?_
  obtain ⟨i, hi, rfl⟩ := List.mem_map.mp hx
  have hstart : item.createdAt ≤ i.start := buildIntervals_from hi
  unfold visitMs
  rw [(businessTime _).empty (le_trans (min_le_left _ _) (le_trans h (le_trans hstart (le_max_right _ _)))), ite_self]

theorem score_ms_nonneg {windowFrom windowTo : Option Millis} {s : Scored}
    (h : s ∈ (score ctx item windowFrom windowTo now).1) : 0 ≤ s.ms := by
  obtain ⟨p, -, rfl⟩ := List.mem_map.mp h
  exact businessMs_nonneg p.start p.stop _

end

/-! ## The waits of a tenant -/

/-- A test of the rows of a report by what its groups are made of. -/
abbrev WaitTest := FlowBucket → String → Option BlockingItem → Bool

def WaitTest.row (f : WaitTest) (row : WaitRow) : Bool := f row.classification row.reason row.blockingItem

def WaitTest.scored (f : WaitTest) (s : Scored) : Bool :=
  s.wait.any fun wait => f s.classification wait.reason wait.blockingItem

theorem WaitTest.windowFree (f : WaitTest) : WindowFree f.scored := fun _ _ _ _ _ => rfl

theorem rows_sum (db : FlowDb) (orgId : Uuid) (item : WorkItem) (f : WaitTest) {scored : List Scored}
    (h : ∀ s ∈ scored, 0 ≤ s.ms) :
    (((scored.filterMap (waitRow db orgId item)).filter f.row).map (·.ms)).sum =
      ((scored.filter f.scored).map (·.ms)).sum := by
  rw [sum_filter, sum_filter, sum_filterMap]
  congr 1
  refine List.map_congr_left fun s hs => ?_
  have hms := h s hs
  unfold waitRow WaitTest.scored
  cases s.wait with
  | none => rfl
  | some wait =>
    dsimp only
    split
    · have hzero : s.ms = 0 := by omega
      rw [hzero, ite_self]
      rfl
    · rfl

/-- What the reported items have in a window, whenever they were created. -/
def tenantMs (db : FlowDb) (orgId : Uuid) (filter : WaitFilter) (now : Millis) (q : Scored → Bool) (a b : Millis) :
    Int :=
  ((db.items.filter (isReported orgId filter)).map fun item =>
    itemMs (flowContext db orgId [item]) item now q a b).sum

theorem tenantMs_add (db : FlowDb) (orgId : Uuid) (filter : WaitFilter) (now : Millis) (q : Scored → Bool)
    {a b c : Millis} (hab : a ≤ b) (hbc : b ≤ c) :
    tenantMs db orgId filter now q a c = tenantMs db orgId filter now q a b + tenantMs db orgId filter now q b c := by
  unfold tenantMs
  rw [← List.sum_map_add]
  congr 1
  exact List.map_congr_left fun item _ => itemMs_add _ item now q hab hbc

/-- The items that a report of the window considers. -/
def matching (db : FlowDb) (orgId : Uuid) (filter : WaitFilter) (stop : Millis) : List WorkItem :=
  db.items.filter fun item => decide (item.createdAt < stop) && isReported orgId filter item

theorem loadItems_perm {db : FlowDb} {orgId : Uuid} {filter : WaitFilter} {stop : Millis}
    (h : (matching db orgId filter stop).length ≤ maxReportItems) :
    (loadItems db orgId stop filter).1.Perm (matching db orgId filter stop) := by
  have hperm := sortByKey_perm itemOrder (matching db orgId filter stop)
  have hlength := hperm.length_eq
  have hfew : (sortByKey itemOrder (matching db orgId filter stop)).length ≤ maxReportItems := by omega
  show (((sortByKey itemOrder (matching db orgId filter stop)).take (maxReportItems + 1)).take maxReportItems).Perm _
  rw [List.take_of_length_le (Nat.le_succ_of_le hfew), List.take_of_length_le hfew]
  exact hperm

theorem items_sum {db : FlowDb} {orgId : Uuid} {filter : WaitFilter} {a b : Millis}
    (h : (matching db orgId filter b).length ≤ maxReportItems) (now : Millis) {q : Scored → Bool}
    (hq : WindowFree q) :
    ((loadItems db orgId b filter).1.map fun item =>
      (((score (flowContext db orgId (loadItems db orgId b filter).1) item (some a) (some b) now).1.filter q).map
        (·.ms)).sum).sum = tenantMs db orgId filter now q a b := by
  have hscore : ∀ item ∈ (loadItems db orgId b filter).1,
      (((score (flowContext db orgId (loadItems db orgId b filter).1) item (some a) (some b) now).1.filter q).map
        (·.ms)).sum = itemMs (flowContext db orgId [item]) item now q a b := by
    intro item hitem
    rw [score_context hitem]
    exact score_sum _ item now hq a b
  rw [List.map_congr_left hscore, ((loadItems_perm h).map _).sum_eq]
  unfold matching tenantMs
  rw [sum_filter, sum_filter]
  congr 1
  refine List.map_congr_left fun item _ => ?_
  by_cases hcreated : item.createdAt < b
  · simp [hcreated]
  · rw [itemMs_later _ item now (not_lt.mp hcreated), ite_self, ite_self]

theorem collectWaits_ms {parseDate : String → Option Millis} {db : FlowDb} {orgId : Uuid} {range : WaitRange}
    {filter : WaitFilter} {now a b : Millis} (hrange : parseRange parseDate range now = .ok (a, b))
    (hlimit : (matching db orgId filter b).length ≤ maxReportItems) :
    ∃ w, collectWaits parseDate db orgId range filter now = .ok w ∧
      (∀ f : WaitTest, w.msWhere f.row = tenantMs db orgId filter now f.scored a b) ∧
      w.unclassifiedMs = tenantMs db orgId filter now (·.classification == .unclassified) a b ∧
      w.total = w.msWhere (fun _ => true) := by
  rw [collectWaits, hrange]
  refine ⟨_, rfl, fun f => ?_, ?_, ?_⟩
  · rw [← items_sum hlimit now f.windowFree]
    show (((List.flatMap _ (loadItems db orgId b filter).1).filter f.row).map _).sum = _
    rw [List.filter_flatMap, sum_flatMap]
    congr 1
    exact List.map_congr_left fun item _ => rows_sum db orgId item f fun s hs => score_ms_nonneg _ item now hs
  · rw [← items_sum hlimit now (q := (·.classification == .unclassified)) fun _ _ _ _ _ => rfl]
    exact sum_flatMap _ _ _
  · show _ = (List.map _ (List.filter _ _)).sum
    rw [List.filter_true]

theorem parseRange_lt {parseDate : String → Option Millis} {range : WaitRange} {now a b : Millis}
    (h : parseRange parseDate range now = .ok (a, b)) : a < b := by
  simp only [parseRange, bind, Except.bind, pure, Except.pure, throw, throwThe, MonadExceptOf.throw] at h
  repeat' split at h
  all_goals cases h
  exact not_le.mp ‹_›

theorem matching_mono (db : FlowDb) (orgId : Uuid) (filter : WaitFilter) {b c : Millis} (h : b ≤ c) :
    (matching db orgId filter b).length ≤ (matching db orgId filter c).length := by
  unfold matching
  rw [← List.countP_eq_length_filter, ← List.countP_eq_length_filter]
  refine List.countP_mono_left fun item _ hitem => ?_
  simp only [Bool.and_eq_true, decide_eq_true_eq] at hitem ⊢
  exact ⟨lt_of_lt_of_le hitem.1 h, hitem.2⟩

/-- Three accepted ranges of which two meet and the third is both. -/
theorem windows_add (parseDate : String → Option Millis) (db : FlowDb) (orgId : Uuid) (filter : WaitFilter)
    (now : Millis) {whole left right : WaitRange} {a b c : Millis}
    (hwhole : parseRange parseDate whole now = .ok (a, c)) (hleft : parseRange parseDate left now = .ok (a, b))
    (hright : parseRange parseDate right now = .ok (b, c))
    (hlimit : (matching db orgId filter c).length ≤ maxReportItems) :
    (∃ w l r, collectWaits parseDate db orgId whole filter now = .ok w ∧
      collectWaits parseDate db orgId left filter now = .ok l ∧
      collectWaits parseDate db orgId right filter now = .ok r ∧ AddsUp w l r) ∧
    ∀ ctx item windowFrom windowTo,
      KeepsAttribution (score ctx item none none now).1 (score ctx item windowFrom windowTo now).1 := by
  refine ⟨?_, fun ctx item windowFrom windowTo => score_keeps ctx item windowFrom windowTo now⟩
  have hab : a ≤ b := le_of_lt (parseRange_lt hleft)
  have hbc : b ≤ c := le_of_lt (parseRange_lt hright)
  have hfewer : (matching db orgId filter b).length ≤ maxReportItems :=
    Nat.le_trans (matching_mono db orgId filter hbc) hlimit
  obtain ⟨w, hw, hwtest, hwun, hwtotal⟩ := collectWaits_ms hwhole hlimit
  obtain ⟨l, hl, hltest, hlun, hltotal⟩ := collectWaits_ms hleft hfewer
  obtain ⟨r, hr, hrtest, hrun, hrtotal⟩ := collectWaits_ms hright hlimit
  have htest (f : WaitTest) : w.msWhere f.row = l.msWhere f.row + r.msWhere f.row := by
    rw [hwtest, hltest, hrtest]
    exact tenantMs_add db orgId filter now f.scored hab hbc
  refine ⟨w, l, r, hw, hl, hr, ?_, ?_, fun c => htest fun bucket _ _ => bucket == c,
    fun reason => htest fun _ given _ => given == reason, fun id => htest fun _ _ item => item.map (·.id) == id⟩
  · rw [hwtotal, hltotal, hrtotal]
    exact htest fun _ _ _ => true
  · rw [hwun, hlun, hrun]
    exact tenantMs_add db orgId filter now _ hab hbc

/-- A story in review since noon, without a policy or a workflow of its own. -/
def reviewDb : FlowDb where
  items := [{ ledgerStory with status := "In Review", createdAt := 43200000 }]
  itemIds := by decide
  audit := []
  auditIds := List.nodup_nil
  links := []
  linkIds := List.nodup_nil
  classifications _ := [⟨none, "In Review", .waiting, some "approval", 1⟩]
  policies := []
  definitions := []
  pick := 0
  teams := []

def parseDayNumber (text : String) : Option Millis :=
  if text = "0" then some 0 else if text = "1" then some 86400000 else if text = "2" then some 172800000 else none

theorem windows_add_review :
    (∃ w l r, collectWaits parseDayNumber reviewDb 1 ⟨some "0", some "2"⟩ ⟨none, none, none⟩ 259200000 = .ok w ∧
      collectWaits parseDayNumber reviewDb 1 ⟨some "0", some "1"⟩ ⟨none, none, none⟩ 259200000 = .ok l ∧
      collectWaits parseDayNumber reviewDb 1 ⟨some "1", some "2"⟩ ⟨none, none, none⟩ 259200000 = .ok r ∧
      AddsUp w l r) ∧
    ∀ ctx item windowFrom windowTo,
      KeepsAttribution (score ctx item none none 259200000).1 (score ctx item windowFrom windowTo 259200000).1 :=
  windows_add parseDayNumber reviewDb 1 ⟨none, none, none⟩ 259200000 (a := 0) (b := 86400000) (c := 172800000)
    rfl rfl rfl (by decide)

end Cadena.Flow
