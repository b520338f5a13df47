import Cadena.Flow.ReportWindows

/-!
# Who is blamed for a wait

A wait without an explicit reason is attributed to a blocking link. Whether the
blocker was open when the wait began is judged by one closing instant: that of
its last entry into a terminal state, if it is in one now. So a blocker that
was closed then and has changed its state since is taken for open, and one that
is linked twice is counted twice.
-/

namespace Cadena.Flow

open Cadena.Base Cadena.Connectors Cadena.WorkItems Cadena.Lineage Page Timeline
open Cadena.Auth (WaitReason)

/-- The state changes of an item as they were committed. -/
structure ItemHistory where
  createdAt : Millis
  initial : String
  moves : List (Millis × String)
  ordered : moves.Pairwise fun a b => a.1 ≤ b.1

def ItemHistory.stateAt (h : ItemHistory) (t : Millis) : String := valueAt t h.initial h.moves

def ItemHistory.status (h : ItemHistory) : String := lastValue h.initial h.moves

/-- The item has changed since; one that has never changed did not exist yet. -/
def ItemHistory.ChangesAfter (h : ItemHistory) (t : Millis) : Prop :=
  (∃ m ∈ h.moves, t < m.1) ∨ h.moves = [] ∧ t < h.createdAt

/-- Every item of the tenant is as its history has left it, and its audit rows
are its changes. Rows of one instant may be read in another order. -/
def Recorded (db : FlowDb) (orgId : Uuid) (history : Uuid → ItemHistory) : Prop :=
  ∀ item ∈ db.items, item.orgId = orgId →
    item.createdAt = (history item.id).createdAt ∧ item.status = (history item.id).status ∧
      ((loadEvents db orgId [item.id] item.id).map moveOfEvent).Perm (history item.id).moves

def Blocks (link : WorkItemLink) (blocker blocked : Uuid) : Prop :=
  link.linkType = .blocks ∧ link.sourceId = blocker ∧ link.targetId = blocked ∨
    (link.linkType = .blockedBy ∨ link.linkType = .causedBy) ∧ link.sourceId = blocked ∧ link.targetId = blocker

section
variable (db : FlowDb) (orgId : Uuid) (history : Uuid → ItemHistory) (id : Uuid) (t : Millis)

/-- An item of the tenant that was linked as a blocker by the instant. -/
def LinkedBlocker (b : WorkItem) : Prop :=
  b ∈ db.items ∧ b.orgId = orgId ∧ ∃ link ∈ db.links, Blocks link b.id id ∧ link.createdAt ≤ t

def OpenAt (b : WorkItem) : Prop := (history b.id).stateAt t ∉ terminalStates db b.type

def OpenBlocker (b : WorkItem) : Prop := LinkedBlocker db orgId id t b ∧ OpenAt db history t b

/-- A wait that began at the instant is blamed on an open blocker if there is
one, on the one that was linked first, and the others are counted. -/
structure Attributed (w : WaitAttribution) : Prop where
  source : w.reasonSource = .blockingLink ↔ ∃ b, OpenBlocker db orgId history id t b
  blamed : w.blockingItem.isSome ↔ ∃ b, OpenBlocker db orgId history id t b
  first : ∀ i ∈ w.blockingItem, ∃ b, OpenBlocker db orgId history id t b ∧ b.id = i.id ∧
    ∃ link ∈ db.links, Blocks link b.id id ∧ ∀ b' link', OpenBlocker db orgId history id t b' → link' ∈ db.links →
      Blocks link' b'.id id → link.createdAt ≤ link'.createdAt
  others : ∃ others : List Uuid, others.Nodup ∧ w.ambiguousBlockers = others.length ∧
    ∀ other, other ∈ others ↔ (∃ b, OpenBlocker db orgId history id t b ∧ b.id = other) ∧
      w.blockingItem.map (·.id) ≠ some other

/-- A blocker that was closed at the instant has not changed since. -/
def StaysClosed : Prop :=
  ∀ b, LinkedBlocker db orgId id t b → ¬ OpenAt db history t b → ¬ (history b.id).ChangesAfter t

def LinkedOnce : Prop :=
  ∀ b, OpenBlocker db orgId history id t b → ∀ link ∈ db.links, ∀ link' ∈ db.links,
    Blocks link b.id id → link.createdAt ≤ t → Blocks link' b.id id → link'.createdAt ≤ t → link = link'

/-- What a report says of a visit that was entered without a reason, in any of
its windows. -/
structure ReportedWait (items : List WorkItem) (item : WorkItem) (now : Millis) (visit : StateInterval)
    (w : WaitAttribution) : Prop where
  considered : item ∈ items
  visited : visit ∈ (builtHistory (flowContext db orgId items) item now).intervals
  unexplained : visit.reason = none
  shown : ∃ windowFrom windowTo piece, clipInterval windowFrom windowTo visit = some piece ∧
    (scoreInterval (flowContext db orgId items) item (builtHistory (flowContext db orgId items) item now).intervals
      piece).wait = some w

end

/-! ## The closing instant -/

section
variable {events : List StateChange} {h : ItemHistory} {finals : List String} {item : WorkItem} {t : Millis}

theorem getLast_spec (hsorted : events.Pairwise fun a b => a.time ≤ b.time) {p : StateChange → Bool}
    {e : StateChange} (he : (events.filter p).getLast? = some e) :
    e ∈ events ∧ p e = true ∧ ∀ e' ∈ events, p e' = true → e'.time ≤ e.time := by
  obtain ⟨before, hfilter⟩ := List.getLast?_eq_some_iff.mp he
  have hmem : e ∈ events.filter p := hfilter ▸ List.mem_append_right _ (List.mem_singleton_self e)
  refine ⟨List.mem_of_mem_filter hmem, (List.mem_filter.mp hmem).2, fun e' he' hp' => ?_⟩
  have hmem' : e' ∈ events.filter p := List.mem_filter.mpr ⟨he', hp'⟩
  have hordered := hsorted.filter p
  rw [hfilter] at hmem' hordered
  rcases List.mem_append.mp hmem' with hbefore | hlast
  · exact (List.pairwise_append.mp hordered).2.2 e' hbefore e (List.mem_singleton_self e)
  · exact List.mem_singleton.mp hlast ▸ le_refl _

theorem closedAt_all_iff (hcreated : item.createdAt = h.createdAt) (hstatus : item.status = h.status)
    (hsorted : events.Pairwise fun a b => a.time ≤ b.time) (hperm : (events.map moveOfEvent).Perm h.moves) :
    (closedAt finals item events).all (t < ·) = true ↔
      h.stateAt t ∉ finals ∨ h.ChangesAfter t := by
  have hmoves (e : StateChange) (he : e ∈ events) : moveOfEvent e ∈ h.moves :=
    hperm.mem_iff.mp (List.mem_map_of_mem he)
  have hpast (hnone : ¬ ∃ m ∈ h.moves, t < m.1) : h.stateAt t = h.status :=
    valueAt_past fun m hm => not_lt.mp fun hlt => hnone ⟨m, hm, hlt⟩
  have hlater (hsome : ∃ m ∈ h.moves, t < m.1) : ∃ m ∈ h.moves, t < m.1 ∧ m.2 = h.status := by
    obtain ⟨m, hm, hlt⟩ := hsome
    cases hlast : h.moves.getLast? with
    | none =>
      rw [List.getLast?_eq_none_iff.mp hlast] at hm
      cases hm
    | some last =>
      obtain ⟨before, hsplit⟩ := List.getLast?_eq_some_iff.mp hlast
      have hordered := h.ordered
      rw [hsplit] at hm hordered
      refine ⟨last, List.mem_of_getLast? hlast, ?_, by rw [ItemHistory.status, lastValue, hlast]; rfl⟩
      rcases List.mem_append.mp hm with hbefore | hm
      · exact lt_of_lt_of_le hlt
          ((List.pairwise_append.mp hordered).2.2 m hbefore last (List.mem_singleton_self last))
      · exact List.mem_singleton.mp hm ▸ hlt
  unfold closedAt
  by_cases hfinal : item.status ∈ finals
  · rw [if_pos (List.contains_iff_mem.mpr hfinal), Option.all_some, decide_eq_true_eq]
    have hpasts : h.stateAt t ∉ finals → ∃ m ∈ h.moves, t < m.1 := fun hopen =>
      Classical.byContradiction fun hnone => hopen (by rw [hpast hnone, ← hstatus]; exact hfinal)
    have hentries (m : Millis × String) (hm : m ∈ h.moves) (hto : m.2 = h.status) :
        ∃ e ∈ events, e.time = m.1 ∧ finals.contains e.toState = true := by
      obtain ⟨e, he, rfl⟩ := List.mem_map.mp (hperm.mem_iff.mpr hm)
      have hterminal : e.toState ∈ finals := by
        rw [show e.toState = h.status from hto, ← hstatus]
        exact hfinal
      exact ⟨e, he, rfl, List.contains_iff_mem.mpr hterminal⟩
    cases hentry : (events.filter fun e => finals.contains e.toState).getLast? with
    | none =>
      have hempty := List.filter_eq_nil_iff.mp (List.getLast?_eq_none_iff.mp hentry)
      have hnomove : ¬ ∃ m ∈ h.moves, t < m.1 := fun hsome => by
        obtain ⟨m, hm, -, hto⟩ := hlater hsome
        obtain ⟨e, he, -, hterminal⟩ := hentries m hm hto
        exact hempty e he hterminal
      have hnone : h.moves = [] := by
        cases hlast : h.moves.getLast? with
        | none => exact List.getLast?_eq_none_iff.mp hlast
        | some last =>
          have hto : last.2 = h.status := by
            rw [ItemHistory.status, lastValue, hlast]
            rfl
          obtain ⟨e, he, -, hterminal⟩ := hentries last (List.mem_of_getLast? hlast) hto
          exact absurd hterminal (hempty e he)
      show t < item.createdAt ↔ _
      rw [hcreated]
      constructor
      · exact fun hlt => .inr (.inr ⟨hnone, hlt⟩)
      · rintro (hopen | hsome | ⟨-, hlt⟩)
        · exact absurd (hpasts hopen) hnomove
        · exact absurd hsome hnomove
        · exact hlt
    | some e =>
      obtain ⟨he, -, hmax⟩ := getLast_spec hsorted hentry
      have hmove : (∃ m ∈ h.moves, t < m.1) → t < e.time := fun hsome => by
        obtain ⟨m, hm, hlt, hto⟩ := hlater hsome
        obtain ⟨e', he', htime, hterminal⟩ := hentries m hm hto
        exact lt_of_lt_of_le (htime ▸ hlt) (hmax e' he' hterminal)
      show t < e.time ↔ _
      constructor
      · exact fun hlt => .inr (.inl ⟨_, hmoves e he, hlt⟩)
      · rintro (hopen | hsome | ⟨hnone, -⟩)
        · exact hmove (hpasts hopen)
        · exact hmove hsome
        · have hmem := hmoves e he
          rw [hnone] at hmem
          cases hmem
  · rw [if_neg (fun hmem => hfinal (List.contains_iff_mem.mp hmem))]
    refine iff_of_true rfl (Classical.or_iff_not_imp_right.mpr fun hlate => ?_)
    rw [hpast fun hsome => hlate (.inl hsome), ← hstatus]
    exact hfinal

end

/-! ## The links that count -/

section
variable {db : FlowDb} {orgId : Uuid}

/-- What the code takes for open at an instant. -/
def readOpen (db : FlowDb) (orgId : Uuid) (t : Millis) (b : WorkItem) : Bool :=
  (closedAt (terminalStates db b.type) b (loadEvents db orgId [b.id] b.id)).all (t < ·)

/-- The links that count for a wait that began at the instant. -/
def applicableLinks (db : FlowDb) (orgId id : Uuid) (t : Millis) : List WorkItemLink :=
  (sortByKey linkKey (db.links.filter (isBlockingLink [id]))).filter fun link =>
    (blockingPair link).blocked == id && decide (link.createdAt ≤ t) &&
      (db.items.find? fun w => w.id == (blockingPair link).blocker && w.orgId == orgId).any (readOpen db orgId t)

theorem applicable_ids (db : FlowDb) (orgId id : Uuid) (t : Millis) :
    ((blockersOf db orgId id).filter (·.applies t)).map (·.id) =
      (applicableLinks db orgId id t).map fun link => (blockingPair link).blocker := by
  unfold blockersOf linksTo blockingPairs applicableLinks
  induction sortByKey linkKey (db.links.filter (isBlockingLink [id])) with
  | nil => rfl
  | cons link links ih =>
    rw [List.map_cons, List.filter_cons, List.filter_cons]
    by_cases hid : (blockingPair link).blocked = id
    · rw [if_pos (beq_iff_eq.mpr hid), List.filterMap_cons]
      have hlinked : (blockingPair link).linkedAt = link.createdAt := by
        unfold blockingPair
        split <;> rfl
      cases hfind : db.items.find? fun w => w.id == (blockingPair link).blocker && w.orgId == orgId with
      | none => simpa using ih
      | some b =>
        have hb : b.id = (blockingPair link).blocker := by
          have hfound := List.find?_some hfind
          simp only [Bool.and_eq_true, beq_iff_eq] at hfound
          exact hfound.1
        have happlies : (blockerOf db orgId (fun b => loadEvents db orgId [b] b) b (blockingPair link).linkedAt).applies
            t = (decide (link.createdAt ≤ t) && readOpen db orgId t b) := by
          rw [hlinked]
          rfl
        rw [Option.map_some, List.filter_cons, happlies, Option.any_some, beq_iff_eq.mpr hid, Bool.true_and]
        split
        · rw [List.map_cons, List.map_cons, ih]
          exact congrArg (· :: _) hb
        · exact ih
    · rw [if_neg (fun h => hid (beq_iff_eq.mp h)), ih, beq_eq_false_iff_ne.mpr hid]
      rfl

theorem find_item {b : WorkItem} (hb : b ∈ db.items) (horg : b.orgId = orgId) :
    (db.items.find? fun w => w.id == b.id && w.orgId == orgId) = some b := by
  cases hfind : db.items.find? fun w => w.id == b.id && w.orgId == orgId with
  | none => exact absurd (List.find?_eq_none.mp hfind b hb) (by simp [horg])
  | some w =>
    have hw := List.find?_some hfind
    simp only [Bool.and_eq_true, beq_iff_eq] at hw
    rw [List.inj_on_of_nodup_map db.itemIds (List.mem_of_find?_eq_some hfind) hb hw.1]

theorem blocks_iff {link : WorkItemLink} {blocker id : Uuid} :
    Blocks link blocker id ↔ isBlockingLink [id] link = true ∧ (blockingPair link).blocked = id ∧
      (blockingPair link).blocker = blocker := by
  unfold Blocks isBlockingLink blockingPair
  by_cases hblocks : link.linkType = .blocks
  · simp +decide [hblocks]
    tauto
  · simp [hblocks]
    tauto

theorem mem_applicableLinks {id : Uuid} {t : Millis} {link : WorkItemLink} :
    link ∈ applicableLinks db orgId id t ↔ link ∈ db.links ∧ link.createdAt ≤ t ∧
      ∃ b ∈ db.items, b.orgId = orgId ∧ Blocks link b.id id ∧ readOpen db orgId t b = true := by
  unfold applicableLinks
  rw [List.mem_filter, (sortByKey_perm _ _).mem_iff, List.mem_filter]
  simp only [Bool.and_eq_true, beq_iff_eq, decide_eq_true_eq, Option.any_eq_true]
  constructor
  · rintro ⟨⟨hlink, hblocking⟩, ⟨hid, ht⟩, b, hfind, hopen⟩
    have hfound := List.find?_some hfind
    simp only [Bool.and_eq_true, beq_iff_eq] at hfound
    exact ⟨hlink, ht, b, List.mem_of_find?_eq_some hfind, hfound.2, blocks_iff.mpr ⟨hblocking, hid, hfound.1.symm⟩, hopen⟩
  · rintro ⟨hlink, ht, b, hb, horg, hblocks, hopen⟩
    obtain ⟨hblocking, hid, hblocker⟩ := blocks_iff.mp hblocks
    refine ⟨⟨hlink, hblocking⟩, ⟨hid, ht⟩, b, ?_, hopen⟩
    rw [hblocker]
    exact find_item hb horg

end

/-! ## When the attribution is right -/

/-- The ids of the links that count, the first one first. -/
def applicableIds (db : FlowDb) (orgId id : Uuid) (t : Millis) : List Uuid :=
  (applicableLinks db orgId id t).map fun link => (blockingPair link).blocker

/-- What an attribution shows of the blockers that count. -/
structure Shows (ids : List Uuid) (w : WaitAttribution) : Prop where
  source : w.reasonSource = .blockingLink ↔ w.blockingItem.isSome
  item : w.blockingItem.map (·.id) = ids.head?
  others : w.ambiguousBlockers = ids.length - 1

theorem attribution_shows (resolved : ResolvedClassification) (db : FlowDb) (orgId id : Uuid) (t : Millis) :
    Shows (applicableIds db orgId id t) (attribution resolved (blockersOf db orgId id) none t) where
  source := by
    unfold attribution
    dsimp only
    generalize ((blockersOf db orgId id).filter (·.applies t)).head? = blocker
    cases blocker with
    | none =>
      cases resolved.defaultReason with
      | none => simp
      | some reason => simp
    | some b => simp
  item := by
    rw [applicableIds, ← applicable_ids, List.head?_map]
    exact Option.map_map _ _ _
  others := by
    rw [applicableIds, ← applicable_ids, List.length_map]
    rfl

section
variable {db : FlowDb} {orgId : Uuid} {history : Uuid → ItemHistory} {id : Uuid} {t : Millis}

theorem readOpen_iff (hrec : Recorded db orgId history) {b : WorkItem} (hb : b ∈ db.items) (horg : b.orgId = orgId) :
    readOpen db orgId t b = true ↔ OpenAt db history t b ∨ (history b.id).ChangesAfter t := by
  obtain ⟨hcreated, hstatus, hperm⟩ := hrec b hb horg
  exact closedAt_all_iff hcreated hstatus (loadEvents_sorted db orgId b.id) hperm

theorem mem_applicableIds {other : Uuid} :
    other ∈ applicableIds db orgId id t ↔
      ∃ b, LinkedBlocker db orgId id t b ∧ readOpen db orgId t b = true ∧ b.id = other := by
  rw [applicableIds, List.mem_map]
  constructor
  · rintro ⟨link, hlink, rfl⟩
    obtain ⟨hmem, ht, b, hb, horg, hblocks, hopen⟩ := mem_applicableLinks.mp hlink
    exact ⟨b, ⟨hb, horg, link, hmem, hblocks, ht⟩, hopen, (blocks_iff.mp hblocks).2.2.symm⟩
  · rintro ⟨b, ⟨hb, horg, link, hmem, hblocks, ht⟩, hopen, rfl⟩
    exact ⟨link, mem_applicableLinks.mpr ⟨hmem, ht, b, hb, horg, hblocks, hopen⟩, (blocks_iff.mp hblocks).2.2⟩

theorem OpenBlocker.mem_ids (hrec : Recorded db orgId history) {b : WorkItem}
    (h : OpenBlocker db orgId history id t b) : b.id ∈ applicableIds db orgId id t :=
  mem_applicableIds.mpr ⟨b, h.1, (readOpen_iff hrec h.1.1 h.1.2.1).mpr (.inl h.2), rfl⟩

theorem applicableLinks_sorted (db : FlowDb) (orgId id : Uuid) (t : Millis) :
    (applicableLinks db orgId id t).Pairwise fun a b => a.createdAt ≤ b.createdAt := by
  have hnodup : ((db.links.filter (isBlockingLink [id])).map linkKey).Nodup :=
    (linkKeys_nodup db).sublist (List.filter_sublist.map linkKey)
  exact ((sortByKey_sorted hnodup).filter _).imp fun h => Prod.Lex.monotone_fst_ofLex (le_of_lt h)

theorem attributed_of (hrec : Recorded db orgId history) (hclosed : StaysClosed db orgId history id t)
    (honce : LinkedOnce db orgId history id t) {w : WaitAttribution} (hw : Shows (applicableIds db orgId id t) w) :
    Attributed db orgId history id t w := by
  have hopen (b : WorkItem) (hlinked : LinkedBlocker db orgId id t b) (hread : readOpen db orgId t b = true) :
      OpenBlocker db orgId history id t b := by
    refine ⟨hlinked, Classical.byContradiction fun hnot => ?_⟩
    rcases (readOpen_iff hrec hlinked.1 hlinked.2.1).mp hread with hopen | hlater
    · exact hnot hopen
    · exact hclosed b hlinked hnot hlater
  have hids (other : Uuid) : other ∈ applicableIds db orgId id t ↔
      ∃ b, OpenBlocker db orgId history id t b ∧ b.id = other := by
    constructor
    · intro hmem
      obtain ⟨b, hlinked, hread, rfl⟩ := mem_applicableIds.mp hmem
      exact ⟨b, hopen b hlinked hread, rfl⟩
    · rintro ⟨b, hb, rfl⟩
      exact hb.mem_ids hrec
  have hnodup : (applicableIds db orgId id t).Nodup := by
    refine List.Nodup.map_on (fun link hlink link' hlink' hsame => ?_) ?_
    · obtain ⟨hmem, ht, b, hb, horg, hblocks, hread⟩ := mem_applicableLinks.mp hlink
      obtain ⟨hmem', ht', b', hb', horg', hblocks', -⟩ := mem_applicableLinks.mp hlink'
      rw [(blocks_iff.mp hblocks).2.2, (blocks_iff.mp hblocks').2.2] at hsame
      rw [← hsame] at hblocks'
      exact honce b (hopen b ⟨hb, horg, link, hmem, hblocks, ht⟩ hread) link hmem link' hmem' hblocks ht hblocks' ht'
    · exact ((sortByKey_perm _ _).nodup_iff.mpr ((List.Nodup.of_map _ db.linkIds).filter _)).filter _
  have hblamed : w.blockingItem.isSome ↔ ∃ b, OpenBlocker db orgId history id t b := by
    rw [← Option.isSome_map (f := (·.id)), hw.item, List.isSome_head?]
    constructor
    · intro hne
      obtain ⟨other, hmem⟩ := List.exists_mem_of_ne_nil _ hne
      obtain ⟨b, hb, -⟩ := (hids other).mp hmem
      exact ⟨b, hb⟩
    · rintro ⟨b, hb⟩
      exact List.ne_nil_of_mem (hb.mem_ids hrec)
  refine ⟨hw.source.trans hblamed, hblamed, ?_, ?_⟩
  · intro i hi
    have hhead := hw.item
    rw [hi, Option.map_some, applicableIds] at hhead
    have hsorted := applicableLinks_sorted db orgId id t
    have hmem' (link' : WorkItemLink) (hlink' : link' ∈ db.links) (ht' : link'.createdAt ≤ t) (b' : WorkItem)
        (hb' : OpenBlocker db orgId history id t b') (hblocks' : Blocks link' b'.id id) :
        link' ∈ applicableLinks db orgId id t :=
      mem_applicableLinks.mpr ⟨hlink', ht', b', hb'.1.1, hb'.1.2.1, hblocks',
        (readOpen_iff hrec hb'.1.1 hb'.1.2.1).mpr (.inl hb'.2)⟩
    cases hlinks : applicableLinks db orgId id t with
    | nil =>
      rw [hlinks] at hhead
      cases hhead
    | cons link links =>
      rw [hlinks] at hhead hsorted hmem'
      obtain ⟨hmem, ht, b, hb, horg, hblocks, hread⟩ := mem_applicableLinks.mp (hlinks ▸ List.mem_cons_self)
      have hbid : b.id = i.id := (blocks_iff.mp hblocks).2.2.symm.trans (Option.some.inj hhead).symm
      refine ⟨b, hopen b ⟨hb, horg, link, hmem, hblocks, ht⟩ hread, hbid, link, hmem, hblocks, ?_⟩
      intro b' link' hb' hlink' hblocks'
      rcases le_or_gt link'.createdAt t with ht' | ht'
      · rcases List.mem_cons.mp (hmem' link' hlink' ht' b' hb' hblocks') with rfl | hlater
        · exact le_refl _
        · exact List.rel_of_pairwise_cons hsorted hlater
      · exact le_trans ht (le_of_lt ht')
  · refine ⟨(applicableIds db orgId id t).tail, hnodup.tail, by rw [hw.others, List.length_tail], fun other => ?_⟩
    rw [← hids, hw.item]
    cases hall : applicableIds db orgId id t with
    | nil => simp
    | cons first rest =>
      rw [hall] at hnodup
      have hfirst : first ∉ rest := (List.nodup_cons.mp hnodup).1
      rw [List.tail_cons, List.head?_cons, List.mem_cons, Ne, Option.some_inj]
      constructor
      · exact fun hrest => ⟨.inr hrest, fun heq => hfirst (heq ▸ hrest)⟩
      · rintro ⟨rfl | hrest, hne⟩
        · exact absurd rfl hne
        · exact hrest

theorem of_attributed (hrec : Recorded db orgId history) {w : WaitAttribution}
    (hw : Shows (applicableIds db orgId id t) w) (h : Attributed db orgId history id t w) :
    StaysClosed db orgId history id t ∧ LinkedOnce db orgId history id t := by
  obtain ⟨others, hnodup, hlength, hothers⟩ := h.others
  have hright : (applicableIds db orgId id t).Nodup ∧
      ∀ other ∈ applicableIds db orgId id t, ∃ b, OpenBlocker db orgId history id t b ∧ b.id = other := by
    cases hall : applicableIds db orgId id t with
    | nil => exact ⟨List.nodup_nil, fun other hmem => absurd hmem List.not_mem_nil⟩
    | cons first rest =>
      have hitem := hw.item
      rw [hall, List.head?_cons] at hitem
      obtain ⟨i, hi, hfirst⟩ := Option.map_eq_some_iff.mp hitem
      obtain ⟨b, hb, hbid, -⟩ := h.first i hi
      -- the open blockers, counted
      have hcounted : (first :: others).Nodup :=
        List.nodup_cons.mpr ⟨fun hmem => ((hothers first).mp hmem).2 hitem, hnodup⟩
      have hopen (other : Uuid) (hmem : other ∈ first :: others) :
          ∃ b, OpenBlocker db orgId history id t b ∧ b.id = other := by
        rcases List.mem_cons.mp hmem with rfl | hmem
        · exact ⟨b, hb, hbid.trans hfirst⟩
        · exact ((hothers other).mp hmem).1
      have hsub : first :: others ⊆ first :: rest := fun other hmem => by
        obtain ⟨b', hb', rfl⟩ := hopen other hmem
        exact hall ▸ hb'.mem_ids hrec
      have hsize : (first :: rest).length ≤ (first :: others).length := by
        have hcount := hw.others
        rw [hall] at hcount
        simp only [List.length_cons] at *
        omega
      have hperm := (List.subperm_of_subset hcounted hsub).perm_of_length_le hsize
      exact ⟨hperm.nodup_iff.mp hcounted, fun other hmem => hopen other (hperm.mem_iff.mpr hmem)⟩
  refine ⟨fun b hlinked hnot => ?_, fun b hb link hlink link' hlink' hblocks ht hblocks' ht' => ?_⟩
  · have hunread : ¬ readOpen db orgId t b = true := fun hread => by
      obtain ⟨b', hb', hid⟩ := hright.2 b.id (mem_applicableIds.mpr ⟨b, hlinked, hread, rfl⟩)
      rw [List.inj_on_of_nodup_map db.itemIds hb'.1.1 hlinked.1 hid] at hb'
      exact hnot hb'.2
    rw [readOpen_iff hrec hlinked.1 hlinked.2.1, not_or] at hunread
    exact hunread.2
  · have hread := (readOpen_iff hrec hb.1.1 hb.1.2.1).mpr (.inl hb.2)
    refine List.inj_on_of_nodup_map hright.1
      (mem_applicableLinks.mpr ⟨hlink, ht, b, hb.1.1, hb.1.2.1, hblocks, hread⟩)
      (mem_applicableLinks.mpr ⟨hlink', ht', b, hb.1.1, hb.1.2.1, hblocks', hread⟩) ?_
    exact (blocks_iff.mp hblocks).2.2.trans (blocks_iff.mp hblocks').2.2.symm

/-- A wait is attributed rightly if and only if every blocker that was closed
when it began stays as it was, and every open one is linked once. -/
theorem attributed_iff (hrec : Recorded db orgId history) {items : List WorkItem} {item : WorkItem} {now : Millis}
    {visit : StateInterval} {w : WaitAttribution} (h : ReportedWait db orgId items item now visit w) :
    Attributed db orgId history item.id visit.start w ↔
      StaysClosed db orgId history item.id visit.start ∧ LinkedOnce db orgId history item.id visit.start := by
  have hshows : Shows (applicableIds db orgId item.id visit.start) w := by
    obtain ⟨windowFrom, windowTo, piece, hclip, hw⟩ := h.shown
    have horder : InOrder StateInterval.start StateInterval.stop
        (builtHistory (flowContext db orgId items) item now).intervals := buildIntervals_inOrder _ _ _ _ _
    rw [scoreInterval_piece _ item horder h.visited hclip] at hw
    have hentered := enteredAt_piece horder h.visited rfl (le_refl _) (horder.positive visit h.visited) (le_refl _)
    have hblockers : (flowContext db orgId items).blockers item.id = blockersOf db orgId item.id :=
      loadBlockers_eq (List.mem_map_of_mem h.considered)
    unfold scoreInterval at hw
    obtain ⟨-, hw⟩ := Option.ite_none_right_eq_some.mp hw
    rw [hblockers, h.unexplained, hentered] at hw
    obtain rfl := Option.some.inj hw
    exact attribution_shows _ db orgId item.id visit.start
  exact ⟨of_attributed hrec hshows, fun ⟨hclosed, honce⟩ => attributed_of hrec hclosed honce hshows⟩

end

/-! ## A blocker that was reopened -/

def ledgerMove (id : Uuid) (item : Uuid) (fromState toState : String) (t : Millis) : AuditRow :=
  ⟨id, "WorkItemStateChanged", item, .obj [("from_state", .str fromState), ("to_state", .str toState)], t⟩

def reopenedItem : WorkItem := { ledgerStory with id := 2, itemKey := "STORY-2", status := "Reopened" }

def reviewedItem : WorkItem := { ledgerStory with status := "In Review" }

/-- A story goes to review at 20. Its blocker was closed at 10 and reopened at
30. -/
def reopenedDb : FlowDb where
  items := [reviewedItem, reopenedItem]
  itemIds := by decide
  audit := [ledgerMove 1 2 "Verified" "Closed" 10, ledgerMove 2 1 "In Progress" "In Review" 20,
    ledgerMove 3 2 "Closed" "Reopened" 30]
  auditIds := by decide
  links := [⟨1, 1, 2, .blockedBy, 5⟩]
  linkIds := by decide
  classifications _ := [⟨none, "In Review", .waiting, some "approval", 1⟩]
  policies := []
  definitions := []
  pick := 0
  teams := []

def reopenedHistory (id : Uuid) : ItemHistory :=
  if id = 1 then ⟨0, "In Progress", [(20, "In Review")], by decide⟩
  else ⟨0, "Verified", [(10, "Closed"), (30, "Reopened")], by decide⟩

def ledgerReview : StateInterval := ⟨"In Review", 20, 40, true, none⟩

def reopenedBlame : WaitAttribution := ⟨"dependency", .blockingLink, none, some ⟨2, "STORY-2", 1, none⟩, 0⟩

theorem reopened_recorded : Recorded reopenedDb 1 reopenedHistory := by
  unfold Recorded
  decide

theorem reopened_reported : ReportedWait reopenedDb 1 [reviewedItem] reviewedItem 40 ledgerReview reopenedBlame where
  considered := List.mem_singleton_self _
  visited := by decide
  unexplained := rfl
  shown := ⟨none, none, ledgerReview, by decide, by decide⟩

theorem attributed_reopened :
    Attributed reopenedDb 1 reopenedHistory 1 20 reopenedBlame ↔
      StaysClosed reopenedDb 1 reopenedHistory 1 20 ∧ LinkedOnce reopenedDb 1 reopenedHistory 1 20 :=
  attributed_iff reopened_recorded reopened_reported

/-- The review is blamed on a story that was closed when it began. -/
theorem blamed_after_reopening : ¬ ∀ (db : FlowDb) (orgId : Uuid) (history : Uuid → ItemHistory),
    Recorded db orgId history → ∀ items item now visit w, ReportedWait db orgId items item now visit w →
      Attributed db orgId history item.id visit.start w := by
  intro h
  have hblamed := (h _ _ _ reopened_recorded _ _ _ _ _ reopened_reported).blamed.mp rfl
  obtain ⟨b, ⟨hb, -, link, hlink, hblocks, -⟩, hopen⟩ := hblamed
  obtain rfl := List.mem_singleton.mp hlink
  have hid : b.id = 2 := by
    rcases hblocks with ⟨htype, -⟩ | ⟨-, -, htarget⟩
    · cases htype
    · exact htarget.symm
  rcases List.mem_cons.mp hb with rfl | hb
  · cases hid
  · obtain rfl := List.mem_singleton.mp hb
    exact hopen (by decide)

end Cadena.Flow
