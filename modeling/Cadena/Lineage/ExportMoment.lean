import Cadena.Base.Observation
import Cadena.Lineage.LineageExport

/-!
# The moment of a lineage export

A report shows the links as they were at some moment of the export exactly if no
link that the walk misses was inserted before one that it finds.
-/

namespace Cadena.Lineage

open Cadena.Base Cadena.WorkItems GrowingSearch

def linkEnds (link : WorkItemLink) : Uuid × Uuid := (link.sourceId, link.targetId)

/-- The items and links of the report are the component of its root, and the
links inside it, in the link graph of the tenant. -/
def Shows (s : LineageState) (report : LineageExportDocument) : Prop :=
  IsComponent linkEnds (tenantLinks s.items report.orgId s.links.rows) report.rootWorkItemId
    (report.nodes.map (·.id)) report.edges

def exportStatement (exporting : ExportCall) : LineageAction → Option (Event Uuid WorkItemLink)
  | .explore =>
    match exporting with
    | .exploring _ _ ⟨_, currentId :: _, _⟩ => some (.asked currentId)
    | _ => none
  | _ => none

/-- A link of the tenant is inserted, or the links of an item are asked for. -/
def statement (orgId : Uuid) (s : LineageState) : LineageAction → Option (Event Uuid WorkItemLink)
  | .insertLink call =>
    match s.creating call with
    | some (.inserting link) =>
      if link.id ∉ s.links.rows.map (·.id) ∧ ofTenant s.items orgId link.sourceId = true ∧
          ofTenant s.items orgId link.targetId = true then
        some (.added link)
      else none
    | _ => none
  | action => exportStatement s.exporting action

/-- The insertions and the queries of a run, in order. -/
def statements (orgId : Uuid) (s : LineageState) (acts : List LineageAction) : List (Event Uuid WorkItemLink) :=
  lineageSystem.observe (fun s a _ => statement orgId s a) s acts

section
variable {items : Uuid → Option LineageItem} {orgId currentId : Uuid} {rows : List WorkItemLink}

variable {link : WorkItemLink}

theorem touches_linkEnds {id : Uuid} : Touches linkEnds link id ↔ link.sourceId = id ∨ link.targetId = id := Iff.rfl

theorem mem_tenantLinks : link ∈ tenantLinks items orgId rows ↔
      link ∈ rows ∧ ofTenant items orgId link.sourceId = true ∧ ofTenant items orgId link.targetId = true := by
  simp [tenantLinks]

theorem mem_linksOf : link ∈ linksOf items orgId rows currentId ↔
      link ∈ tenantLinks items orgId rows ∧ Touches linkEnds link currentId := by
  simp [linksOf, touches_linkEnds, List.mem_insertionSort]

theorem tenantLinks_touches {id : Uuid} (h : link ∈ tenantLinks items orgId rows)
    (htouch : Touches linkEnds link id) : ofTenant items orgId id = true := by
  obtain ⟨-, hsource, htarget⟩ := mem_tenantLinks.mp h
  rcases htouch with rfl | rfl
  · exact hsource
  · exact htarget

theorem connectedId_touches (link : WorkItemLink) : Touches linkEnds link (connectedId currentId link) := by
  unfold connectedId
  split
  · exact .inr rfl
  · exact .inl rfl

theorem touches_cases {id : Uuid} (hcurrent : Touches linkEnds link currentId)
    (h : Touches linkEnds link id) : id = currentId ∨ connectedId currentId link = id := by
  unfold connectedId
  split
  · rename_i hsource
    rcases h with rfl | htarget
    · exact .inl hsource
    · exact .inr htarget
  · rename_i hsource
    rcases h with hid | rfl
    · exact .inr hid
    · exact .inl (hcurrent.resolve_left hsource)

end

/-! ## One query of the walk -/

/-- What the inner loop makes of the rows of a query. -/
structure Visits (currentId : Uuid) (walk : Walk) (links : List WorkItemLink) (next : Walk) : Prop where
  nodes : ∀ id, id ∈ next.orderedNodeIds ↔
    id ∈ walk.orderedNodeIds ∨ ∃ link ∈ links, connectedId currentId link = id
  kept : ∀ id ∈ walk.queue, id ∈ next.queue
  queued : ∀ id ∈ next.orderedNodeIds, id ∈ walk.orderedNodeIds ∨ id ∈ next.queue
  known : ∀ id ∈ next.queue, id ∈ walk.queue ∨ id ∈ next.orderedNodeIds
  edges : ∀ link, link ∈ next.edges ↔ link ∈ walk.edges ∨ link ∈ links

section
variable {currentId : Uuid} {walk : Walk} {link : WorkItemLink}

theorem visitLink_edges (hid : ∀ other ∈ walk.edges, other.id = link.id → other = link) (other : WorkItemLink) :
    other ∈ (visitLink currentId walk link).edges ↔ other ∈ walk.edges ∨ other = link := by
  have hedges : (visitLink currentId walk link).edges =
      if link.id ∈ walk.edges.map (·.id) then walk.edges else walk.edges ++ [link] := by
    simp only [visitLink]
    split <;> rfl
  rw [hedges]
  split
  · rename_i hthere
    obtain ⟨found, hfound, hsame⟩ := List.mem_map.mp hthere
    refine ⟨.inl, ?_⟩
    rintro (h | rfl)
    · exact h
    · exact hid found hfound hsame ▸ hfound
  · rw [List.mem_append, List.mem_singleton]

theorem visitLink_visits (hid : ∀ other ∈ walk.edges, other.id = link.id → other = link) :
    Visits currentId walk [link] (visitLink currentId walk link) := by
  have hedges : ∀ other, other ∈ (visitLink currentId walk link).edges ↔ other ∈ walk.edges ∨ other ∈ [link] := by
    intro other
    rw [visitLink_edges hid, List.mem_singleton]
  by_cases hknown : connectedId currentId link ∈ walk.orderedNodeIds
  · have hnodes : (visitLink currentId walk link).orderedNodeIds = walk.orderedNodeIds := by
      simp only [visitLink, if_pos hknown]
    have hqueue : (visitLink currentId walk link).queue = walk.queue := by
      simp only [visitLink, if_pos hknown]
    refine ⟨fun id => ?_, fun id hmem => hqueue ▸ hmem, fun id hmem => .inl (hnodes ▸ hmem),
      fun id hmem => .inl (hqueue ▸ hmem), hedges⟩
    rw [hnodes]
    refine ⟨.inl, ?_⟩
    rintro (h | ⟨other, hother, rfl⟩)
    · exact h
    · exact List.mem_singleton.mp hother ▸ hknown
  · have hnodes : (visitLink currentId walk link).orderedNodeIds =
        walk.orderedNodeIds ++ [connectedId currentId link] := by
      simp only [visitLink, if_neg hknown]
    have hqueue : (visitLink currentId walk link).queue = walk.queue ++ [connectedId currentId link] := by
      simp only [visitLink, if_neg hknown]
    refine ⟨fun id => ?_, fun id hmem => ?_, fun id hmem => ?_, fun id hmem => ?_, hedges⟩
    · simp only [hnodes, List.mem_append, List.mem_singleton, exists_eq_left]
      exact or_congr_right eq_comm
    · rw [hqueue]
      exact List.mem_append_left _ hmem
    · rw [hnodes] at hmem
      exact (List.mem_append.mp hmem).imp_right fun h => hqueue ▸ List.mem_append_right _ h
    · rw [hqueue] at hmem
      exact (List.mem_append.mp hmem).imp_right fun h => hnodes ▸ List.mem_append_right _ h

theorem Visits.trans {links : List WorkItemLink} {mid next : Walk} (h : Visits currentId walk [link] mid)
    (hrest : Visits currentId mid links next) : Visits currentId walk (link :: links) next where
  nodes id := by
    rw [hrest.nodes, h.nodes]
    simp [or_assoc]
  kept id hid := hrest.kept id (h.kept id hid)
  queued id hid := by
    rcases hrest.queued id hid with hmid | hqueue
    · exact (h.queued id hmid).imp_right (hrest.kept id)
    · exact .inr hqueue
  known id hid := by
    rcases hrest.known id hid with hmid | hnodes
    · exact (h.known id hmid).imp_right fun hnodes => (hrest.nodes id).mpr (.inl hnodes)
    · exact .inr hnodes
  edges other := by
    rw [hrest.edges, h.edges]
    simp [or_assoc]

theorem visitLinks_visits {rows links : List WorkItemLink} (hunique : (rows.map (·.id)).Nodup)
    (hlinks : ∀ link ∈ links, link ∈ rows) (hedges : ∀ link ∈ walk.edges, link ∈ rows) :
    Visits currentId walk links (visitLinks currentId walk links) := by
  induction links generalizing walk with
  | nil =>
    refine ⟨fun id => ?_, fun id hid => hid, fun id hid => .inl hid, fun id hid => .inl hid, fun link => ?_⟩
    · simp [visitLinks]
    · simp [visitLinks]
  | cons link links ih =>
    have hfirst : Visits currentId walk [link] (visitLink currentId walk link) := by
      refine visitLink_visits fun other hother hsame => ?_
      exact List.inj_on_of_nodup_map hunique (hedges other hother) (hlinks link List.mem_cons_self) hsame
    refine hfirst.trans (ih (fun other hother => hlinks other (List.mem_cons_of_mem _ hother)) fun other hother => ?_)
    rcases (hfirst.edges other).mp hother with hold | hnew
    · exact hedges other hold
    · rw [List.mem_singleton.mp hnew]
      exact hlinks link List.mem_cons_self

end

/-! ## The export under way -/

/-- The stage of an export, when the events have happened to the links of the
tenant that were there at its request. -/
inductive Progress (request : ExportRequest) (items : Uuid → Option LineageItem) (start : List WorkItemLink)
    (events : List (Event Uuid WorkItemLink)) : ExportCall → Prop where
  | notFound (workItemId : Uuid) : Progress request items start events (.notFound workItemId)
  | exploring {root : LineageItem} {walk : Walk}
      (explored : Explored linkEnds request.workItemId start events walk.orderedNodeIds walk.queue walk.edges)
      (tenant : ∀ id ∈ walk.orderedNodeIds, ofTenant items request.orgId id = true) :
      Progress request items start events (.exploring request root walk)
  | reading {root : LineageItem} {left : List Uuid} {nodes : List ExportNode} {edges : List WorkItemLink}
      (explored : Explored linkEnds request.workItemId start events (nodes.map (·.id) ++ left) [] edges)
      (tenant : ∀ id ∈ left, ofTenant items request.orgId id = true) :
      Progress request items start events (.reading request root left nodes edges)
  | stored (report : LineageExportDocument) : Progress request items start events (.stored report)

/-- The links of the tenant are those at the request and those added since, and
the export has come as far as the events have led it. -/
structure Exporting (request : ExportRequest) (items : Uuid → Option LineageItem) (start : List WorkItemLink)
    (s : LineageState) (events : List (Event Uuid WorkItemLink)) : Prop where
  items_eq : s.items = items
  links : edgesAfter start events = tenantLinks items request.orgId s.links.rows
  progress : Progress request items start events s.exporting

section
variable {request : ExportRequest} {items : Uuid → Option LineageItem} {start : List WorkItemLink}
  {events : List (Event Uuid WorkItemLink)} {s t : LineageState}

theorem Progress.added {exporting : ExportCall} (h : Progress request items start events exporting)
    (link : WorkItemLink) : Progress request items start (events ++ [.added link]) exporting := by
  cases h with
  | notFound => exact .notFound _
  | exploring explored tenant => exact .exploring (explored.added link) tenant
  | reading explored tenant => exact .reading (explored.added link) tenant
  | stored => exact .stored _

theorem found_mem {root : Uuid} {visited queue : List Uuid} {found : List WorkItemLink}
    (h : Explored linkEnds root start events visited queue found) {link : WorkItemLink} (hlink : link ∈ found) :
    link ∈ edgesAfter start events := by
  obtain ⟨before, id, after, rfl, hmem, -⟩ := (h.seen link).mp hlink
  rw [edgesAfter_append]
  exact List.mem_append_left _ hmem

theorem Progress.next {rows : List WorkItemLink} {root : LineageItem} {currentId : Uuid}
    {orderedNodeIds queue : List Uuid} {edges : List WorkItemLink} (hunique : (rows.map (·.id)).Nodup)
    (hlinks : edgesAfter start events = tenantLinks items request.orgId rows)
    (h : Explored linkEnds request.workItemId start events orderedNodeIds (currentId :: queue) edges)
    (htenant : ∀ id ∈ orderedNodeIds, ofTenant items request.orgId id = true) :
    Progress request items start (events ++ [.asked currentId])
      (nextExport request root
        (visitLinks currentId ⟨orderedNodeIds, queue, edges⟩ (linksOf items request.orgId rows currentId))) := by
  have hrows : ∀ link ∈ tenantLinks items request.orgId rows, link ∈ rows := fun link hlink =>
    (mem_tenantLinks.mp hlink).1
  generalize hnext : visitLinks currentId ⟨orderedNodeIds, queue, edges⟩
    (linksOf items request.orgId rows currentId) = next
  have hvisits : Visits currentId ⟨orderedNodeIds, queue, edges⟩ (linksOf items request.orgId rows currentId) next :=
    hnext ▸ visitLinks_visits hunique (fun link hlink => hrows link (mem_linksOf.mp hlink).1)
      fun link hlink => hrows link (hlinks ▸ found_mem h hlink)
  have hcurrent : currentId ∈ orderedNodeIds := h.queued currentId List.mem_cons_self
  have hexplored : Explored linkEnds request.workItemId start (events ++ [.asked currentId]) next.orderedNodeIds
      next.queue next.edges := by
    refine h.ask List.mem_cons_self (fun link => ?_) (fun id => ?_) (fun id hid => ?_) hvisits.queued fun id hid => ?_
    · rw [hlinks, hvisits.edges, mem_linksOf]
    · rw [hlinks, hvisits.nodes]
      constructor
      · rintro (hold | ⟨link, hlink, rfl⟩)
        · exact .inl hold
        · obtain ⟨hmem, htouch⟩ := mem_linksOf.mp hlink
          exact .inr ⟨link, hmem, htouch, connectedId_touches link⟩
      · rintro (hold | ⟨link, hmem, htouch, hid⟩)
        · exact .inl hold
        · rcases touches_cases htouch hid with rfl | hconnected
          · exact .inl hcurrent
          · exact .inr ⟨link, mem_linksOf.mpr ⟨hmem, htouch⟩, hconnected⟩
    · exact (List.mem_cons.mp hid).imp_right (hvisits.kept id)
    · rcases hvisits.known id hid with hold | hnode
      · exact (hvisits.nodes id).mpr (.inl (h.queued id (List.mem_cons_of_mem _ hold)))
      · exact hnode
  have htenant' : ∀ id ∈ next.orderedNodeIds, ofTenant items request.orgId id = true := by
    intro id hid
    rcases (hvisits.nodes id).mp hid with hold | ⟨link, hlink, rfl⟩
    · exact htenant id hold
    · exact tenantLinks_touches (mem_linksOf.mp hlink).1 (connectedId_touches link)
  unfold nextExport
  split
  · rename_i hempty
    rw [hempty] at hexplored
    exact .reading hexplored htenant'
  · exact .exploring hexplored htenant'

theorem Progress.step {rows : List WorkItemLink} {exporting next : ExportCall} {a : LineageAction}
    (hunique : (rows.map (·.id)).Nodup) (hlinks : edgesAfter start events = tenantLinks items request.orgId rows)
    (h : Progress request items start events exporting) (hstep : exportStep items rows exporting a = some next) :
    Progress request items start (events ++ (exportStatement exporting a).toList) next := by
  cases h with
  | notFound | stored => cases a <;> cases hstep
  | @exploring root walk explored tenant =>
    obtain ⟨orderedNodeIds, queue, edges⟩ := walk
    cases queue with
    | nil => cases a <;> cases hstep
    | cons currentId queue =>
      cases a with
      | explore =>
        cases hstep
        exact Progress.next hunique hlinks explored tenant
      | createLink | readSource | readTarget | insertLink | requestExport | readNode | store => cases hstep
  | @reading root left nodes edges explored tenant =>
    cases left with
    | nil =>
      cases a with
      | store exportId now =>
        cases hstep
        exact .stored _
      | createLink | readSource | readTarget | insertLink | requestExport | explore | readNode => cases hstep
    | cons id left =>
      cases a with
      | readNode =>
        obtain ⟨item, hitem⟩ := Option.isSome_iff_exists.mp (tenant id List.mem_cons_self)
        simp only [exportStep, hitem] at hstep
        cases hstep
        refine .reading ?_ fun other hother => tenant other (List.mem_cons_of_mem _ hother)
        simpa [exportStatement, exportNode] using explored
      | createLink | readSource | readTarget | insertLink | requestExport | explore | store => cases hstep

/-! ## The steps -/

theorem tenantLinks_append (rows : List WorkItemLink) (link : WorkItemLink) (orgId : Uuid) :
    tenantLinks items orgId (rows ++ [link]) =
      tenantLinks items orgId rows ++
        if ofTenant items orgId link.sourceId && ofTenant items orgId link.targetId then [link] else [] := by
  rw [tenantLinks, List.filter_append, List.filter_singleton, cond_eq_ite]
  rfl

theorem LinkTable.insert_rows (links : LinkTable) (link : WorkItemLink) :
    ((links.insert link).getD links).rows =
      if link.id ∈ links.rows.map (·.id) then links.rows else links.rows ++ [link] := by
  unfold LinkTable.insert
  split <;> rfl

theorem Exporting.insert (h : Exporting request items start s events) {call : Nat}
    (hstep : lineageStep s (.insertLink call) = some t) :
    Exporting request items start t (events ++ (statement request.orgId s (.insertLink call)).toList) := by
  simp only [lineageStep] at hstep
  split at hstep
  · rename_i link hcall
    cases hstep
    simp only [statement, hcall]
    by_cases hthere : link.id ∈ s.links.rows.map (·.id)
    · rw [if_neg fun hnew => hnew.1 hthere]
      refine ⟨h.items_eq, ?_, ?_⟩
      · simp only [Option.toList_none, List.append_nil, LinkTable.insert_rows, if_pos hthere]
        exact h.links
      · simpa using h.progress
    · have hrows : ((s.links.insert link).getD s.links).rows = s.links.rows ++ [link] := by
        rw [LinkTable.insert_rows, if_neg hthere]
      by_cases hours : ofTenant s.items request.orgId link.sourceId = true ∧
          ofTenant s.items request.orgId link.targetId = true
      · rw [if_pos ⟨hthere, hours⟩]
        refine ⟨h.items_eq, ?_, h.progress.added link⟩
        simp only [Option.toList_some, hrows]
        rw [edgesAfter_append, h.links, tenantLinks_append, ← h.items_eq, hours.1, hours.2]
        rfl
      · rw [if_neg fun hnew => hours hnew.2]
        have hfalse : (ofTenant items request.orgId link.sourceId && ofTenant items request.orgId link.targetId) =
            false := by
          rw [← h.items_eq]
          simpa using hours
        refine ⟨h.items_eq, ?_, by simpa using h.progress⟩
        simp only [Option.toList_none, List.append_nil, hrows]
        rw [h.links, tenantLinks_append, hfalse]
        simp
  · cases hstep

theorem Exporting.export (h : Exporting request items start s events) {a : LineageAction} {exporting : ExportCall}
    (hstep : exportStep s.items s.links.rows s.exporting a = some exporting) :
    Exporting request items start { s with exporting := exporting }
      (events ++ (exportStatement s.exporting a).toList) := by
  rw [h.items_eq] at hstep
  refine ⟨h.items_eq, ?_, h.progress.step s.links.unique h.links hstep⟩
  have hno : (exportStatement s.exporting a).toList.filterMap Event.edge? = [] := by
    unfold exportStatement
    split
    · split <;> rfl
    · rfl
  rw [edgesAfter_append, hno, List.append_nil]
  exact h.links

theorem Exporting.step (h : Exporting request items start s events) {a : LineageAction}
    (hstep : lineageStep s a = some t) :
    Exporting request items start t (events ++ (statement request.orgId s a).toList) := by
  have hcreating : ∀ creating, Exporting request items start { s with creating := creating } (events ++ []) := by
    intro creating
    rw [List.append_nil]
    exact ⟨h.items_eq, h.links, h.progress⟩
  cases a with
  | createLink call linkRequest =>
    simp only [lineageStep] at hstep
    split at hstep <;> cases hstep
    exact hcreating _
  | readSource call =>
    simp only [lineageStep] at hstep
    split at hstep <;> cases hstep
    exact hcreating _
  | readTarget call linkId now =>
    simp only [lineageStep] at hstep
    split at hstep <;> cases hstep
    exact hcreating _
  | insertLink call => exact h.insert hstep
  | requestExport | explore | readNode | store =>
    obtain ⟨exporting, hexport, rfl⟩ := Option.map_eq_some_iff.mp hstep
    exact h.export hexport

end

/-! ## The report -/

section
variable {request : ExportRequest} {s t u : LineageState} {exportId : Uuid} {now : Millis}
  {report : LineageExportDocument}

variable {items : Uuid → Option LineageItem}

theorem exportStep_request {rows : List WorkItemLink}
    {exporting next : ExportCall} (h : exportStep items rows exporting (.requestExport request) = some next) :
    exporting = .idle := by
  unfold exportStep at h
  split at h
  · rfl
  · rename_i hact
    cases hact
  · rename_i hact
    cases hact
  · rename_i hact
    cases hact
  · cases h

theorem exportStep_store {rows : List WorkItemLink} {exporting next : ExportCall}
    (h : exportStep items rows exporting (.store exportId now) = some next) :
    ∃ request root nodes edges, exporting = .reading request root [] nodes edges ∧
      next = .stored (lineageReport request root nodes edges exportId now) := by
  unfold exportStep at h
  split at h
  · rename_i hact
    cases hact
  · rename_i hact
    cases hact
  · rename_i hact
    cases hact
  · rename_i hact
    cases hact
    exact ⟨_, _, _, _, rfl, (Option.some.inj h).symm⟩
  · cases h

theorem Exporting.begin (hstep : lineageStep s (.requestExport request) = some t) :
    Exporting request s.items (tenantLinks s.items request.orgId s.links.rows) t [] := by
  obtain ⟨exporting, hexport, rfl⟩ := Option.map_eq_some_iff.mp hstep
  refine ⟨rfl, edgesAfter_nil _, ?_⟩
  rw [exportStep_request hexport] at hexport
  simp only [exportStep] at hexport
  split at hexport
  · cases hexport
    exact .notFound _
  · rename_i root hroot
    cases hexport
    refine .exploring (Explored.begin _ _) fun id hid => ?_
    rw [List.mem_singleton.mp hid, ofTenant, hroot]
    rfl

theorem Exporting.finish {start : List WorkItemLink}
    {events : List (Event Uuid WorkItemLink)} (h : Exporting request items start u events)
    (hstep : lineageStep u (.store exportId now) = some t) (hreport : t.exporting = .stored report) :
    Explored linkEnds request.workItemId start events (report.nodes.map (·.id)) [] report.edges ∧
      report.rootWorkItemId = request.workItemId ∧ report.orgId = request.orgId := by
  obtain ⟨exporting, hexport, rfl⟩ := Option.map_eq_some_iff.mp hstep
  obtain ⟨request', root, nodes, edges, hold, rfl⟩ := exportStep_store hexport
  have hprogress := h.progress
  rw [hold] at hprogress
  cases hprogress with
  | reading explored tenant =>
    cases hreport
    rw [List.append_nil] at explored
    exact ⟨explored, rfl, rfl⟩

theorem Exporting.shows {start : List WorkItemLink}
    {events : List (Event Uuid WorkItemLink)} (h : Exporting request items start u events)
    (hroot : report.rootWorkItemId = request.workItemId) (horg : report.orgId = request.orgId) :
    Shows u report ↔ IsComponent linkEnds (edgesAfter start events) request.workItemId
      (report.nodes.map (·.id)) report.edges := by
  rw [Shows, h.items_eq, hroot, horg, h.links]

/-- **A stored report shows the link graph of some moment** between the request
and its storing exactly if the insertions and queries are in order. -/
theorem export_existed_iff {during : List LineageAction}
    (hrun : lineageSystem.run s (.requestExport request :: during ++ [.store exportId now]) = some t)
    (hreport : t.exporting = .stored report) :
    (∃ before after u, during = before ++ after ∧
      lineageSystem.run s (.requestExport request :: before) = some u ∧ Shows u report) ↔
      inOrder linkEnds [] (statements request.orgId s (.requestExport request :: during)) = true := by
  obtain ⟨last, hlast, hstore⟩ := lineageSystem.run_append.mp hrun
  obtain ⟨requested, hrequest, hduring⟩ := lineageSystem.run_cons.mp hlast
  obtain ⟨_, hstored, hend⟩ := lineageSystem.run_cons.mp hstore
  obtain rfl := Option.some.inj hend
  have hbegin := Exporting.begin hrequest
  have hreach : ∀ {acts v}, lineageSystem.run requested acts = some v →
      Exporting request s.items (tenantLinks s.items request.orgId s.links.rows) v
        (statements request.orgId requested acts) := fun hv =>
    System.observe_invariant (M := lineageSystem) (fun h hstep => h.step hstep) hbegin hv
  obtain ⟨hexplored, hroot, horg⟩ := (hreach hduring).finish hstored hreport
  have hnodup : (edgesAfter (tenantLinks s.items request.orgId s.links.rows)
      (statements request.orgId requested during)).Nodup := by
    rw [(hreach hduring).links]
    exact (last.links.unique.of_map _).filter _
  have hsame : statements request.orgId s (.requestExport request :: during) =
      statements request.orgId requested during := System.observe_cons hrequest
  rw [hsame, ← existed_iff hexplored hnodup]
  constructor
  · rintro ⟨before, after, v, rfl, hv, hshows⟩
    obtain ⟨_, hrequest', hbefore⟩ := lineageSystem.run_cons.mp hv
    obtain rfl := Option.some.inj (hrequest.symm.trans hrequest')
    refine ⟨statements request.orgId requested before, statements request.orgId v after,
      System.observe_append hbefore, ?_⟩
    exact ((hreach hbefore).shows hroot horg).mp hshows
  · rintro ⟨first, rest, hsplit, hcomponent⟩
    obtain ⟨before, after, v, rfl, hv, hfirst⟩ := System.exists_of_observe_append hduring hsplit
    refine ⟨before, after, v, rfl, lineageSystem.run_cons.mpr ⟨requested, hrequest, hv⟩, ?_⟩
    have hfirst' : statements request.orgId requested before = first := hfirst
    exact ((hreach hv).shows hroot horg).mpr (hfirst' ▸ hcomponent)

end

/-! ## Links inserted during a walk -/

def story (n : Nat) : LineageItem :=
  ⟨7, "CAD-" ++ toString n, .story, "Story", "open", 0, 0⟩

def relates (id source target : Uuid) (now : Millis) : WorkItemLink := ⟨id, source, target, .relatesTo, now⟩

/-- Four stories, and a link between the first two. -/
def linked : LineageState where
  items id := if id.toNat ∈ [1, 2, 3, 4] then some (story id.toNat) else none
  links := ⟨[relates 11 1 2 0], by decide⟩
  creating _ := none
  exporting := .idle

def linking (call : Nat) (link : WorkItemLink) : List LineageAction :=
  [.createLink call ⟨link.sourceId, link.targetId, link.linkType, some 7⟩, .readSource call,
    .readTarget call link.id link.createdAt, .insertLink call]

def exportOf : ExportRequest := ⟨1, 7, "user-1"⟩

def afterExport (acts : List LineageAction) : Option LineageState :=
  lineageSystem.run linked (.requestExport exportOf :: acts)

/-- The root of a report with its tenant, the ids of the items, and the links. -/
def reported (s : LineageState) : Option ((Uuid × Uuid) × List Uuid × List WorkItemLink) :=
  match s.exporting with
  | .stored report => some ((report.rootWorkItemId, report.orgId), report.nodes.map (·.id), report.edges)
  | _ => none

/-- A link of the root that the walk has left behind, and then one of the item
that it asks for next. -/
def overtaken : List LineageAction :=
  [.explore] ++ linking 0 (relates 12 1 3 10) ++ linking 1 (relates 13 2 4 20) ++
    [.explore, .explore, .readNode, .readNode, .readNode]

def linkThere (s : LineageState) (link : WorkItemLink) : Bool := link ∈ tenantLinks s.items 7 s.links.rows

theorem export_overtaken :
    ¬ ∀ (s t : LineageState) (request : ExportRequest) (during : List LineageAction) (exportId : Uuid)
        (now : Millis) (report : LineageExportDocument),
      lineageSystem.run s (.requestExport request :: during ++ [.store exportId now]) = some t →
      t.exporting = .stored report →
      ∃ before after u, during = before ++ after ∧
        lineageSystem.run s (.requestExport request :: before) = some u ∧ Shows u report := by
  intro h
  have hends : (afterExport (overtaken ++ [.store 99 30])).bind reported =
      some ((1, 7), [1, 2, 4], [relates 11 1 2 0, relates 13 2 4 20]) := by decide
  obtain ⟨t, ht, hreported⟩ := Option.bind_eq_some_iff.mp hends
  cases hstored : t.exporting with
  | idle | notFound | exploring | reading => simp [reported, hstored] at hreported
  | stored report =>
    simp only [reported, hstored, Option.some.injEq, Prod.mk.injEq] at hreported
    obtain ⟨⟨hroot, horg⟩, hnodes, hedges⟩ := hreported
    obtain ⟨before, after, u, hsplit, hu, hshows⟩ := h linked t exportOf overtaken 99 30 report ht hstored
    -- wherever the later link is there, the earlier one is too
    have hboth : ∀ n < 15, (afterExport (overtaken.take n)).all (fun s =>
        !linkThere s (relates 13 2 4 20) || linkThere s (relates 12 1 3 10)) = true := by decide
    have hbefore : overtaken.take before.length = before := by rw [hsplit, List.take_left]
    have hlength : before.length < 15 := by
      have hall : overtaken.length = 14 := rfl
      rw [hsplit, List.length_append] at hall
      omega
    have hthere := hboth before.length hlength
    rw [hbefore, show afterExport before = some u from hu, Option.all_some] at hthere
    have hlater : linkThere u (relates 13 2 4 20) = true := by
      have hmem := ((hshows.edges_iff (relates 13 2 4 20)).mp (hedges ▸ by simp)).1
      rw [horg] at hmem
      exact decide_eq_true hmem
    rw [hlater] at hthere
    have hearlier : relates 12 1 3 10 ∈ tenantLinks u.items report.orgId u.links.rows := by
      rw [horg]
      exact of_decide_eq_true hthere
    have hthird : (3 : Uuid) ∈ report.nodes.map (·.id) := by
      refine (hshows.nodes_iff 3).mpr (Relation.ReflTransGen.single ⟨_, hearlier, ?_, .inr rfl⟩)
      rw [hroot]
      exact .inl rfl
    rw [hnodes] at hthird
    exact absurd hthird (by decide)

/-- Links of the item that is asked for next, and between items not yet found. -/
def ahead : List LineageAction :=
  linking 0 (relates 12 3 4 10) ++ [.explore] ++ linking 1 (relates 13 2 4 20) ++
    [.explore, .explore, .explore, .readNode, .readNode, .readNode, .readNode]

theorem export_existed_ahead :
    ∃ t report before after u, afterExport (ahead ++ [.store 99 30]) = some t ∧ t.exporting = .stored report ∧
      report.edges = [relates 11 1 2 0, relates 13 2 4 20, relates 12 3 4 10] ∧ ahead = before ++ after ∧
      afterExport before = some u ∧ Shows u report := by
  have hends : (afterExport (ahead ++ [.store 99 30])).bind reported =
      some ((1, 7), [1, 2, 4, 3], [relates 11 1 2 0, relates 13 2 4 20, relates 12 3 4 10]) := by decide
  obtain ⟨t, ht, hreported⟩ := Option.bind_eq_some_iff.mp hends
  cases hstored : t.exporting with
  | idle | notFound | exploring | reading => simp [reported, hstored] at hreported
  | stored report =>
    simp only [reported, hstored, Option.some.injEq, Prod.mk.injEq] at hreported
    obtain ⟨before, after, u, hsplit, hu, hshows⟩ :=
      (export_existed_iff (s := linked) ht hstored).mpr (by decide)
    exact ⟨t, report, before, after, u, ht, hstored, hreported.2.2, hsplit, hu, hshows⟩

end Cadena.Lineage
