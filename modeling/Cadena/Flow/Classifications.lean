import Cadena.Base.Transition
import Cadena.Base.VersionLog
import Cadena.Flow.WaitScore

/-!
# Versioned classifications

`FlowClassificationService`: which states of a tenant or a team are worked,
waiting or blocked. `set` reads the current rows, and a transaction after that
appends a version for each state whose classification changes, with an event.
The rows and the events tell one history, and the resolver of a report gives
its end.
-/

namespace Cadena.Flow

open Cadena.Base Cadena.Connectors Cadena.Audit
open Cadena.Auth (waitReasonCategories)

/-- A row of `flow_state_classifications`. -/
structure StoredClassification extends ClassificationRow where
  orgId : Uuid
  changedBy : String

/-- A team, or the whole tenant, and a state. -/
abbrev ClassifiedScope := Uuid × Option Uuid × String

/-- The unique index has the nil UUID in place of no team. -/
def classificationVersions : VersionLog StoredClassification ClassifiedScope (Uuid × Uuid × String) where
  key r := (r.orgId, r.teamId, r.state)
  index r := (r.orgId, r.teamId.getD 0, r.state)
  version r := r.version
  index_of_key r q h := by
    simp only [Prod.mk.injEq] at h ⊢
    rw [h.1, h.2.1, h.2.2]
    exact ⟨rfl, rfl, rfl⟩

/-- `list`, for one scope or for all of them: `DISTINCT ON` takes the row with the
highest version. -/
def list (rows : List StoredClassification) (orgId : Uuid) (scope : Option (Option Uuid)) :
    List StoredClassification :=
  let found := rows.filter fun r => r.orgId == orgId && scope.all (r.teamId == ·)
  let index := classificationVersions.index
  found.filter fun r => found.all fun q => index q != index r || q.version ≤ r.version

/-! ## What a request asks for -/

/-- A valid entry; `reason` is `none` where the entry leaves it out. -/
structure ClassifiedState where
  state : String
  classification : FlowBucket
  reason : Option (Option String)

def classifications : List (String × FlowBucket) :=
  [("active", .active), ("waiting", .waiting), ("blocked", .blocked), ("unclassified", .unclassified)]

def entryField (entry : Json) (key : String) : Option Json :=
  match entry with
  | .obj fields => lookup fields key
  | _ => none

def readClassification (entry : Json) : Option FlowBucket :=
  match entryField entry "classification" with
  | some (.str s) => classifications.lookup s
  | _ => none

def readDefaultReason (state : String) (entry : Json) : Except String (Option (Option String)) :=
  let invalid := "default_reason for '" ++ state ++ "' must be one of: " ++ ", ".intercalate waitReasonCategories
  match entryField entry "default_reason" with
  | none => .ok none
  | some .null => .ok (some none)
  | some (.str s) => if waitReasonCategories.contains s then .ok (some (some s)) else .error invalid
  | some _ => .error invalid

def readState (parsed : List ClassifiedState) (entry : Json) : Except String ClassifiedState :=
  let state :=
    match entryField entry "state" with
    | some (.str s) => trimString s
    | _ => ""
  if state = "" then .error "every entry needs a non-empty state"
  else
    match readClassification entry with
    | none => .error ("classification for '" ++ state ++ "' must be one of: " ++
        ", ".intercalate (classifications.map (·.1)))
    | some classification =>
      if parsed.any (·.state == state) then .error ("state '" ++ state ++ "' is listed more than once")
      else (readDefaultReason state entry).map (⟨state, classification, ·⟩)

def readStates : List ClassifiedState → List Json → Except String (List ClassifiedState)
  | parsed, [] => .ok parsed
  | parsed, entry :: rest =>
    match readState parsed entry with
    | .error message => .error message
    | .ok state => readStates (parsed ++ [state]) rest

def acceptedStates (states : List Json) : Except String (List ClassifiedState) :=
  if states = [] then .error "states must be a non-empty array"
  else if 200 < states.length then .error "at most 200 states can be classified per request"
  else readStates [] states

/-! ## What a request changes -/

/-- A call of `set` that has read the current rows of its scope. -/
structure SetCall where
  orgId : Uuid
  actorId : String
  teamId : Option Uuid
  parsed : List ClassifiedState
  current : List StoredClassification

/-- A first `unclassified` of the whole tenant has nothing to override. -/
def unchanged (previous : Option StoredClassification) (after : StoredClassification) : Bool :=
  match previous with
  | some p => p.classification == after.classification && p.defaultReason == after.defaultReason
  | none => after.classification == .unclassified && after.defaultReason == none && after.teamId == none

def SetCall.change (call : SetCall) (entry : ClassifiedState) : Option (VersionEntry StoredClassification) :=
  let previous := call.current.find? (·.state == entry.state)
  let after : StoredClassification :=
    { orgId := call.orgId
      teamId := call.teamId
      state := entry.state
      classification := entry.classification
      defaultReason := entry.reason.getD (previous.bind (·.defaultReason))
      version := (previous.map (·.version)).getD 0 + 1
      changedBy := call.actorId }
  if unchanged previous after then none else some ⟨previous, after⟩

/-- The inserts of a transaction: all of them, or the index rejects one. -/
def insertAll (rows : List StoredClassification) :
    List (VersionEntry StoredClassification) → Option (List StoredClassification)
  | [] => some rows
  | e :: rest =>
    let index := classificationVersions.index
    if rows.any fun q => index q == index e.after && q.version == e.after.version then none
    else insertAll (rows ++ [e.after]) rest

/-! ## Interleaved requests -/

/-- `events` are the `FlowClassificationChanged` events. -/
structure ClassificationState where
  rows : List StoredClassification
  events : List (VersionEntry StoredClassification)
  calls : Nat → Option SetCall

/-- A transaction may also fail for reasons of its own. -/
inductive ClassificationAction where
  | read (call : Nat) (orgId : Uuid) (actorId : String) (teamId : Option Uuid) (states : List Json)
  | commit (call : Nat)
  | fail (call : Nat)

/-- The rows of an open transaction hold back an insert that would clash with
them, so that each transaction is one step. -/
def classificationStep (teams : List TeamRow) (s : ClassificationState) :
    ClassificationAction → Option ClassificationState
  | .read c orgId actorId teamId states =>
    match s.calls c, acceptedStates states with
    | some _, _ => none
    | none, .error _ => some s
    | none, .ok parsed =>
      if teamId.all fun id => teams.any fun team => team.id == id && team.orgId == orgId then
        some { s with calls := setAt s.calls c (some ⟨orgId, actorId, teamId, parsed, list s.rows orgId (some teamId)⟩) }
      else some s
  | .commit c =>
    (s.calls c).map fun call =>
      let changes := call.parsed.filterMap call.change
      match insertAll s.rows changes with
      | some rows => ⟨rows, s.events ++ changes, setAt s.calls c none⟩
      | none => { s with calls := setAt s.calls c none }
  | .fail c => (s.calls c).map fun _ => { s with calls := setAt s.calls c none }

def classificationSystem (teams : List TeamRow) : System ClassificationState ClassificationAction :=
  ⟨classificationStep teams⟩

def ClassificationState.start : ClassificationState := ⟨[], [], fun _ => none⟩

/-! ## One history -/

/-- The call has read rows of its scope. -/
def Reads (rows : List StoredClassification) (call : SetCall) : Prop :=
  ∀ p ∈ call.current, p ∈ rows ∧ p.orgId = call.orgId ∧ p.teamId = call.teamId

structure ClassificationInv (s : ClassificationState) : Prop where
  recorded : classificationVersions.Recorded s.rows s.events
  changed : ∀ e ∈ s.events, unchanged e.before e.after = false
  calls : ∀ c call, s.calls c = some call → Reads s.rows call

section
variable {teams : List TeamRow} {s t : ClassificationState} {rows rows' : List StoredClassification}
  {changes log : List (VersionEntry StoredClassification)} {e : VersionEntry StoredClassification}

theorem list_reads (orgId : Uuid) (actorId : String) (teamId : Option Uuid) (parsed : List ClassifiedState) :
    Reads rows ⟨orgId, actorId, teamId, parsed, list rows orgId (some teamId)⟩ := by
  intro p hp
  simpa [list, and_assoc] using (List.mem_filter.mp hp).1

theorem SetCall.change_some {call : SetCall} {entry : ClassifiedState} (hreads : Reads rows call)
    (h : call.change entry = some e) :
    classificationVersions.Follows rows e ∧ unchanged e.before e.after = false := by
  simp only [SetCall.change] at h
  split at h
  · cases h
  · rename_i hchanged
    obtain rfl := Option.some.inj h
    refine ⟨?_, by simpa using hchanged⟩
    cases hprevious : call.current.find? (·.state == entry.state) with
    | none => rfl
    | some p =>
      obtain ⟨hp, horg, hteam⟩ := hreads p (List.mem_of_find?_eq_some hprevious)
      have hstate : p.state = entry.state := by simpa using List.find?_some hprevious
      refine ⟨hp, ?_, rfl⟩
      show (p.orgId, p.teamId, p.state) = (call.orgId, call.teamId, entry.state)
      rw [horg, hteam, hstate]

theorem insertAll_recorded (h : classificationVersions.Recorded rows log)
    (hfollows : ∀ e ∈ changes, classificationVersions.Follows rows e)
    (hinsert : insertAll rows changes = some rows') :
    classificationVersions.Recorded rows' (log ++ changes) ∧ ∀ r ∈ rows, r ∈ rows' := by
  induction changes generalizing rows log with
  | nil =>
    obtain rfl := Option.some.inj hinsert
    exact ⟨(List.append_nil log).symm ▸ h, fun _ hr => hr⟩
  | cons e rest ih =>
    simp only [insertAll] at hinsert
    split at hinsert
    · cases hinsert
    · rename_i hclash
      have hfree : classificationVersions.Free rows e.after := by
        intro q hq hindex hversion
        exact hclash (List.any_eq_true.mpr ⟨q, hq, by
          rw [hindex, beq_self_eq_true, Bool.true_and]
          exact beq_iff_eq.mpr hversion⟩)
      obtain ⟨hrecorded, hgrow⟩ := ih (h.concat (hfollows e List.mem_cons_self) hfree)
        (fun e' he' => (hfollows e' (List.mem_cons_of_mem _ he')).concat) hinsert
      rw [List.append_assoc] at hrecorded
      exact ⟨hrecorded, fun r hr => hgrow r (List.mem_append_left _ hr)⟩

theorem ClassificationInv.setCall (h : ClassificationInv s) {c : Nat} {call : Option SetCall}
    (hcall : ∀ x, call = some x → Reads s.rows x) :
    ClassificationInv { s with calls := setAt s.calls c call } := by
  refine ⟨h.recorded, h.changed, fun c' x hx => ?_⟩
  by_cases hc : c' = c
  · subst hc
    exact hcall x ((setAt_same s.calls c' call).symm.trans hx)
  · exact h.calls c' x ((setAt_other s.calls call hc).symm.trans hx)

theorem ClassificationInv.step (h : ClassificationInv s) {a : ClassificationAction}
    (hstep : classificationStep teams s a = some t) : ClassificationInv t := by
  cases a with
  | read c orgId actorId teamId states =>
    simp only [classificationStep] at hstep
    split at hstep
    · cases hstep
    · cases hstep
      exact h
    · split at hstep <;> cases hstep
      · exact h.setCall fun x hx => Option.some.inj hx ▸ list_reads _ _ _ _
      · exact h
  | commit c =>
    obtain ⟨call, hcall, rfl⟩ := Option.map_eq_some_iff.mp hstep
    have hchange : ∀ e ∈ call.parsed.filterMap call.change,
        classificationVersions.Follows s.rows e ∧ unchanged e.before e.after = false := by
      intro e he
      obtain ⟨entry, -, hentry⟩ := List.mem_filterMap.mp he
      exact SetCall.change_some (h.calls c call hcall) hentry
    dsimp only
    split
    · rename_i rows hinsert
      obtain ⟨hrecorded, hgrow⟩ := insertAll_recorded h.recorded (fun e he => (hchange e he).1) hinsert
      have hnext : ClassificationInv { s with rows := rows, events := s.events ++ call.parsed.filterMap call.change } := by
        refine ⟨hrecorded, fun e he => ?_, fun c' x hx p hp => ?_⟩
        · exact (List.mem_append.mp he).elim (h.changed e) fun he => (hchange e he).2
        · exact (h.calls c' x hx p hp).imp_left (hgrow p)
      exact hnext.setCall fun _ hx => by cases hx
    · exact h.setCall fun _ hx => by cases hx
  | fail c =>
    obtain ⟨call, -, rfl⟩ := Option.map_eq_some_iff.mp hstep
    exact h.setCall fun _ hx => by cases hx

theorem ClassificationInv.run {acts : List ClassificationAction}
    (hrun : (classificationSystem teams).run .start acts = some t) : ClassificationInv t :=
  (classificationSystem teams).run_invariant (fun h hs => h.step hs)
    ⟨⟨.nil, rfl⟩, (fun _ he => by cases he), (fun _ _ hx => by cases hx)⟩ hrun

/-- **The events tell the history of the rows.** However requests interleave, the
versions of each scope and state are 1, 2 and so on in their order; there is one
event for each row, its `before` is the row that the new one replaces, and the
two differ. -/
theorem classifications_recorded {acts : List ClassificationAction}
    (hrun : (classificationSystem teams).run .start acts = some t) :
    (∀ scope, (classificationVersions.rowsOf t.rows scope).map (·.version) =
        List.range' 1 (classificationVersions.rowsOf t.rows scope).length) ∧
      t.events = classificationVersions.entries [] t.rows ∧
      ∀ e ∈ t.events, unchanged e.before e.after = false :=
  have h := ClassificationInv.run hrun
  ⟨h.recorded.numbered.versions, h.recorded.log_eq, h.changed⟩

/-- Two forms are open for the first state of the tenant at the same time, and the
second one is turned away. -/
def formsTogether : List ClassificationAction :=
  let form (state : String) := [Json.obj [("state", .str state), ("classification", .str "waiting")]]
  [.read 0 1 "u" none (form "Review"), .read 1 1 "v" none (form " Review "), .commit 0, .commit 1]

theorem classifications_recorded_together : ∃ t, (classificationSystem []).run .start formsTogether = some t ∧
    t.rows.map (·.changedBy) = ["u"] ∧ t.events = classificationVersions.entries [] t.rows := by
  have hend : ((classificationSystem []).run .start formsTogether).map (·.rows.map (·.changedBy)) = some ["u"] := by
    decide
  obtain ⟨t, ht, hrows⟩ := Option.map_eq_some_iff.mp hend
  exact ⟨t, ht, hrows, (classifications_recorded ht).2.1⟩

/-! ## The resolver -/

theorem mem_list (h : classificationVersions.Numbered rows) {r : StoredClassification} {orgId : Uuid} :
    r ∈ list rows orgId none ↔
      r.orgId = orgId ∧ classificationVersions.latest rows (classificationVersions.key r) = some r := by
  have hmem : r ∈ list rows orgId none ↔ (r ∈ rows ∧ r.orgId = orgId) ∧ ∀ q ∈ rows, q.orgId = orgId →
      classificationVersions.index q = classificationVersions.index r → q.version ≤ r.version := by
    simp [list, imp_iff_not_or]
    tauto
  rw [hmem, h.latest_iff]
  constructor
  · rintro ⟨⟨hr, horg⟩, hmax⟩
    have hle := h.version_le hr
    obtain ⟨q, hq, hkey, hversion⟩ := h.exists_version.mpr ⟨Nat.le_trans hle.1 hle.2, Nat.le_refl _⟩
    have hqorg : q.orgId = orgId := (congrArg Prod.fst hkey).trans horg
    exact ⟨horg, hr, rfl, Nat.le_antisymm hle.2
      (hversion ▸ hmax q hq hqorg (classificationVersions.index_of_key q r hkey))⟩
  · rintro ⟨horg, hr, -, hversion⟩
    refine ⟨⟨hr, horg⟩, fun q hq _ hindex => ?_⟩
    have hle := (h.version_le hq).2
    rw [h.apart q hq r hr hindex, ← hversion] at hle
    exact hle

theorem find_list (h : classificationVersions.Numbered rows) (orgId : Uuid) (teamId : Option Uuid) (state : String) :
    ((list rows orgId none).map (·.toClassificationRow)).reverse.find?
        (fun r => r.teamId == teamId && r.state == state) =
      (classificationVersions.latest rows (orgId, teamId, state)).map (·.toClassificationRow) := by
  rw [← List.map_reverse, List.find?_map]
  refine congrArg _ ?_
  have hfound : ∀ r, r ∈ (list rows orgId none).reverse ∧ (r.teamId == teamId && r.state == state) = true ↔
      classificationVersions.latest rows (orgId, teamId, state) = some r := by
    intro r
    rw [List.mem_reverse, mem_list h, Bool.and_eq_true, beq_iff_eq, beq_iff_eq]
    constructor
    · rintro ⟨⟨rfl, hlatest⟩, rfl, rfl⟩
      exact hlatest
    · intro hlatest
      have hkey : (r.orgId, r.teamId, r.state) = (orgId, teamId, state) := (h.latest_iff.mp hlatest).2.1
      obtain ⟨horg, hrest⟩ := Prod.mk.inj hkey
      exact ⟨⟨horg, (congrArg _ hkey).trans hlatest⟩, Prod.mk.inj hrest⟩
  cases hlatest : classificationVersions.latest rows (orgId, teamId, state) with
  | none =>
    refine List.find?_eq_none.mpr fun r hr hp => ?_
    cases hlatest.symm.trans ((hfound r).mp ⟨hr, hp⟩)
  | some q =>
    obtain ⟨hq, hp⟩ := (hfound q).mpr hlatest
    cases hfind : (list rows orgId none).reverse.find?
        ((fun r => r.teamId == teamId && r.state == state) ∘ (·.toClassificationRow)) with
    | none => exact absurd hp (List.find?_eq_none.mp hfind q hq)
    | some r =>
      have hr := List.find?_some hfind
      exact ((hfound r).mp ⟨List.mem_of_find?_eq_some hfind, hr⟩).symm.trans hlatest

/-- **A report uses the end of the history**: the latest row of the team, or else
of the tenant, or nothing is known of the state. -/
theorem resolver_latest {acts : List ClassificationAction}
    (hrun : (classificationSystem teams).run .start acts = some t) (orgId teamId : Uuid) (state : String) :
    resolveClassification ((list t.rows orgId none).map (·.toClassificationRow)) teamId state =
      match (classificationVersions.latest t.rows (orgId, some teamId, state)).or
        (classificationVersions.latest t.rows (orgId, none, state)) with
      | some r => ⟨r.classification, r.defaultReason, some r.version⟩
      | none => ⟨.unclassified, none, none⟩ := by
  have h := (ClassificationInv.run hrun).recorded.numbered
  simp only [resolveClassification, find_list h, ← Option.map_or]
  cases (classificationVersions.latest t.rows (orgId, some teamId, state)).or
    (classificationVersions.latest t.rows (orgId, none, state)) <;> rfl

theorem resolver_latest_together : ∃ t, (classificationSystem []).run .start formsTogether = some t ∧
    resolveClassification ((list t.rows 1 none).map (·.toClassificationRow)) 7 "Review" =
      ⟨.waiting, none, some 1⟩ := by
  have hend : ((classificationSystem []).run .start formsTogether).map (fun t =>
      ((classificationVersions.latest t.rows (1, some 7, "Review")).or
        (classificationVersions.latest t.rows (1, none, "Review"))).map fun r =>
          (r.classification, r.defaultReason, r.version)) = some (some (.waiting, none, 1)) := by
    decide
  obtain ⟨t, ht, hlatest⟩ := Option.map_eq_some_iff.mp hend
  obtain ⟨r, hr, hvalues⟩ := Option.map_eq_some_iff.mp hlatest
  simp only [Prod.mk.injEq] at hvalues
  refine ⟨t, ht, ?_⟩
  rw [resolver_latest ht, hr]
  simp only [hvalues]

end

end Cadena.Flow
