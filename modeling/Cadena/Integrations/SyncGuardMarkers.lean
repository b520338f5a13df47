import Cadena.Integrations.SyncGuard

/-!
# Losing the markers

Sequences of recorded writes and evaluated webhooks, with the markers
lost before any of the calls. The snapshot follows the last content seen
for a record, so a marker decides something of its own only when it
outlives newer content: `Overtaken`.
-/

namespace Cadena.Integrations

open Cadena.Base Cadena.Audit
open Cadena.Connectors (SyncIdentity)

inductive GuardRequest where
  | record (dto : RecordIntegrationWriteDto)
  | evaluate (dto : EvaluateSyncWebhookDto)

/-- One call: the tenant, the correlation nodes there are and the clock
when it runs. -/
structure GuardCall where
  orgId : Uuid
  nodes : List SyncNode
  now : Millis
  request : GuardRequest

/-- The call's decision, if it makes one: was the webhook suppressed? A
call that throws leaves the state as it was. -/
def GuardCall.run (P : Platform) (c : GuardCall) (s : GuardState) :
    Option Bool × GuardState :=
  match c.request with
  | .record dto =>
    match recordIntegrationWrite P c.nodes c.orgId dto c.now s with
    | .ok (_, s') => (none, s')
    | .error _ => (none, s)
  | .evaluate dto =>
    match evaluateWebhook P c.nodes c.orgId dto c.now s with
    | .ok (decision, s') => (some decision.suppressed, s')
    | .error _ => (none, s)

/-- The decisions of a sequence of calls, with the markers lost before
call `i` when `lost i`. -/
def decisions (P : Platform) : (Nat → Bool) → GuardState → List GuardCall →
    List (Option Bool)
  | _, _, [] => []
  | lost, s, c :: cs =>
    let result := c.run P (if lost 0 then s.clearVolatileMarkers else s)
    result.1 :: decisions P (fun i => lost (i + 1)) result.2 cs

/-- The part of an accepted call that can matter to later ones. -/
structure Seen where
  isWrite : Bool
  now : Millis
  node : Uuid × Uuid
  marker : Text
  text : Text

def Observation.seen (isWrite : Bool) (now : Millis) (orgId : Uuid) (o : Observation) :
    Seen where
  isWrite := isWrite
  now := now
  node := (orgId, o.node.id)
  marker := markerKey orgId o.node.id o.actorId o.payloadHash
  text := stableStringify o.payload

/-- Nothing, when the call throws. -/
def GuardCall.seen (P : Platform) (c : GuardCall) : Option Seen :=
  match c.request with
  | .record dto =>
    (observe P c.nodes c.orgId dto.identity "service_account_id" dto.serviceAccountId
      dto.payload).toOption.map (Observation.seen true c.now c.orgId)
  | .evaluate dto =>
    (observe P c.nodes c.orgId dto.identity "actor_id" dto.actorId
      dto.payload).toOption.map (Observation.seen false c.now c.orgId)

/-- The content last seen for a node; the past has the latest call first. -/
def lastText (past : List Seen) (node : Uuid × Uuid) : Option Text :=
  (past.find? fun c => c.node = node).map (·.text)

/-- The last call with this actor and content was a recorded write, and its
window is still open. -/
def liveMark (past : List Seen) (marker : Text) (now : Millis) : Bool :=
  match past.find? fun c => c.marker = marker with
  | some c => c.isWrite && now ≤ c.now + suppressionWindowMs
  | none => false

/-- A webhook that returns a recorded write inside its window, when the
last content seen for the record is another. -/
def Overtaken (past : List Seen) (c : Seen) : Prop :=
  c.isWrite = false ∧ liveMark past c.marker c.now = true ∧ lastText past c.node ≠ some c.text

instance (past : List Seen) (c : Seen) : Decidable (Overtaken past c) :=
  inferInstanceAs (Decidable (_ ∧ _ ∧ _))

def NoneOvertaken : List Seen → List Seen → Prop
  | _, [] => True
  | past, c :: cs => ¬ Overtaken past c ∧ NoneOvertaken (c :: past) cs

instance decidableNoneOvertaken : ∀ past calls, Decidable (NoneOvertaken past calls)
  | _, [] => isTrue trivial
  | past, c :: cs =>
    have := decidableNoneOvertaken (c :: past) cs
    inferInstanceAs (Decidable (_ ∧ _))

/-! ## The state follows the past -/

/-- Snapshots hold the last content; a marker comes from the last call with
its key, and that was a write. -/
structure Follows (P : Platform) (s : GuardState) (past : List Seen) : Prop where
  hashed : s.Hashed P
  snapshots : ∀ org node, s.snapshotText org node = lastText past (org, node)
  markers : ∀ key e, s.recentWrites key = some e →
    ∃ c, past.find? (fun c => c.marker = key) = some c ∧ c.isWrite = true ∧
      e = c.now + suppressionWindowMs

/-- No marker that is still live at `now` has been lost. -/
def Remembers (s : GuardState) (past : List Seen) (now : Millis) : Prop :=
  ∀ key c, past.find? (fun c => c.marker = key) = some c → c.isWrite = true →
    now ≤ c.now + suppressionWindowMs →
    s.recentWrites key = some (c.now + suppressionWindowMs)

theorem follows_empty (P : Platform) : Follows P .empty [] where
  hashed _ _ h := nomatch h
  snapshots _ _ := rfl
  markers _ _ h := nomatch h

theorem remembers_empty (now : Millis) : Remembers .empty [] now :=
  fun _ _ h => nomatch h

variable {now : Millis} {past : List Seen} {s : GuardState}

theorem Remembers.mono {later : Millis} (h : Remembers s past now) (hle : now ≤ later) : Remembers s past later :=
  fun key c hc hw hlater => h key c hc hw (le_trans hle hlater)

theorem Follows.clear {P : Platform} (h : Follows P s past) : Follows P s.clearVolatileMarkers past where
  hashed := h.hashed
  snapshots := h.snapshots
  markers _ _ hm := nomatch hm

theorem Follows.prune {P : Platform}
    (h : Follows P s past) (now : Millis) : Follows P (s.pruneExpired now) past where
  hashed := h.hashed
  snapshots := h.snapshots
  markers key e hm := h.markers key e (Option.filter_eq_some_iff.mp hm).1

theorem Remembers.prune (h : Remembers s past now) : Remembers (s.pruneExpired now) past now := by
  intro key c hc hw hlive
  simp only [GuardState.pruneExpired, h key c hc hw hlive]
  simpa using hlive

theorem Follows.live_of_marker {P : Platform} (h : Follows P s past) {orgId : Uuid} {o : Observation}
    (hm : hasMarker s orgId o now = true) :
    liveMark past (markerKey orgId o.node.id o.actorId o.payloadHash) now = true := by
  unfold hasMarker at hm
  split at hm
  · rename_i e he
    obtain ⟨c, hc, hw, rfl⟩ := h.markers _ _ he
    simpa [liveMark, hc, hw] using hm
  · cases hm

theorem Remembers.marker_of_live {orgId : Uuid} {o : Observation} (h : Remembers s past now)
    (hm : liveMark past (markerKey orgId o.node.id o.actorId o.payloadHash) now = true) :
    hasMarker s orgId o now = true := by
  unfold liveMark at hm
  split at hm
  · rename_i c hc
    simp only [Bool.and_eq_true, decide_eq_true_eq] at hm
    simpa [hasMarker, h _ c hc hm.1 hm.2] using hm.2
  · cases hm

/-! ## One call -/

theorem lastText_cons (c : Seen) (past : List Seen) (node : Uuid × Uuid) :
    lastText (c :: past) node = if c.node = node then some c.text else lastText past node := by
  unfold lastText
  by_cases h : c.node = node <;> simp [h]

theorem find_marker_cons (c : Seen) (past : List Seen) (key : Text) :
    (c :: past).find? (fun c => c.marker = key) =
      if c.marker = key then some c else past.find? fun c => c.marker = key := by
  by_cases h : c.marker = key <;> simp [h]

section Call

variable {P : Platform} {s : GuardState} {past : List Seen} {orgId : Uuid}
  {o : Observation} {now : Millis}

theorem Follows.snapshot_saved (h : Follows P s past) (w : Bool) (org node : Uuid) :
    (s.saveSnapshot orgId o).snapshotText org node =
      lastText (o.seen w now orgId :: past) (org, node) := by
  rw [snapshotText_saveSnapshot, lastText_cons, h.snapshots]
  by_cases hnode : (org, node) = (orgId, o.node.id)
  · rw [if_pos hnode, if_pos (show (o.seen w now orgId).node = (org, node) from hnode.symm)]
    rfl
  · rw [if_neg hnode,
      if_neg (show (o.seen w now orgId).node ≠ (org, node) from fun h => hnode h.symm)]

theorem Follows.snapshot_same (h : Follows P s past) (w : Bool)
    (hsame : lastText past (orgId, o.node.id) = some (stableStringify o.payload))
    (org node : Uuid) :
    s.snapshotText org node = lastText (o.seen w now orgId :: past) (org, node) := by
  rw [h.snapshots, lastText_cons]
  split
  · rename_i hnode
    rw [← hnode]
    exact hsame
  · rfl

theorem Follows.record (h : Follows P s past)
    (ho : o.payloadHash = hashPayload P o.payload) :
    Follows P (((s.saveSnapshot orgId o).pruneExpired now).setMarker
      (markerKey orgId o.node.id o.actorId o.payloadHash) (now + suppressionWindowMs))
      (o.seen true now orgId :: past) where
  hashed := h.hashed.saveSnapshot orgId ho
  snapshots org node := h.snapshot_saved true org node
  markers key e hm := by
    rw [find_marker_cons]
    by_cases hkey : key = markerKey orgId o.node.id o.actorId o.payloadHash
    · subst hkey
      simp only [GuardState.setMarker, setAt_same, Option.some.injEq] at hm
      exact ⟨o.seen true now orgId, by simp [Observation.seen], rfl, hm.symm⟩
    · simp only [GuardState.setMarker, setAt_other _ _ hkey] at hm
      rw [if_neg (fun h => hkey h.symm)]
      exact (h.prune now).markers key e hm

theorem Remembers.record (h : Remembers s past now) :
    Remembers (((s.saveSnapshot orgId o).pruneExpired now).setMarker
      (markerKey orgId o.node.id o.actorId o.payloadHash) (now + suppressionWindowMs))
      (o.seen true now orgId :: past) now := by
  intro key c hc hw hlive
  rw [find_marker_cons] at hc
  by_cases hkey : key = markerKey orgId o.node.id o.actorId o.payloadHash
  · subst hkey
    have hcs : o.seen true now orgId = c := by simpa [Observation.seen] using hc
    rw [← hcs]
    simp [GuardState.setMarker, Observation.seen]
  · rw [if_neg (fun h => hkey h.symm)] at hc
    simp only [GuardState.setMarker, setAt_other _ _ hkey]
    exact h.prune key c hc hw hlive

theorem Follows.markers_evaluated (h : Follows P s past) :
    ∀ key e, (evaluateObserved orgId o now s).2.recentWrites key = some e →
      ∃ c, (o.seen false now orgId :: past).find? (fun c => c.marker = key) = some c ∧
        c.isWrite = true ∧ e = c.now + suppressionWindowMs := by
  intro key e hm
  have hp := h.prune now
  rw [find_marker_cons]
  by_cases hkey : key = markerKey orgId o.node.id o.actorId o.payloadHash
  · exfalso
    subst hkey
    unfold evaluateObserved at hm
    by_cases hit : hasMarker (s.pruneExpired now) orgId o now = true
    · simp [hit, GuardState.deleteMarker] at hm
    · have hpruned : (s.pruneExpired now).recentWrites
          (markerKey orgId o.node.id o.actorId o.payloadHash) = some e := by
        rw [if_neg hit] at hm
        split at hm <;> exact hm
      refine hit ?_
      have hlive := (Option.filter_eq_some_iff.mp hpruned).2
      simpa [hasMarker, hpruned] using hlive
  · have hpruned : (s.pruneExpired now).recentWrites key = some e := by
      unfold evaluateObserved at hm
      simp only at hm
      split at hm
      · simpa [GuardState.deleteMarker, setAt_other _ _ hkey] using hm
      · split at hm <;> exact hm
    rw [if_neg (fun h => hkey h.symm)]
    exact hp.markers key e hpruned

/-- **A webhook that is not overtaken is decided by the content alone**: it
is suppressed exactly when it brings the content last seen. -/
theorem Follows.evaluate (h : Follows P s past)
    (ho : o.payloadHash = hashPayload P o.payload)
    (hnot : ¬ Overtaken past (o.seen false now orgId)) :
    ((evaluateObserved orgId o now s).1 ≠ .externalChange ↔
      lastText past (orgId, o.node.id) = some (stableStringify o.payload)) ∧
    Follows P (evaluateObserved orgId o now s).2 (o.seen false now orgId :: past) := by
  have hp := h.prune now
  have hsnap := matchesSnapshot_iff orgId hp.hashed ho
  rw [hp.snapshots] at hsnap
  have hmarkers : ∀ key e, (evaluateObserved orgId o now s).2.recentWrites key = some e → _ :=
    h.markers_evaluated
  unfold evaluateObserved at hmarkers ⊢
  by_cases hit : hasMarker (s.pruneExpired now) orgId o now = true
  · have hsame : lastText past (orgId, o.node.id) = some (stableStringify o.payload) := by
      by_contra hne
      exact hnot ⟨rfl, hp.live_of_marker hit, hne⟩
    simp only [hit, if_true] at hmarkers ⊢
    exact ⟨⟨fun _ => hsame, fun _ => by simp⟩,
      hp.hashed, hp.snapshot_same false hsame, hmarkers⟩
  · by_cases hmatch : matchesSnapshot (s.pruneExpired now) orgId o = true
    · have hsame := hsnap.mp hmatch
      simp only [hit, hmatch, if_true] at hmarkers ⊢
      exact ⟨⟨fun _ => hsame, fun _ => by simp⟩,
        hp.hashed, hp.snapshot_same false hsame, hmarkers⟩
    · simp only [hit, hmatch] at hmarkers ⊢
      exact ⟨⟨fun hne => absurd rfl hne, fun hsame => absurd (hsnap.mpr hsame) hmatch⟩,
        hp.hashed.saveSnapshot orgId ho, hp.snapshot_saved false, hmarkers⟩

theorem Remembers.evaluate (h : Remembers s past now) :
    Remembers (evaluateObserved orgId o now s).2 (o.seen false now orgId :: past) now := by
  intro key c hc hw hlive
  rw [find_marker_cons] at hc
  by_cases hkey : key = markerKey orgId o.node.id o.actorId o.payloadHash
  · subst hkey
    have hcs : o.seen false now orgId = c := by simpa [Observation.seen] using hc
    rw [← hcs] at hw
    cases hw
  · rw [if_neg (fun h => hkey h.symm)] at hc
    have hpruned := h.prune key c hc hw hlive
    unfold evaluateObserved
    simp only
    split
    · simpa [GuardState.deleteMarker, setAt_other _ _ hkey] using hpruned
    · split <;> exact hpruned

theorem Follows.overtaken (h : Follows P s past) (hr : Remembers s past now)
    (ho : o.payloadHash = hashPayload P o.payload)
    (hover : Overtaken past (o.seen false now orgId)) :
    (evaluateObserved orgId o now s).1 = .selfOriginatedHash ∧
      (evaluateObserved orgId o now s.clearVolatileMarkers).1 = .externalChange := by
  obtain ⟨-, hlive, hne⟩ := hover
  constructor
  · simp only [evaluateObserved, hr.prune.marker_of_live hlive, if_true]
  · have hlost : hasMarker (s.clearVolatileMarkers.pruneExpired now) orgId o now = false := rfl
    have hsnap := matchesSnapshot_iff orgId (h.clear.prune now).hashed ho
    rw [(h.clear.prune now).snapshots] at hsnap
    have hmatch : ¬ matchesSnapshot (s.clearVolatileMarkers.pruneExpired now) orgId o = true :=
      fun hm => hne (hsnap.mp hm)
    simp only [evaluateObserved, hlost, hmatch, Bool.false_eq_true, if_false]

end Call

/-! ## Whole sequences -/

variable {P : Platform}

theorem GuardCall.run_cases (c : GuardCall) :
    (c.seen P = none ∧ ∀ s, c.run P s = (none, s)) ∨
    ∃ o, o.payloadHash = hashPayload P o.payload ∧
      ((c.seen P = some (o.seen true c.now c.orgId) ∧
        ∀ s, c.run P s = (none, ((s.saveSnapshot c.orgId o).pruneExpired c.now).setMarker
          (markerKey c.orgId o.node.id o.actorId o.payloadHash)
          (c.now + suppressionWindowMs))) ∨
      (c.seen P = some (o.seen false c.now c.orgId) ∧
        ∀ s, c.run P s =
          (some (decide ((evaluateObserved c.orgId o c.now s).1 ≠ .externalChange)),
            (evaluateObserved c.orgId o c.now s).2))) := by
  unfold GuardCall.seen GuardCall.run
  cases c.request with
  | record dto =>
    simp only [recordIntegrationWrite]
    cases ho : observe P c.nodes c.orgId dto.identity "service_account_id"
        dto.serviceAccountId dto.payload with
    | error e => exact .inl ⟨rfl, fun _ => rfl⟩
    | ok o => exact .inr ⟨o, observe_hash ho, .inl ⟨rfl, fun _ => rfl⟩⟩
  | evaluate dto =>
    simp only [evaluateWebhook]
    cases ho : observe P c.nodes c.orgId dto.identity "actor_id" dto.actorId
        dto.payload with
    | error e => exact .inl ⟨rfl, fun _ => rfl⟩
    | ok o => exact .inr ⟨o, observe_hash ho, .inr ⟨rfl, fun _ => rfl⟩⟩

/-- The decisions read off the calls alone: a webhook is suppressed when it
brings the content last seen. -/
def contentDecisions (P : Platform) : List Seen → List GuardCall → List (Option Bool)
  | _, [] => []
  | past, c :: cs =>
    match c.seen P with
    | none => none :: contentDecisions P past cs
    | some seen =>
      (if seen.isWrite then none
        else some (decide (lastText past seen.node = some seen.text)))
        :: contentDecisions P (seen :: past) cs

/-- Without an overtaken webhook the markers decide nothing: whatever is
lost, the decisions are those of the content. -/
theorem Follows.decisions_eq (h : Follows P s past) (lost : Nat → Bool) {calls : List GuardCall}
    (hnone : NoneOvertaken past (calls.filterMap (·.seen P))) :
    decisions P lost s calls = contentDecisions P past calls := by
  induction calls generalizing s past lost with
  | nil => rfl
  | cons c cs ih =>
    have hs : Follows P (if lost 0 then s.clearVolatileMarkers else s) past := by
      split
      · exact h.clear
      · exact h
    rw [decisions, contentDecisions]
    rcases c.run_cases (P := P) with ⟨hseen, hrun⟩ | ⟨o, ho, ⟨hseen, hrun⟩ | ⟨hseen, hrun⟩⟩
    · rw [List.filterMap_cons, hseen] at hnone
      simp only [hrun, hseen]
      rw [ih hs (fun i => lost (i + 1)) hnone]
    · rw [List.filterMap_cons, hseen] at hnone
      simp only [hrun, hseen]
      rw [ih (hs.record ho) (fun i => lost (i + 1)) hnone.2]
      rfl
    · rw [List.filterMap_cons, hseen] at hnone
      obtain ⟨hdecision, hs'⟩ := hs.evaluate ho hnone.1
      simp only [hrun, hseen]
      rw [ih hs' (fun i => lost (i + 1)) hnone.2]
      simp only [hdecision, Observation.seen]
      rfl

theorem Follows.decisions_ne (h : Follows P s past) {calls : List GuardCall} (hr : Remembers s past now)
    (hnow : ∀ c ∈ calls, now ≤ c.now) (hclock : calls.Pairwise (fun a b => a.now ≤ b.now))
    (hover : ¬ NoneOvertaken past (calls.filterMap (·.seen P))) :
    ∃ lost, decisions P lost s calls ≠ decisions P (fun _ => false) s calls := by
  induction calls generalizing s past now with
  | nil => exact absurd trivial hover
  | cons c cs ih =>
    obtain ⟨hlater, hclock⟩ := List.pairwise_cons.mp hclock
    have hrc := hr.mono (hnow c (by simp))
    -- A difference found later is the same difference one call earlier.
    have hskip : ∀ {s' : GuardState}, (c.run P s).2 = s' →
        (∃ lost, decisions P lost s' cs ≠ decisions P (fun _ => false) s' cs) →
        ∃ lost, decisions P lost s (c :: cs) ≠ decisions P (fun _ => false) s (c :: cs) := by
      rintro s' rfl ⟨lost, hne⟩
      refine ⟨fun i => Nat.casesOn i false lost, ?_⟩
      intro heq
      exact hne (List.cons.inj heq).2
    rcases c.run_cases (P := P) with ⟨hseen, hrun⟩ | ⟨o, ho, ⟨hseen, hrun⟩ | ⟨hseen, hrun⟩⟩
    · rw [List.filterMap_cons, hseen] at hover
      refine hskip (by rw [hrun]) (ih h hrc hlater hclock hover)
    · rw [List.filterMap_cons, hseen] at hover
      have hnot : ¬ Overtaken past (o.seen true c.now c.orgId) := fun hov => by cases hov.1
      exact hskip (by rw [hrun]) (ih (h.record ho) hrc.record hlater hclock
        fun hnone => hover ⟨hnot, hnone⟩)
    · rw [List.filterMap_cons, hseen] at hover
      by_cases hov : Overtaken past (o.seen false c.now c.orgId)
      · refine ⟨fun _ => true, fun heq => ?_⟩
        obtain ⟨hmark, hcontent⟩ := h.overtaken hrc ho hov
        have hhead := (List.cons.inj heq).1
        simp [hrun, hmark, hcontent] at hhead
      · exact hskip (by rw [hrun]) (ih (h.evaluate ho hov).2 hrc.evaluate hlater hclock
          fun hnone => hover ⟨hov, hnone⟩)

/-- **When the markers decide nothing**: for a sequence of calls under a
clock that does not go back, every choice of loss points gives the same
decisions as losing nothing, if and only if no webhook is overtaken. -/
theorem lost_markers_decide_nothing_iff (P : Platform) (calls : List GuardCall)
    (hclock : calls.Pairwise (fun a b => a.now ≤ b.now)) :
    (∀ lost, decisions P lost .empty calls = decisions P (fun _ => false) .empty calls) ↔
      NoneOvertaken [] (calls.filterMap (·.seen P)) := by
  constructor
  · intro hsame
    by_contra hover
    obtain ⟨now, hnow⟩ : ∃ now, ∀ c ∈ calls, now ≤ c.now := by
      cases calls with
      | nil => exact ⟨0, by simp⟩
      | cons c cs =>
        refine ⟨c.now, fun d hd => ?_⟩
        rcases List.mem_cons.mp hd with rfl | hd
        · exact le_refl _
        · exact (List.pairwise_cons.mp hclock).1 d hd
    obtain ⟨lost, hne⟩ := (follows_empty P).decisions_ne (remembers_empty now) hnow hclock hover
    exact hne (hsame lost)
  · intro hnone lost
    rw [(follows_empty P).decisions_eq lost hnone,
      (follows_empty P).decisions_eq (fun _ => false) hnone]

/-- A guarded incident of one tenant. -/
def incidentNode : SyncNode := ⟨7, 1, ⟨"servicenow", "incident", "abc"⟩⟩

def statusPayload (status : String) : Json := .obj [("state", .str status)]

def writeCall (now : Millis) (status : String) : GuardCall :=
  ⟨1, [incidentNode], now, .record ⟨incidentNode.identity, "connector:2", statusPayload status⟩⟩

def webhookCall (now : Millis) (actor status : String) : GuardCall :=
  ⟨1, [incidentNode], now, .evaluate ⟨incidentNode.identity, actor, statusPayload status⟩⟩

theorem lost_markers_decide_nothing_echo :
    decisions .ascii (fun _ => true) .empty
        [writeCall 0 "Closed", webhookCall 1 "connector:2" "Closed"]
      = decisions .ascii (fun _ => false) .empty
        [writeCall 0 "Closed", webhookCall 1 "connector:2" "Closed"] :=
  (lost_markers_decide_nothing_iff .ascii
    [writeCall 0 "Closed", webhookCall 1 "connector:2" "Closed"] (by decide)).mpr
    (by decide +kernel) _

/-- Cadena closes the incident, a person reopens it, the first content
comes back from the service account: with its marker it is suppressed,
without it is processed. -/
def reopened : List GuardCall :=
  [writeCall 0 "Closed", webhookCall 1 "person" "Open", webhookCall 2 "connector:2" "Closed"]

theorem lost_marker_changes_decision :
    decisions .ascii (fun _ => false) .empty reopened = [none, some false, some true] ∧
    decisions .ascii (fun i => i == 2) .empty reopened = [none, some false, some false] := by
  decide +kernel

end Cadena.Integrations
