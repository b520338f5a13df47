import Cadena.Base.ClaimLedger
import Cadena.Base.Table
import Cadena.WorkItems.AgingPass

/-!
# SLA alerts

For each item a pass claims a row of `sla_emissions` for every alert that is
due, looks up the person to tell where the alert has one, publishes the event
and goes on to the next item. The event store records what is published and
swallows its own failures. Passes stop anywhere. A claim is never given back,
so an alert that is dropped between its claim and its record is lost
(`KeepsAlert`), and no other way.
-/

namespace Cadena.WorkItems

open Cadena.Base Cadena.Connectors

inductive EmissionKind where
  | warning | breach | escalation
  deriving DecidableEq

/-- A row of `sla_emissions`: one alert for one stay in a state. -/
structure Emission where
  workItemId : Uuid
  state : String
  enteredStateAt : Millis
  kind : EmissionKind
  deriving DecidableEq

def emissionOf (item : WorkItem) (kind : EmissionKind) : Emission :=
  ⟨item.id, item.status, item.enteredStateAt, kind⟩

/-! ## Events -/

/-- What the payloads of the three kinds have apart. -/
inductive AlertDetail where
  | warning (recipients : List Uuid)
  | breach (teamLeadId : Option Uuid) (recipients : List Uuid)
  | escalation (escalationThresholdPercent : Nat) (escalationPersonId : Option Uuid)

def AlertDetail.eventType : AlertDetail → String
  | .warning _ => "SLAWarning"
  | .breach .. => "SLABreached"
  | .escalation .. => "SLAEscalated"

structure SlaEvent where
  workItemId : Uuid
  type : WorkItemType
  status : String
  agingScore : Rat
  thresholdMinutes : Int
  ownerId : Option Uuid
  teamId : Uuid
  orgId : Uuid
  detail : AlertDetail

/-- What a pass reads before the items: the policies, the escalation settings
of the tenants, and the clock. -/
structure AlertContext where
  policies : List SlaPolicy
  escalationPercents : List (Uuid × Nat)
  now : Millis

def AlertContext.policy (ctx : AlertContext) (item : WorkItem) : Option SlaPolicy :=
  policyFor ctx.policies item.orgId item.type item.status

def AlertContext.score (ctx : AlertContext) (item : WorkItem) : Rat :=
  (recomputed ctx.policies ctx.now item).agingScore

def AlertContext.escalationPercent (ctx : AlertContext) (item : WorkItem) : Nat :=
  (ctx.escalationPercents.lookup item.orgId).getD 150

/-- The alerts that are due, in the order of their claims. -/
def AlertContext.due (ctx : AlertContext) (item : WorkItem) : List EmissionKind :=
  (if 75 ≤ ctx.score item then [.warning] else [])
    ++ (if 100 < ctx.score item then [.breach] else [])
    ++ (if (ctx.policy item).isSome ∧ (ctx.escalationPercent item : Rat) ≤ ctx.score item then
      [.escalation] else [])

/-- `person` is the team lead of a breach and the target of an escalation. -/
def AlertContext.event (ctx : AlertContext) (item : WorkItem) (kind : EmissionKind)
    (person : Option Uuid) : SlaEvent where
  workItemId := item.id
  type := item.type
  status := item.status
  agingScore := ctx.score item
  thresholdMinutes := ((ctx.policy item).map (·.thresholdMinutes)).getD 0
  ownerId := item.ownerId
  teamId := item.teamId
  orgId := item.orgId
  detail :=
    match kind with
    | .warning => .warning item.ownerId.toList
    | .breach => .breach person (item.ownerId.toList ++ person.toList).eraseDups
    | .escalation => .escalation (ctx.escalationPercent item) person

/-! ## The system -/

/-- Where an alert stands that has been claimed. -/
inductive AlertPhase where
  | lookup
  | publish (person : Option Uuid)
  | record (event : SlaEvent)
  | notify

/-- A warning goes to the owner, which takes no lookup. -/
def firstPhase : EmissionKind → AlertPhase
  | .warning => .publish none
  | .breach | .escalation => .lookup

inductive PassTask where
  | claim (item : WorkItem) (kind : EmissionKind)
  | store (item : WorkItem)

structure AlertPass where
  ctx : AlertContext
  held : Option (WorkItem × EmissionKind × AlertPhase)
  todo : List PassTask

def AlertContext.tasks (ctx : AlertContext) (item : WorkItem) : List PassTask :=
  (ctx.due item).map (.claim item) ++ [.store item]

/-- `published` are the events put on the bus and `recorded` those of
`domain_events`, each with the row it was published for. -/
structure AlertState where
  items : List WorkItem
  emissions : List Emission
  published : List (Emission × SlaEvent)
  recorded : List (Emission × SlaEvent)
  passes : Nat → Option AlertPass

/-- `advance` is the next statement of a pass and `fail` one that throws; a
lookup returns `person`. `change` is whatever else is done to the items. -/
inductive AlertAction where
  | begin (pass : Nat) (org : Option Uuid) (ctx : AlertContext)
  | advance (pass : Nat) (person : Option Uuid)
  | fail (pass : Nat)
  | stop (pass : Nat)
  | change (items : List WorkItem)

def AlertState.setPass (s : AlertState) (p : Nat) (pass : Option AlertPass) : AlertState :=
  { s with passes := setAt s.passes p pass }

/-- The statements after a claim. -/
def heldStep (s : AlertState) (p : Nat) (pass : AlertPass) (item : WorkItem) (kind : EmissionKind)
    (person : Option Uuid) : AlertPhase → AlertState
  | .lookup => s.setPass p (some { pass with held := some (item, kind, .publish person) })
  | .publish known =>
    let event := pass.ctx.event item kind known
    { s.setPass p (some { pass with held := some (item, kind, .record event) }) with
      published := s.published ++ [(emissionOf item kind, event)] }
  | .record event =>
    { s.setPass p (some { pass with held := some (item, kind, .notify) }) with
      recorded := s.recorded ++ [(emissionOf item kind, event)] }
  | .notify => s.setPass p (some { pass with held := none })

def taskStep (s : AlertState) (p : Nat) (pass : AlertPass) : List PassTask → AlertState
  | [] => s.setPass p none
  | .claim item kind :: rest =>
    if emissionOf item kind ∈ s.emissions then s.setPass p (some { pass with todo := rest })
    else
      { s.setPass p (some ⟨pass.ctx, some (item, kind, firstPhase kind), rest⟩) with
        emissions := s.emissions ++ [emissionOf item kind] }
  | .store item :: rest =>
    let next := recomputed pass.ctx.policies pass.ctx.now item
    { s.setPass p (some { pass with todo := rest }) with
      items :=
        if agingChanged item next then Table.update (·.id == item.id) (setAging next) s.items
        else s.items }

/-- A failed record is swallowed, any other failure ends the pass. To put an
event on the bus cannot fail. -/
def failStep (s : AlertState) (p : Nat) (pass : AlertPass) : Option AlertState :=
  match pass.held with
  | some (item, kind, .record _) =>
    some (s.setPass p (some { pass with held := some (item, kind, .notify) }))
  | some (_, _, .publish _) => none
  | _ => some (s.setPass p none)

def alertStep (s : AlertState) : AlertAction → Option AlertState
  | .begin p org ctx =>
    match s.passes p with
    | some _ => none
    | none =>
      let items := s.items.filter fun i => org.all (i.orgId == ·)
      some (s.setPass p (some ⟨ctx, none, items.flatMap ctx.tasks⟩))
  | .advance p person =>
    (s.passes p).map fun pass =>
      match pass.held with
      | some (item, kind, phase) => heldStep s p pass item kind person phase
      | none => taskStep s p pass pass.todo
  | .fail p => (s.passes p).bind (failStep s p)
  | .stop p => some (s.setPass p none)
  | .change items => some { s with items := items }

def alerts : System AlertState AlertAction := ⟨alertStep⟩

def AlertState.start (items : List WorkItem) : AlertState := ⟨items, [], [], [], fun _ => none⟩

def AlertState.Recorded (s : AlertState) (row : Emission) : Prop := row ∈ s.recorded.map (·.1)

def AlertAction.leavesItems : AlertAction → Prop
  | .change _ => False
  | _ => True

/-- The event of the row is in `domain_events`, or passes over items that
nobody else changes can still bring it there. -/
def AlertKept (s : AlertState) (row : Emission) : Prop :=
  s.Recorded row ∨ ∃ acts u, (∀ a ∈ acts, a.leavesItems) ∧ alerts.run s acts = some u ∧ u.Recorded row

/-- No alert is lost and none is published twice. -/
structure AlertsKept (s : AlertState) : Prop where
  kept : ∀ row ∈ s.emissions, AlertKept s row
  once : (s.published.map (·.1)).Nodup

def AlertPass.owes (pass : AlertPass) : Option (Emission × ClaimStage) :=
  match pass.held with
  | none => none
  | some (item, kind, .lookup) => some (emissionOf item kind, .claimed)
  | some (item, kind, .publish _) => some (emissionOf item kind, .claimed)
  | some (item, kind, .record _) => some (emissionOf item kind, .published)
  | some (_, _, .notify) => none

/-- A pass that has claimed an alert neither stops nor fails before the alert
is recorded. -/
def KeepsAlert (s : AlertState) : AlertAction → Prop
  | .fail p | .stop p => ∀ pass ∈ s.passes p, pass.owes = none
  | _ => True

instance (s : AlertState) : ∀ a, Decidable (KeepsAlert s a)
  | .fail p | .stop p => inferInstanceAs (Decidable (∀ pass ∈ s.passes p, pass.owes = none))
  | .begin .. | .advance .. | .change _ => isTrue trivial

/-! ## The ledger -/

def AlertState.ledger (s : AlertState) : ClaimLedger Emission Nat where
  claims := s.emissions
  published := s.published.map (·.1)
  recorded := s.recorded.map (·.1)
  owes p := (s.passes p).bind AlertPass.owes

section
variable {s t : AlertState} {p : Nat} {pass : AlertPass}

theorem owes_setPass (s : AlertState) (p : Nat) (pass : Option AlertPass) :
    (s.setPass p pass).ledger.owes = setAt s.ledger.owes p (pass.bind AlertPass.owes) :=
  setAt_comp (fun pass : Option AlertPass => pass.bind AlertPass.owes) s.passes p pass

theorem owes_of_pass (hpass : s.passes p = some pass) : s.ledger.owes p = pass.owes := by
  show (s.passes p).bind AlertPass.owes = pass.owes
  rw [hpass]
  rfl

theorem ledger_setPass {pass' : Option AlertPass} (h : pass'.bind AlertPass.owes = s.ledger.owes p) :
    (s.setPass p pass').ledger = s.ledger := by
  have howes : (s.setPass p pass').ledger.owes = s.ledger.owes := by
    rw [owes_setPass, h, setAt_self]
  exact congrArg (ClaimLedger.mk s.emissions (s.published.map (·.1)) (s.recorded.map (·.1))) howes

variable {kind : EmissionKind} {item : WorkItem} {a : AlertAction} {todo : List PassTask} {ctx : AlertContext}

theorem heldStep_move {phase : AlertPhase}
    (hpass : s.passes p = some pass) (hheld : pass.held = some (item, kind, phase))
    (person : Option Uuid) : ClaimLedger.Move s.ledger (heldStep s p pass item kind person phase).ledger := by
  have howes : s.ledger.owes p = AlertPass.owes ⟨pass.ctx, some (item, kind, phase), pass.todo⟩ := by
    rw [owes_of_pass hpass, ← hheld]
  cases phase with
  | lookup =>
    have hsame : (heldStep s p pass item kind person .lookup).ledger = s.ledger :=
      ledger_setPass howes.symm
    exact hsame ▸ .stay
  | publish known =>
    have hledger : (heldStep s p pass item kind person (.publish known)).ledger =
        { s.ledger with
          published := s.ledger.published ++ [emissionOf item kind]
          owes := setAt s.ledger.owes p (some (emissionOf item kind, .published)) } :=
      ClaimLedger.ext rfl List.map_append rfl (owes_setPass s p _)
    exact hledger ▸ .publish p _ howes
  | record event =>
    have hledger : (heldStep s p pass item kind person (.record event)).ledger =
        { s.ledger with
          recorded := s.ledger.recorded ++ [emissionOf item kind]
          owes := setAt s.ledger.owes p none } :=
      ClaimLedger.ext rfl rfl List.map_append (owes_setPass s p _)
    exact hledger ▸ .record p _ howes
  | notify =>
    have hsame : (heldStep s p pass item kind person .notify).ledger = s.ledger :=
      ledger_setPass howes.symm
    exact hsame ▸ .stay

theorem taskStep_move (hpass : s.passes p = some pass) (hheld : pass.held = none)
    (tasks : List PassTask) : ClaimLedger.Move s.ledger (taskStep s p pass tasks).ledger := by
  have howes : s.ledger.owes p = none := by
    rw [owes_of_pass hpass, AlertPass.owes, hheld]
  have hidle : ∀ todo, AlertPass.owes ⟨pass.ctx, pass.held, todo⟩ = s.ledger.owes p := by
    intro todo
    rw [howes, hheld]
    rfl
  match tasks with
  | [] =>
    have hsame : (taskStep s p pass []).ledger = s.ledger := ledger_setPass howes.symm
    exact hsame ▸ .stay
  | .claim item kind :: rest =>
    by_cases hclaimed : emissionOf item kind ∈ s.emissions
    · have hsame : (taskStep s p pass (.claim item kind :: rest)).ledger = s.ledger := by
        simp only [taskStep, hclaimed, if_true]
        exact ledger_setPass (hidle rest)
      exact hsame ▸ .stay
    · have hfirst : AlertPass.owes ⟨pass.ctx, some (item, kind, firstPhase kind), rest⟩ =
          some (emissionOf item kind, .claimed) := by cases kind <;> rfl
      have hledger : (taskStep s p pass (.claim item kind :: rest)).ledger =
          { s.ledger with
            claims := s.ledger.claims ++ [emissionOf item kind]
            owes := setAt s.ledger.owes p (some (emissionOf item kind, .claimed)) } := by
        simp only [taskStep, hclaimed, if_false]
        exact ClaimLedger.ext rfl rfl rfl ((owes_setPass s p _).trans (congrArg _ hfirst))
      exact hledger ▸ .claim p _ howes hclaimed
  | .store item :: rest =>
    have hsame : (taskStep s p pass (.store item :: rest)).ledger = s.ledger :=
      ledger_setPass (s := s) (hidle rest)
    exact hsame ▸ .stay

theorem alertStep_move (hkeeps : KeepsAlert s a) (hstep : alertStep s a = some t) :
    ClaimLedger.Move s.ledger t.ledger := by
  have hclear : ∀ p, (∀ pass ∈ s.passes p, pass.owes = none) → (s.setPass p none).ledger = s.ledger := by
    intro p hnone
    refine ledger_setPass (Eq.symm ?_)
    show (s.passes p).bind AlertPass.owes = none
    exact Option.bind_eq_none_iff.mpr hnone
  cases a with
  | begin p org ctx =>
    simp only [alertStep] at hstep
    split at hstep
    · cases hstep
    · rename_i hfree
      obtain rfl := Option.some.inj hstep
      have howes : s.ledger.owes p = none := by
        show (s.passes p).bind AlertPass.owes = none
        rw [hfree]
        rfl
      have hsame : (s.setPass p (some ⟨ctx, none,
          (s.items.filter fun i => org.all (i.orgId == ·)).flatMap ctx.tasks⟩)).ledger = s.ledger :=
        ledger_setPass howes.symm
      exact hsame ▸ .stay
  | advance p person =>
    obtain ⟨pass, hpass, rfl⟩ := Option.map_eq_some_iff.mp hstep
    cases hheld : pass.held with
    | none => exact taskStep_move hpass hheld pass.todo
    | some held => exact heldStep_move hpass hheld person
  | fail p =>
    obtain ⟨pass, hpass, hfail⟩ := Option.bind_eq_some_iff.mp hstep
    have howes := hkeeps pass hpass
    unfold failStep at hfail
    split at hfail
    · rename_i hheld
      rw [AlertPass.owes, hheld] at howes
      cases howes
    · cases hfail
    · obtain rfl := Option.some.inj hfail
      exact hclear p hkeeps ▸ .stay
  | stop p =>
    obtain rfl := Option.some.inj hstep
    exact hclear p hkeeps ▸ .stay
  | change items =>
    obtain rfl := Option.some.inj hstep
    exact .stay

theorem alertStep_drop (hdrops : ¬ KeepsAlert s a) (hstep : alertStep s a = some t) :
    ClaimLedger.Drop s.ledger t.ledger := by
  have hdrop : ∀ p pass pass', s.passes p = some pass → pass.owes ≠ none →
      pass'.bind AlertPass.owes = none → ClaimLedger.Drop s.ledger (s.setPass p pass').ledger := by
    intro p pass pass' hpass hne hcleared
    obtain ⟨⟨row, stage⟩, howes⟩ := Option.ne_none_iff_exists'.mp hne
    have hledger : (s.setPass p pass').ledger = { s.ledger with owes := setAt s.ledger.owes p none } :=
      ClaimLedger.ext rfl rfl rfl ((owes_setPass s p pass').trans (congrArg _ hcleared))
    exact hledger ▸ .drop p row stage ((owes_of_pass hpass).trans howes)
  cases a with
  | begin | advance | change => exact absurd trivial hdrops
  | fail p =>
    obtain ⟨pass, hpass, hfail⟩ := Option.bind_eq_some_iff.mp hstep
    have hne : pass.owes ≠ none := fun hnone => hdrops fun pass' hpass' =>
      Option.some.inj (hpass.symm.trans hpass') ▸ hnone
    unfold failStep at hfail
    split at hfail
    · obtain rfl := Option.some.inj hfail
      exact hdrop p pass _ hpass hne rfl
    · cases hfail
    · obtain rfl := Option.some.inj hfail
      exact hdrop p pass none hpass hne rfl
  | stop p =>
    obtain rfl := Option.some.inj hstep
    obtain ⟨pass, hpass, hne⟩ : ∃ pass, s.passes p = some pass ∧ pass.owes ≠ none := by
      by_contra hnone
      exact hdrops fun pass hpass => by_contra fun hne => hnone ⟨pass, hpass, hne⟩
    exact hdrop p pass none hpass hne rfl

/-! ## Runs -/

theorem sound_step (h : s.ledger.Sound) (hstep : alertStep s a = some t) : t.ledger.Sound := by
  by_cases hkeeps : KeepsAlert s a
  · exact h.move (alertStep_move hkeeps hstep)
  · exact h.drop (alertStep_drop hkeeps hstep)

theorem lost_step {row : Emission} (h : s.ledger.Lost row)
    (hstep : alertStep s a = some t) : t.ledger.Lost row := by
  by_cases hkeeps : KeepsAlert s a
  · exact h.move (alertStep_move hkeeps hstep)
  · exact h.drop (alertStep_drop hkeeps hstep)

theorem advance_held {phase : AlertPhase} (hpass : s.passes p = some ⟨ctx, some (item, kind, phase), todo⟩) :
    alerts.step s (.advance p none) =
      some (heldStep s p ⟨ctx, some (item, kind, phase), todo⟩ item kind none phase) := by
  show (s.passes p).map _ = _
  rw [hpass]
  rfl

theorem recorded_of_record {event : SlaEvent}
    (hpass : s.passes p = some ⟨ctx, some (item, kind, .record event), todo⟩) :
    ∃ u, alerts.run s [.advance p none] = some u ∧ u.Recorded (emissionOf item kind) := by
  refine ⟨_, alerts.run_cons.mpr ⟨_, advance_held hpass, rfl⟩, ?_⟩
  exact List.mem_map.mpr ⟨_, List.mem_append_right _ (List.mem_singleton.mpr rfl), rfl⟩

theorem recorded_of_publish {known : Option Uuid}
    (hpass : s.passes p = some ⟨ctx, some (item, kind, .publish known), todo⟩) :
    ∃ u, alerts.run s [.advance p none, .advance p none] = some u ∧ u.Recorded (emissionOf item kind) := by
  obtain ⟨u, hrun, hrecorded⟩ :=
    recorded_of_record (s := heldStep s p _ item kind none (.publish known)) (setAt_same _ _ _)
  exact ⟨u, alerts.run_cons.mpr ⟨_, advance_held hpass, hrun⟩, hrecorded⟩

theorem recorded_of_lookup (hpass : s.passes p = some ⟨ctx, some (item, kind, .lookup), todo⟩) :
    ∃ u, alerts.run s [.advance p none, .advance p none, .advance p none] = some u ∧
      u.Recorded (emissionOf item kind) := by
  obtain ⟨u, hrun, hrecorded⟩ := recorded_of_publish (s := heldStep s p _ item kind none .lookup) (setAt_same _ _ _)
  exact ⟨u, alerts.run_cons.mpr ⟨_, advance_held hpass, hrun⟩, hrecorded⟩

theorem recorded_of_owed {row : Emission} {stage : ClaimStage}
    (howes : s.ledger.owes p = some (row, stage)) :
    ∃ acts u, (∀ a ∈ acts, a.leavesItems) ∧ alerts.run s acts = some u ∧ u.Recorded row := by
  obtain ⟨⟨ctx, held, todo⟩, hpass, howed⟩ := Option.bind_eq_some_iff.mp howes
  match held with
  | none => cases howed
  | some (_, _, .notify) => cases howed
  | some (item, kind, .lookup) =>
    obtain ⟨rfl, -⟩ := Prod.mk.inj (Option.some.inj howed)
    obtain ⟨u, hrun, hrecorded⟩ := recorded_of_lookup hpass
    exact ⟨_, u, by simp [AlertAction.leavesItems], hrun, hrecorded⟩
  | some (item, kind, .publish known) =>
    obtain ⟨rfl, -⟩ := Prod.mk.inj (Option.some.inj howed)
    obtain ⟨u, hrun, hrecorded⟩ := recorded_of_publish hpass
    exact ⟨_, u, by simp [AlertAction.leavesItems], hrun, hrecorded⟩
  | some (item, kind, .record event) =>
    obtain ⟨rfl, -⟩ := Prod.mk.inj (Option.some.inj howed)
    obtain ⟨u, hrun, hrecorded⟩ := recorded_of_record hpass
    exact ⟨_, u, by simp [AlertAction.leavesItems], hrun, hrecorded⟩

theorem alertKept_iff {row : Emission} (hrow : row ∈ s.emissions) :
    AlertKept s row ↔ s.ledger.Kept row := by
  constructor
  · intro h
    by_contra hlost
    rcases h with hrecorded | ⟨acts, u, -, hrun, hrecorded⟩
    · exact hlost (.inl hrecorded)
    · have hfuture : u.ledger.Lost row := alerts.run_invariant
        (fun hlost hstep => lost_step hlost hstep) ⟨hrow, hlost⟩ hrun
      exact hfuture.2 (.inl hrecorded)
  · rintro (hrecorded | ⟨p, stage, howes⟩)
    · exact .inl hrecorded
    · exact .inr (recorded_of_owed howes)

theorem alertsKept_iff (h : s.ledger.Sound) : AlertsKept s ↔ s.ledger.AllKept :=
  ⟨fun hkept row hrow => (alertKept_iff hrow).mp (hkept.kept row hrow),
    fun hall => ⟨fun row hrow => (alertKept_iff hrow).mpr (hall row hrow), h.once⟩⟩

theorem allKept_step (h : s.ledger.Sound) (hstep : alertStep s a = some t) :
    t.ledger.AllKept ↔ s.ledger.AllKept ∧ KeepsAlert s a := by
  by_cases hkeeps : KeepsAlert s a
  · rw [ClaimLedger.allKept_move (alertStep_move hkeeps hstep), and_iff_left hkeeps]
  · have hlost := h.not_allKept_drop (alertStep_drop hkeeps hstep)
    exact iff_of_false hlost fun hall => hkeeps hall.2

theorem sound_start (items : List WorkItem) : (AlertState.start items).ledger.Sound :=
  ClaimLedger.Sound.start

theorem sound_run (items : List WorkItem) (acts : List AlertAction)
    (hrun : alerts.run (.start items) acts = some t) : t.ledger.Sound :=
  alerts.run_invariant (fun h hstep => sound_step h hstep) (sound_start items) hrun

theorem allKept_run (items : List WorkItem) (acts : List AlertAction)
    (hrun : alerts.run (.start items) acts = some t) :
    t.ledger.AllKept ↔ alerts.Along KeepsAlert (.start items) acts := by
  have hstart : (AlertState.start items).ledger.AllKept := fun _ hk => absurd hk List.not_mem_nil
  have halong := alerts.along_iff (F := fun s => s.ledger.AllKept) (D := fun _ _ => True)
    (fun h _ hstep => sound_step h hstep) (fun h _ hstep => allKept_step h hstep)
    (sound_start items) (alerts.along_of_forall (fun _ _ => trivial) _ acts) hrun
  rw [halong, and_iff_right hstart]

/-- No alert is lost, and none is published twice, in exactly the runs in
which no claimed alert is dropped before its record. -/
theorem alerts_kept_iff (items : List WorkItem) (acts : List AlertAction) (t : AlertState)
    (hrun : alerts.run (.start items) acts = some t) :
    AlertsKept t ↔ alerts.Along KeepsAlert (.start items) acts := by
  rw [alertsKept_iff (sound_run items acts hrun), allKept_run items acts hrun]

end

/-- An epic that has been in review for two hours at minute 120. -/
def overdueEpic : WorkItem where
  id := 1
  orgId := 1
  itemKey := "EPIC-1"
  type := .epic
  title := "Ledger export"
  description := ""
  status := "In Review"
  workflowVersion := 1
  priority := .p2
  severity := none
  ownerId := some 2
  teamId := 1
  enteredStateAt := 0
  createdAt := 0
  agingBucket := .green
  agingScore := 0
  sla := ⟨0, none, false⟩
  customFields := []
  tags := []
  source := none

def reviewContext (minute : Int) : AlertContext :=
  ⟨[⟨1, .epic, "In Review", 60, .always, false⟩], [], minute * msPerMinute⟩

/-- The first pass stops after it has claimed the warning; the second runs
through. -/
def stoppedPass : List AlertAction :=
  [.begin 0 none (reviewContext 50), .advance 0 none, .stop 0,
    .begin 1 none (reviewContext 51), .advance 1 none, .advance 1 none, .advance 1 none]

theorem stopped_pass : ¬ ∀ (items : List WorkItem) (acts : List AlertAction) (t : AlertState),
    alerts.run (.start items) acts = some t → AlertsKept t := by
  intro h
  have hrun : (alerts.run (.start [overdueEpic]) stoppedPass).map (fun t =>
      (t.emissions.map (·.kind), t.recorded.length)) = some ([.warning], 0) := by decide +kernel
  obtain ⟨t, ht, -⟩ := Option.map_eq_some_iff.mp hrun
  have hall : t.ledger.AllKept :=
    (alertsKept_iff (sound_run _ _ ht)).mp (h [overdueEpic] stoppedPass t ht)
  have hkeeps := (allKept_run _ _ ht).mp hall
  exact absurd hkeeps (by decide +kernel)

/-- A pass that sends all three alerts; the team has a lead. -/
def wholePass : List AlertAction :=
  .begin 0 none (reviewContext 120) :: List.replicate 16 (.advance 0 (some 3))

theorem alerts_kept_whole : ∃ t, alerts.run (.start [overdueEpic]) wholePass = some t ∧
    t.recorded.map (·.2.detail.eventType) = ["SLAWarning", "SLABreached", "SLAEscalated"] ∧
      AlertsKept t := by
  have hrun : (alerts.run (.start [overdueEpic]) wholePass).map (fun t =>
      t.recorded.map (·.2.detail.eventType)) = some ["SLAWarning", "SLABreached", "SLAEscalated"] := by
    decide +kernel
  obtain ⟨t, ht, hevents⟩ := Option.map_eq_some_iff.mp hrun
  exact ⟨t, ht, hevents, (alerts_kept_iff [overdueEpic] wholePass t ht).mpr (by decide +kernel)⟩

end Cadena.WorkItems
