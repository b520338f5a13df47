import Cadena.Notifications.Routing

/-!
# Tenants and notification routing

The configuration calls of all tenants work on the same tables. What a tenant's
events are routed by are its own row of settings, the preferences of its own
people, and the escalation targets of its teams; the last are found by the team
alone when they are written (`StaysOut`).
-/

namespace Cadena.Notifications

open Cadena.Base

inductive ConfigCall where
  | setPreference (dto : UpdateNotificationPreferenceDto)
  | setTeamEscalationTarget (teamId : Uuid) (personId : Option Uuid)
  | updateSettings (dto : UpdateNotificationSettingsDto)

structure TenantCall where
  orgId : Uuid
  call : ConfigCall

def TenantCall.run (P : Platform) (t : RoutingTables) (c : TenantCall) :
    Except InvalidNotificationConfig RoutingTables :=
  match c.call with
  | .setPreference dto => Notifications.setPreference P t c.orgId dto
  | .setTeamEscalationTarget teamId personId =>
    Notifications.setTeamEscalationTarget t c.orgId teamId personId
  | .updateSettings dto => Notifications.updateSettings P t c.orgId dto

/-- A call that is refused has written nothing. -/
def serve (P : Platform) (t : RoutingTables) (c : TenantCall) : RoutingTables :=
  match c.run P t with
  | .ok t' => t'
  | .error _ => t

def serveAll (P : Platform) (t : RoutingTables) (calls : List TenantCall) : RoutingTables :=
  calls.foldl (serve P) t

def TenantCall.setsTarget (c : TenantCall) (teamId : Uuid) : Bool :=
  match c.call with
  | .setTeamEscalationTarget team _ => team == teamId
  | _ => false

def ownTeam (t : RoutingTables) (orgId : Uuid) (calls : List TenantCall) (teamId : Uuid) : Bool :=
  t.targets.any (fun r => r.teamId == teamId && r.orgId == orgId)
    || calls.any fun c => c.orgId == orgId && c.setsTarget teamId

/-- No other tenant sets the target of such a team to a person of its own or
to nobody. -/
def StaysOut (t : RoutingTables) (orgId : Uuid) (calls : List TenantCall) : Prop :=
  ∀ c ∈ calls, c.orgId ≠ orgId → ∀ teamId personId,
    c.call = .setTeamEscalationTarget teamId personId →
    (∀ id ∈ personId, (t.findPerson id c.orgId).isSome = true) → ownTeam t orgId calls teamId = false

/-! ## What a call writes -/

section
variable {P : Platform} {t u : RoutingTables} {c : TenantCall}

theorem findPerson_congr (h : t.people = u.people) (id orgId : Uuid) :
    t.findPerson id orgId = u.findPerson id orgId := by
  rw [RoutingTables.findPerson, h, RoutingTables.findPerson]

theorem checkPerson_ok {orgId id : Uuid} :
    checkPerson t orgId id = .ok () ↔ (t.findPerson id orgId).isSome = true := by
  unfold checkPerson
  cases t.findPerson id orgId <;> simp

theorem findPerson_org {id orgId orgId' : Uuid} (h : (t.findPerson id orgId).isSome = true)
    (h' : (t.findPerson id orgId').isSome = true) : orgId = orgId' := by
  obtain ⟨p, hp⟩ := Option.isSome_iff_exists.mp h
  obtain ⟨p', hp'⟩ := Option.isSome_iff_exists.mp h'
  have hid := List.find?_some hp
  have hid' := List.find?_some hp'
  rw [Bool.and_eq_true, beq_iff_eq, beq_iff_eq] at hid hid'
  have hsame : p = p' := Table.eq_of_key t.peopleKey (List.mem_of_find?_eq_some hp)
    (List.mem_of_find?_eq_some hp') (hid.1.trans hid'.1.symm)
  rw [← hid.2, ← hid'.2, hsame]

theorem settingsRow_org {current row : NotificationSettings} {dto : UpdateNotificationSettingsDto}
    (h : settingsRow P current dto = .ok row) : row.orgId = current.orgId := by
  unfold settingsRow at h
  cases hthreshold : checkThreshold current.escalationThresholdPercent
      dto.escalationThresholdPercent with
  | error e => rw [hthreshold] at h; cases h
  | ok threshold =>
    cases hchannels : checkChannels P current.unavailableChannels dto.unavailableChannels with
    | error e => rw [hthreshold, hchannels] at h; cases h
    | ok unavailable =>
      rw [hthreshold, hchannels] at h
      cases h
      rfl

theorem getSettings_org (t : RoutingTables) (orgId : Uuid) : (getSettings t orgId).orgId = orgId := by
  unfold getSettings
  cases h : t.settings.find? (·.orgId == orgId) with
  | none => rfl
  | some row => exact beq_iff_eq.mp (List.find?_some h :)

theorem preferenceRow_person {orgId : Uuid} {dto : UpdateNotificationPreferenceDto}
    {row : NotificationPreference} (h : preferenceRow P t orgId dto = .ok row) :
    (t.findPerson row.personId orgId).isSome = true := by
  unfold preferenceRow at h
  cases hperson : dto.personId with
  | none => rw [hperson] at h; cases h
  | some id =>
    rw [hperson] at h
    cases hcheck : checkPerson t orgId id with
    | error e => simp only [hcheck] at h; cases h
    | ok _ =>
      cases hchannel : parseChannel P (dto.channel.getD fallbackChannel.name) with
      | error e => simp only [hcheck, hchannel] at h; cases h
      | ok channel =>
        simp only [hcheck, hchannel] at h
        cases h
        exact checkPerson_ok.mp hcheck

theorem targetRow_ok {orgId teamId : Uuid} {personId : Option Uuid} {row : TeamEscalationTarget}
    (h : targetRow t orgId teamId personId = .ok row) :
    row = ⟨teamId, orgId, personId⟩ ∧ ∀ id ∈ personId, (t.findPerson id orgId).isSome = true := by
  cases personId with
  | none =>
    cases h
    exact ⟨rfl, fun _ hid => nomatch hid⟩
  | some id =>
    cases hcheck : checkPerson t orgId id with
    | error e => simp only [targetRow, hcheck] at h; cases h
    | ok _ =>
      simp only [targetRow, hcheck] at h
      cases h
      refine ⟨rfl, fun id' hid' => ?_⟩
      obtain rfl := Option.some.inj hid'
      exact checkPerson_ok.mp hcheck

theorem serve_cases (P : Platform) (t : RoutingTables) (c : TenantCall) :
    serve P t c = t ∨
    (∃ row : NotificationSettings, row.orgId = c.orgId ∧ serve P t c = t.upsertSettings row) ∨
    (∃ row : NotificationPreference, (t.findPerson row.personId c.orgId).isSome = true ∧
      serve P t c = t.upsertPreference row) ∨
    (∃ teamId personId, c.call = .setTeamEscalationTarget teamId personId ∧
      (∀ id ∈ personId, (t.findPerson id c.orgId).isSome = true) ∧
      serve P t c = t.upsertTarget ⟨teamId, c.orgId, personId⟩) := by
  unfold serve TenantCall.run
  cases hcall : c.call with
  | setPreference dto =>
    simp only [setPreference]
    cases hrow : preferenceRow P t c.orgId dto with
    | error e => exact .inl rfl
    | ok row => exact .inr (.inr (.inl ⟨row, preferenceRow_person hrow, rfl⟩))
  | setTeamEscalationTarget teamId personId =>
    simp only [setTeamEscalationTarget]
    cases hrow : targetRow t c.orgId teamId personId with
    | error e => exact .inl rfl
    | ok row =>
      obtain ⟨rfl, hperson⟩ := targetRow_ok hrow
      exact .inr (.inr (.inr ⟨teamId, personId, rfl, hperson, rfl⟩))
  | updateSettings dto =>
    simp only [updateSettings]
    cases hrow : settingsRow P (getSettings t c.orgId) dto with
    | error e => exact .inl rfl
    | ok row =>
      exact .inr (.inl ⟨row, (settingsRow_org hrow).trans (getSettings_org t c.orgId), rfl⟩)

@[simp] theorem serve_people (P : Platform) (t : RoutingTables) (c : TenantCall) :
    (serve P t c).people = t.people := by
  rcases serve_cases P t c with h | ⟨row, -, h⟩ | ⟨row, -, h⟩ | ⟨teamId, personId, -, -, h⟩ <;>
    rw [h] <;> rfl

end

/-! ## Two runs -/

/-- The tables look the same to a tenant with the teams `own`. -/
structure SameFor (orgId : Uuid) (own : Uuid → Bool) (t u : RoutingTables) : Prop where
  people : t.people = u.people
  settings : t.settings.filter (·.orgId == orgId) = u.settings.filter (·.orgId == orgId)
  preferences : t.preferences.filter (fun r => (t.findPerson r.personId orgId).isSome) =
    u.preferences.filter fun r => (t.findPerson r.personId orgId).isSome
  targets : t.targets.filter (own ·.teamId) = u.targets.filter (own ·.teamId)

def TargetsIn (orgId : Uuid) (own : Uuid → Bool) (t : RoutingTables) : Prop :=
  ∀ r ∈ t.targets, r.orgId = orgId → own r.teamId = true

/-- A query that asks for rows of a kind sees the rows of the kind only. -/
theorem find?_of_filter {ρ : Type} {p q : ρ → Bool} {l l' : List ρ} (hpq : ∀ r, p r = true → q r = true)
    (h : l.filter q = l'.filter q) : l.find? p = l'.find? p := by
  have hfilter (l : List ρ) : l.find? p = (l.filter q).find? p := by
    rw [List.find?_filter]
    congr 1
    funext r
    cases hp : p r with
    | false => simp
    | true => simp [hpq r hp]
  rw [hfilter l, hfilter l', h]

section
variable {P : Platform} {orgId : Uuid} {own : Uuid → Bool} {t u : RoutingTables} {c : TenantCall}

theorem SameFor.getSettings (h : SameFor orgId own t u) : getSettings t orgId = getSettings u orgId := by
  unfold Notifications.getSettings
  rw [find?_of_filter (fun _ hr => hr) h.settings]

theorem SameFor.getPreference (h : SameFor orgId own t u) {personId : Uuid}
    (hperson : (t.findPerson personId orgId).isSome = true) :
    getPreference t orgId personId = getPreference u orgId personId := by
  unfold Notifications.getPreference
  rw [find?_of_filter (fun r hr => ?_) h.preferences]
  rw [Bool.and_eq_true, beq_iff_eq] at hr
  rw [hr.1]
  exact hperson

theorem find?_target (ht : TargetsIn orgId own t) (teamId : Uuid) :
    t.targets.find? (fun r => r.teamId == teamId && r.orgId == orgId) =
      t.targets.find? fun r => own r.teamId && (r.teamId == teamId && r.orgId == orgId) := by
  rw [← List.head?_filter, ← List.head?_filter]
  congr 1
  refine List.filter_congr fun r hr => ?_
  by_cases horg : r.orgId = orgId
  · rw [ht r hr horg, Bool.true_and]
  · simp [horg]

theorem SameFor.resolveEscalationTarget (h : SameFor orgId own t u) (ht : TargetsIn orgId own t)
    (hu : TargetsIn orgId own u) (teamId : Option Uuid) :
    resolveEscalationTarget t orgId teamId = resolveEscalationTarget u orgId teamId := by
  cases teamId with
  | none => rfl
  | some team =>
    simp only [Notifications.resolveEscalationTarget, Option.bind_some, findTeamMemberByRole, h.people]
    rw [find?_target ht, find?_target hu, find?_of_filter (fun r hr => ?_) h.targets]
    exact (Bool.and_eq_true _ _ ▸ hr).1

theorem SameFor.addRecipient (h : SameFor orgId own t u) (personId : Option Uuid)
    (role : RecipientRole) (resolved : List ResolvedRecipient) :
    addRecipient t orgId personId role resolved = addRecipient u orgId personId role resolved := by
  unfold Notifications.addRecipient
  simp only [findPerson_congr h.people]

theorem SameFor.resolveRecipients (h : SameFor orgId own t u) (ht : TargetsIn orgId own t)
    (hu : TargetsIn orgId own u) (type : NotificationEventType) (payload : NotificationPayload) :
    resolveRecipients t orgId type payload = resolveRecipients u orgId type payload := by
  unfold Notifications.resolveRecipients
  simp only [h.addRecipient, h.resolveEscalationTarget ht hu, findTeamMemberByRole, h.people]

theorem addRecipient_person {personId : Option Uuid} {role : RecipientRole}
    {resolved : List ResolvedRecipient}
    (h : ∀ r ∈ resolved, (t.findPerson r.personId orgId).isSome = true) :
    ∀ r ∈ addRecipient t orgId personId role resolved,
      (t.findPerson r.personId orgId).isSome = true := by
  unfold Notifications.addRecipient
  cases personId with
  | none => exact h
  | some id =>
    dsimp only
    split
    · exact h
    · cases hperson : t.findPerson id orgId with
      | none => exact h
      | some p =>
        intro r hr
        rcases List.mem_append.mp hr with hr | hr
        · exact h r hr
        · obtain rfl := List.mem_singleton.mp hr
          exact Option.isSome_iff_exists.mpr ⟨p, hperson⟩

theorem resolveRecipients_person (t : RoutingTables) (orgId : Uuid) (type : NotificationEventType)
    (payload : NotificationPayload) : ∀ r ∈ resolveRecipients t orgId type payload,
      (t.findPerson r.personId orgId).isSome = true := by
  have hnil : ∀ r ∈ ([] : List ResolvedRecipient), (t.findPerson r.personId orgId).isSome = true :=
    fun r hr => absurd hr List.not_mem_nil
  cases type with
  | slaWarning => exact addRecipient_person hnil
  | slaBreached | slaEscalated | flowWaitRiskCrossed =>
    exact addRecipient_person (addRecipient_person hnil)

theorem SameFor.routing (h : SameFor orgId own t u) (ht : TargetsIn orgId own t)
    (hu : TargetsIn orgId own u) {event : NotificationEvent} (horg : event.payload.orgId = some orgId) :
    routing t event = routing u event := by
  unfold Notifications.routing
  rw [horg]
  dsimp only
  rw [h.getSettings, ← h.resolveRecipients ht hu]
  congr 1
  refine List.map_congr_left fun r hr => ?_
  unfold routeOf
  rw [h.getPreference (resolveRecipients_person t orgId _ _ r hr)]

/-! ## One call -/

theorem TargetsIn.serve (ht : TargetsIn orgId own t)
    (hown : c.orgId = orgId → ∀ teamId, c.setsTarget teamId = true → own teamId = true) :
    TargetsIn orgId own (serve P t c) := by
  rcases serve_cases P t c with h | ⟨row, -, h⟩ | ⟨row, -, h⟩ | ⟨teamId, personId, hcall, -, h⟩ <;>
    rw [h]
  · exact ht
  · exact ht
  · exact ht
  · intro r hr hrorg
    simp only [RoutingTables.upsertTarget, Table.upsert] at hr
    split at hr
    · rcases Table.mem_update.mp hr with ⟨q, hq, -, rfl⟩ | ⟨hq, -⟩
      · exact ht q hq hrorg
      · exact ht r hq hrorg
    · rcases List.mem_append.mp hr with hr | hr
      · exact ht r hr hrorg
      · obtain rfl := List.mem_singleton.mp hr
        exact hown hrorg teamId (by simp [TenantCall.setsTarget, hcall])

theorem SameFor.serve_other (h : SameFor orgId own t u) (hother : c.orgId ≠ orgId)
    (hout : ∀ teamId personId, c.call = .setTeamEscalationTarget teamId personId →
      (∀ id ∈ personId, (t.findPerson id c.orgId).isSome = true) → own teamId = false) :
    SameFor orgId own (serve P t c) u := by
  rcases serve_cases P t c with hserve | ⟨row, hrow, hserve⟩ | ⟨row, hrow, hserve⟩ |
    ⟨teamId, personId, hcall, hperson, hserve⟩ <;> rw [hserve]
  · exact h
  · refine ⟨h.people, ?_, h.preferences, h.targets⟩
    refine (Table.filter_upsert ?_ fun r _ hr => ?_).trans h.settings
    · simpa [hrow] using hother
    · simpa [hr, hrow] using hother
  · have hnot : (t.findPerson row.personId orgId).isSome = false := by
      rw [Bool.eq_false_iff]
      exact fun hsome => hother (findPerson_org hrow hsome)
    refine ⟨h.people, h.settings, ?_, h.targets⟩
    refine (Table.filter_upsert (q := fun r : NotificationPreference => (t.findPerson r.personId orgId).isSome) hnot
      fun r _ hr => ?_).trans h.preferences
    have hr : r.personId = row.personId := hr
    exact ⟨by rw [hr]; exact hnot, by rw [hr]; exact hnot⟩
  · have hnot := hout teamId personId hcall hperson
    refine ⟨h.people, h.settings, h.preferences, ?_⟩
    refine (Table.filter_upsert (q := fun r : TeamEscalationTarget => own r.teamId) hnot
      fun r _ hr => ?_).trans h.targets
    have hr : r.teamId = teamId := hr
    exact ⟨by rw [hr]; exact hnot, by rw [hr]; exact hnot⟩

theorem upsert_both {ρ : Type} (key : ρ → Uuid) (q : Uuid → Bool) (row : ρ) (f : ρ → ρ)
    (hf : ∀ r, key (f r) = key r) (hrow : q (key row) = true) {l l' : List ρ}
    (h : l.filter (fun r => q (key r)) = l'.filter fun r => q (key r)) :
    (Table.upsert key row f l).filter (fun r => q (key r)) =
      (Table.upsert key row f l').filter fun r => q (key r) := by
  rw [Table.filter_upsert_key hrow hf, h, Table.filter_upsert_key hrow hf]

theorem SameFor.upsertSettings (h : SameFor orgId own t u) {row : NotificationSettings}
    (hrow : row.orgId = orgId) : SameFor orgId own (t.upsertSettings row) (u.upsertSettings row) :=
  ⟨h.people, upsert_both (·.orgId) (· == orgId) row _ (by intro _; rfl)
    (beq_iff_eq.mpr hrow) h.settings, h.preferences, h.targets⟩

theorem SameFor.upsertPreference (h : SameFor orgId own t u) {row : NotificationPreference}
    (hrow : (t.findPerson row.personId orgId).isSome = true) :
    SameFor orgId own (t.upsertPreference row) (u.upsertPreference row) :=
  ⟨h.people, h.settings, upsert_both (fun r : NotificationPreference => r.personId)
    (fun id => (t.findPerson id orgId).isSome) row _ (by intro _; rfl) hrow h.preferences, h.targets⟩

theorem SameFor.upsertTarget (h : SameFor orgId own t u) {row : TeamEscalationTarget}
    (hrow : own row.teamId = true) :
    SameFor orgId own (t.upsertTarget row) (u.upsertTarget row) :=
  ⟨h.people, h.settings, h.preferences,
    upsert_both (·.teamId) own row _ (by intro _; rfl) hrow h.targets⟩

theorem preferenceRow_congr (h : t.people = u.people) (dto : UpdateNotificationPreferenceDto) :
    preferenceRow P t orgId dto = preferenceRow P u orgId dto := by
  simp only [preferenceRow, checkPerson, findPerson_congr h]

theorem targetRow_congr (h : t.people = u.people) (teamId : Uuid) (personId : Option Uuid) :
    targetRow t orgId teamId personId = targetRow u orgId teamId personId := by
  simp only [targetRow, checkPerson, findPerson_congr h]

theorem SameFor.serve_own (h : SameFor orgId own t u) (hc : c.orgId = orgId)
    (hown : ∀ teamId, c.setsTarget teamId = true → own teamId = true) :
    SameFor orgId own (serve P t c) (serve P u c) := by
  unfold serve TenantCall.run
  rw [hc]
  cases hcall : c.call with
  | setPreference dto =>
    simp only [setPreference, preferenceRow_congr h.people]
    cases hrow : preferenceRow P u orgId dto with
    | error e => exact h
    | ok row =>
      refine h.upsertPreference ?_
      rw [findPerson_congr h.people]
      exact preferenceRow_person hrow
  | setTeamEscalationTarget teamId personId =>
    simp only [setTeamEscalationTarget, targetRow_congr h.people]
    cases hrow : targetRow u orgId teamId personId with
    | error e => exact h
    | ok row =>
      obtain ⟨rfl, -⟩ := targetRow_ok hrow
      exact h.upsertTarget (hown teamId (by simp [TenantCall.setsTarget, hcall]))
  | updateSettings dto =>
    simp only [updateSettings, h.getSettings]
    cases hrow : settingsRow P (Notifications.getSettings u orgId) dto with
    | error e => exact h
    | ok row => exact h.upsertSettings ((settingsRow_org hrow).trans (getSettings_org u orgId))

theorem SameFor.serveAll (h : SameFor orgId own t u) (ht : TargetsIn orgId own t)
    (hu : TargetsIn orgId own u) (calls : List TenantCall)
    (hown : ∀ c ∈ calls, c.orgId = orgId → ∀ teamId, c.setsTarget teamId = true → own teamId = true)
    (hout : ∀ c ∈ calls, c.orgId ≠ orgId → ∀ teamId personId,
      c.call = .setTeamEscalationTarget teamId personId →
      (∀ id ∈ personId, (t.findPerson id c.orgId).isSome = true) → own teamId = false) :
    SameFor orgId own (serveAll P t calls) (serveAll P u (calls.filter (·.orgId == orgId))) ∧
      TargetsIn orgId own (serveAll P t calls) ∧
      TargetsIn orgId own (serveAll P u (calls.filter (·.orgId == orgId))) := by
  induction calls generalizing t u with
  | nil => exact ⟨h, ht, hu⟩
  | cons c calls ih =>
    have hmem : c ∈ c :: calls := List.mem_cons_self
    have hrest : ∀ d ∈ calls, d.orgId ≠ orgId → ∀ teamId personId,
        d.call = .setTeamEscalationTarget teamId personId →
        (∀ id ∈ personId, ((serve P t c).findPerson id d.orgId).isSome = true) →
        own teamId = false := by
      intro d hd hdorg teamId personId hcall hperson
      refine hout d (List.mem_cons_of_mem _ hd) hdorg teamId personId hcall fun id hid => ?_
      rw [← findPerson_congr (serve_people P t c)]
      exact hperson id hid
    have hrestOwn := fun d hd => hown d (List.mem_cons_of_mem c hd)
    by_cases hc : c.orgId = orgId
    · rw [List.filter_cons_of_pos (by simpa using hc)]
      exact ih (h.serve_own hc (hown c hmem hc)) (ht.serve fun _ => hown c hmem hc)
        (hu.serve fun _ => hown c hmem hc) hrestOwn hrest
    · rw [List.filter_cons_of_neg (by simpa using hc)]
      exact ih (h.serve_other hc (hout c hmem hc)) (ht.serve fun heq => absurd heq hc) hu
        hrestOwn hrest

/-- The events of a tenant are routed as if the other tenants had called
nothing, whatever the tenant itself calls in between. -/
theorem routing_isolated (P : Platform) (t : RoutingTables) (orgId : Uuid) (calls : List TenantCall)
    (hout : StaysOut t orgId calls) (event : NotificationEvent)
    (horg : event.payload.orgId = some orgId) :
    routing (serveAll P t calls) event =
      routing (serveAll P t (calls.filter (·.orgId == orgId))) event := by
  have htargets : TargetsIn orgId (ownTeam t orgId calls) t := by
    intro r hr hrorg
    exact Bool.or_eq_true_iff.mpr (.inl (List.any_eq_true.mpr ⟨r, hr, by simp [hrorg]⟩))
  have hown : ∀ c ∈ calls, c.orgId = orgId → ∀ teamId, c.setsTarget teamId = true →
      ownTeam t orgId calls teamId = true := by
    intro c hc hcorg teamId hset
    exact Bool.or_eq_true_iff.mpr (.inr (List.any_eq_true.mpr ⟨c, hc, by simp [hcorg, hset]⟩))
  obtain ⟨hsame, ht, hu⟩ :=
    SameFor.serveAll (P := P) ⟨rfl, rfl, rfl, rfl⟩ htargets htargets calls hown hout
  exact hsame.routing ht hu horg

end

/-- Tenant 1 with an engineer and its target for team 10; tenant 2 with a
person of team 20. -/
def twoTenants : RoutingTables where
  people := [⟨100, 1, 10, "Ada", "ada@one.example", "engineer"⟩,
    ⟨200, 2, 20, "Bob", "bob@two.example", "on_call"⟩]
  settings := []
  preferences := []
  targets := [⟨10, 1, some 100⟩]
  peopleKey := by decide
  settingsKey := List.nodup_nil
  preferencesKey := List.nodup_nil
  targetsKey := by decide

/-- An escalation on an item of team 10 that nobody owns. -/
def escalationOfTeam10 : NotificationEvent where
  eventId := 7
  eventType := .slaEscalated
  workItemId := 8
  payload :=
    { orgId := some 1, workItemId := 8, ownerId := none, teamLeadId := none, teamId := some 10
      status := some "Triage", agingScore := 150, thresholdMinutes := 60, percentile := 0
      currentWaitMinutes := 0, sampleSize := 0, probabilityExceedTarget := none, targetMinutes := 0 }

/-- A stranger takes the target of a team over, and its escalations reach
nobody. -/
theorem taken_over_target :
    (routing twoTenants escalationOfTeam10).2.map (·.recipient.personId) = [100] ∧
    (routing (serveAll .ascii twoTenants [⟨2, .setTeamEscalationTarget 10 (some 200)⟩])
      escalationOfTeam10).2 = [] := by
  decide

/-- A call on a team of the stranger's own changes nothing. -/
theorem routing_isolated_own_team :
    routing (serveAll .ascii twoTenants [⟨2, .setTeamEscalationTarget 20 (some 200)⟩])
      escalationOfTeam10 = routing twoTenants escalationOfTeam10 := by
  refine routing_isolated .ascii twoTenants 1 _ ?_ escalationOfTeam10 rfl
  intro c hc _ teamId personId hcall _
  obtain rfl := List.mem_singleton.mp hc
  cases hcall
  decide

end Cadena.Notifications
