import Cadena.Base.Table
import Cadena.Base.Text
import Mathlib.Data.Rat.Floor

/-!
# Notification routing

Who hears about an SLA event, and on which channels: the tables that the
notification service routes by, the three calls that configure them, and the
recipients, preferences and addresses that `handleSlaEvent` reads from them.
Times of creation and update are left out.
-/

namespace Cadena.Notifications

open Cadena.Base

inductive NotificationChannel where
  | email | slack | teams
  deriving DecidableEq

def NotificationChannel.name : NotificationChannel → String
  | .email => "email"
  | .slack => "slack"
  | .teams => "teams"

def notificationChannels : List NotificationChannel := [.email, .slack, .teams]

def fallbackChannel : NotificationChannel := .email

def defaultEscalationThresholdPercent : Int := 150

inductive NotificationEventType where
  | slaWarning | slaBreached | slaEscalated | flowWaitRiskCrossed
  deriving DecidableEq

inductive RecipientRole where
  | owner | teamLead | escalationTarget
  deriving DecidableEq

/-- A row of `people`; `id` is its key. -/
structure Person where
  id : Uuid
  orgId : Uuid
  teamId : Uuid
  name : String
  email : String
  role : String
  deriving DecidableEq

/-- A row of `notification_settings`; `orgId` is its key. -/
structure NotificationSettings where
  orgId : Uuid
  escalationThresholdPercent : Int
  unavailableChannels : List NotificationChannel
  deriving DecidableEq

/-- A row of `notification_preferences`; `personId` is its key. -/
structure NotificationPreference where
  personId : Uuid
  orgId : Uuid
  channel : NotificationChannel
  address : Option String
  deriving DecidableEq

/-- A row of `team_escalation_targets`; `teamId` is its key. -/
structure TeamEscalationTarget where
  teamId : Uuid
  orgId : Uuid
  escalationPersonId : Option Uuid
  deriving DecidableEq

structure RoutingTables where
  people : List Person
  settings : List NotificationSettings
  preferences : List NotificationPreference
  targets : List TeamEscalationTarget
  peopleKey : (people.map (·.id)).Nodup
  settingsKey : (settings.map (·.orgId)).Nodup
  preferencesKey : (preferences.map (·.personId)).Nodup
  targetsKey : (targets.map (·.teamId)).Nodup

def RoutingTables.findPerson (t : RoutingTables) (id orgId : Uuid) : Option Person :=
  t.people.find? fun p => p.id == id && p.orgId == orgId

def RoutingTables.upsertSettings (t : RoutingTables) (row : NotificationSettings) : RoutingTables :=
  { t with
    settings := Table.upsert (·.orgId) row (fun r => { r with
      escalationThresholdPercent := row.escalationThresholdPercent
      unavailableChannels := row.unavailableChannels }) t.settings
    settingsKey := Table.nodup_upsert (fun _ => rfl) t.settingsKey }

/-- A conflict leaves the tenant of the row as it is. -/
def RoutingTables.upsertPreference (t : RoutingTables) (row : NotificationPreference) :
    RoutingTables :=
  { t with
    preferences := Table.upsert (·.personId) row (fun r => { r with
      channel := row.channel, address := row.address }) t.preferences
    preferencesKey := Table.nodup_upsert (fun _ => rfl) t.preferencesKey }

/-- A conflict leaves the tenant of the row as it is. -/
def RoutingTables.upsertTarget (t : RoutingTables) (row : TeamEscalationTarget) : RoutingTables :=
  { t with
    targets := Table.upsert (·.teamId) row (fun r => { r with
      escalationPersonId := row.escalationPersonId }) t.targets
    targetsKey := Table.nodup_upsert (fun _ => rfl) t.targetsKey }

/-! ## Configuration -/

/-- `InvalidNotificationConfigError` with its message. -/
structure InvalidNotificationConfig where
  message : String
  deriving DecidableEq

def getSettings (t : RoutingTables) (orgId : Uuid) : NotificationSettings :=
  (t.settings.find? (·.orgId == orgId)).getD ⟨orgId, defaultEscalationThresholdPercent, []⟩

def getPreference (t : RoutingTables) (orgId personId : Uuid) : NotificationPreference :=
  (t.preferences.find? fun r => r.personId == personId && r.orgId == orgId).getD
    ⟨personId, orgId, fallbackChannel, none⟩

def parseChannel (P : Platform) (value : String) : Except InvalidNotificationConfig NotificationChannel :=
  match notificationChannels.find? (·.name == P.toLowerCase value) with
  | some channel => .ok channel
  | none => .error ⟨"channel must be one of: email, slack, teams"⟩

/-- The list of channels in a request; `other` is any value that is no array. -/
inductive ChannelNames where
  | array (names : List String)
  | other

structure UpdateNotificationSettingsDto where
  escalationThresholdPercent : Option Rat
  unavailableChannels : Option ChannelNames

structure UpdateNotificationPreferenceDto where
  personId : Option Uuid
  channel : Option String
  address : Option String

def checkThreshold (current : Int) : Option Rat → Except InvalidNotificationConfig Int
  | none => .ok current
  | some value =>
    if value.den ≠ 1 ∨ value ≤ 100 then
      .error ⟨"escalation_threshold_percent must be a whole number greater than 100, " ++
        "because escalation happens after a breach"⟩
    else .ok value.num

def checkChannels (P : Platform) (current : List NotificationChannel) :
    Option ChannelNames → Except InvalidNotificationConfig (List NotificationChannel)
  | none => .ok current
  | some .other => .error ⟨"unavailable_channels must be an array of channel names"⟩
  | some (.array names) => names.mapM (parseChannel P)

def settingsRow (P : Platform) (current : NotificationSettings)
    (dto : UpdateNotificationSettingsDto) : Except InvalidNotificationConfig NotificationSettings := do
  let threshold ← checkThreshold current.escalationThresholdPercent dto.escalationThresholdPercent
  let unavailable ← checkChannels P current.unavailableChannels dto.unavailableChannels
  return ⟨current.orgId, threshold, unavailable⟩

def updateSettings (P : Platform) (t : RoutingTables) (orgId : Uuid)
    (dto : UpdateNotificationSettingsDto) : Except InvalidNotificationConfig RoutingTables :=
  (settingsRow P (getSettings t orgId) dto).map t.upsertSettings

def checkPerson (t : RoutingTables) (orgId personId : Uuid) : Except InvalidNotificationConfig Unit :=
  match t.findPerson personId orgId with
  | some _ => .ok ()
  | none =>
    .error ⟨"Person '" ++ String.ofList (uuidText personId) ++ "' not found in this tenant"⟩

def preferenceRow (P : Platform) (t : RoutingTables) (orgId : Uuid)
    (dto : UpdateNotificationPreferenceDto) : Except InvalidNotificationConfig NotificationPreference :=
  match dto.personId with
  | none => .error ⟨"person_id is required"⟩
  | some personId => do
    checkPerson t orgId personId
    let channel ← parseChannel P (dto.channel.getD fallbackChannel.name)
    return ⟨personId, orgId, channel, dto.address⟩

def setPreference (P : Platform) (t : RoutingTables) (orgId : Uuid)
    (dto : UpdateNotificationPreferenceDto) : Except InvalidNotificationConfig RoutingTables :=
  (preferenceRow P t orgId dto).map t.upsertPreference

def targetRow (t : RoutingTables) (orgId teamId : Uuid) (personId : Option Uuid) :
    Except InvalidNotificationConfig TeamEscalationTarget := do
  if let some id := personId then checkPerson t orgId id
  return ⟨teamId, orgId, personId⟩

def setTeamEscalationTarget (t : RoutingTables) (orgId teamId : Uuid) (personId : Option Uuid) :
    Except InvalidNotificationConfig RoutingTables :=
  (targetRow t orgId teamId personId).map t.upsertTarget

/-! ## Recipients -/

/-- The payload of an event, as far as the service reads it. -/
structure NotificationPayload where
  orgId : Option Uuid
  workItemId : Uuid
  ownerId : Option Uuid
  teamLeadId : Option Uuid
  teamId : Option Uuid
  status : Option String
  agingScore : Rat
  thresholdMinutes : Int
  percentile : Rat
  currentWaitMinutes : Rat
  sampleSize : Nat
  probabilityExceedTarget : Option Rat
  targetMinutes : Int

structure NotificationEvent where
  eventId : Uuid
  eventType : NotificationEventType
  workItemId : Uuid
  payload : NotificationPayload

structure ResolvedRecipient where
  personId : Uuid
  role : RecipientRole
  name : String
  email : String
  deriving DecidableEq

/-- `add`: a person of the tenant who is not on the list yet. -/
def addRecipient (t : RoutingTables) (orgId : Uuid) (personId : Option Uuid) (role : RecipientRole)
    (resolved : List ResolvedRecipient) : List ResolvedRecipient :=
  match personId with
  | none => resolved
  | some id =>
    if resolved.any (·.personId == id) then resolved
    else
      match t.findPerson id orgId with
      | none => resolved
      | some p => resolved ++ [⟨id, role, p.name, p.email⟩]

/-- The rows are not filtered by tenant. -/
def findTeamMemberByRole (t : RoutingTables) (teamId : Option Uuid) (role : String) : Option Uuid :=
  teamId.bind fun team => (t.people.find? fun p => p.teamId == team && p.role == role).map (·.id)

def resolveEscalationTarget (t : RoutingTables) (orgId : Uuid) (teamId : Option Uuid) : Option Uuid :=
  teamId.bind fun team =>
    let configured := t.targets.find? fun r => r.teamId == team && r.orgId == orgId
    (configured.bind (·.escalationPersonId)).or
      ((findTeamMemberByRole t teamId "on_call").or (findTeamMemberByRole t teamId "team_lead"))

def resolveRecipients (t : RoutingTables) (orgId : Uuid) (type : NotificationEventType)
    (payload : NotificationPayload) : List ResolvedRecipient :=
  match type with
  | .slaWarning => addRecipient t orgId payload.ownerId .owner []
  | .slaBreached =>
    let lead := payload.teamLeadId.or (findTeamMemberByRole t payload.teamId "team_lead")
    addRecipient t orgId lead .teamLead (addRecipient t orgId payload.ownerId .owner [])
  | .slaEscalated | .flowWaitRiskCrossed =>
    let target := resolveEscalationTarget t orgId payload.teamId
    addRecipient t orgId payload.ownerId .owner (addRecipient t orgId target .escalationTarget [])

def channelOrder (preference : NotificationPreference) (recipient : ResolvedRecipient) :
    List (NotificationChannel × Option String) :=
  if preference.channel = fallbackChannel then
    -- `||`: an empty address counts as none
    [(fallbackChannel, some ((preference.address.filter (· ≠ "")).getD recipient.email))]
  else [(preference.channel, preference.address), (fallbackChannel, some recipient.email)]

structure DeliveryOutcome where
  delivered : Bool
  error : Option String
  deriving DecidableEq

/-- The pilot adapter of a channel; `transmit` sends nothing and reports success. -/
def deliver (unavailable : List NotificationChannel) (channel : NotificationChannel)
    (address : Option String) : DeliveryOutcome :=
  if unavailable.contains channel then
    ⟨false, some (channel.name ++ " is currently unavailable for this tenant")⟩
  else if address.all fun a => (trim a.toList).isEmpty then
    ⟨false, some ("no " ++ channel.name ++ " address is configured for this recipient")⟩
  else ⟨true, none⟩

structure Route where
  recipient : ResolvedRecipient
  requested : NotificationChannel
  order : List (NotificationChannel × Option String)
  deriving DecidableEq

def routeOf (t : RoutingTables) (orgId : Uuid) (recipient : ResolvedRecipient) : Route :=
  let preference := getPreference t orgId recipient.personId
  ⟨recipient, preference.channel, channelOrder preference recipient⟩

/-- What `handleSlaEvent` resolves for an event: the channels that are out of
service, and the recipients with their channels and addresses. -/
def routing (t : RoutingTables) (event : NotificationEvent) : List NotificationChannel × List Route :=
  match event.payload.orgId with
  | none => ([], [])
  | some orgId =>
    ((getSettings t orgId).unavailableChannels,
      (resolveRecipients t orgId event.eventType event.payload).map (routeOf t orgId))

end Cadena.Notifications
