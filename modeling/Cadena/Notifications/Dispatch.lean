import Cadena.Base.SendLedger
import Cadena.Base.Transition
import Cadena.Connectors.Types
import Cadena.Notifications.Routing

/-!
# Dispatch of an SLA event

`handleSlaEvent` goes through the recipients of the event. For each it looks
for a row of `notifications`, tries the channels one after the other, and
inserts the row. An attempt that throws or stops anywhere is followed by
another. The row comes after the message, so an attempt that ends between the
two has the message sent again (`KeepsMessage`).
-/

namespace Cadena.Notifications

open Cadena.Base Cadena.Connectors

/-! ## Messages -/

/-- The columns of `work_items` that the service reads and writes. -/
structure ItemRow where
  id : Uuid
  orgId : Uuid
  itemKey : Option String
  title : String
  status : String
  escalatedAt : Option Millis

def loadWorkItem (items : List ItemRow) (orgId workItemId : Uuid) : Option ItemRow :=
  items.find? fun i => i.id == workItemId && i.orgId == orgId

/-- `Math.round`, in decimal. -/
def roundText (x : Rat) : String := toString (x + 1 / 2).floor

/-- The subject and the body. -/
def composeMessage (type : NotificationEventType) (recipient : ResolvedRecipient)
    (payload : NotificationPayload) (item : Option ItemRow) : String × String :=
  let key := orText (item.bind (·.itemKey)) (String.ofList (uuidText payload.workItemId))
  let score := roundText payload.agingScore
  let state := orText (item.map (·.status)) (orText payload.status "its current state")
  let title := orText (item.map (·.title)) "Work item"
  let opening := recipient.name ++ ", " ++ key ++ " \"" ++ title ++ "\" has "
  match type with
  | .slaWarning =>
    ("[SLA warning] " ++ key ++ " has consumed " ++ score ++ "% of its SLA",
      opening ++ "consumed " ++ score ++ "% of its " ++ state ++ " SLA (" ++
        toString payload.thresholdMinutes ++ " minute threshold). Act before it breaches.")
  | .slaBreached =>
    ("[SLA breached] " ++ key ++ " is past its " ++ state ++ " SLA",
      opening ++ "breached its " ++ state ++ " SLA at " ++ score ++ "% of a " ++
        toString payload.thresholdMinutes ++ " minute threshold.")
  | .flowWaitRiskCrossed =>
    let percentile := roundText (payload.percentile * 100)
    let overrun :=
      match payload.probabilityExceedTarget with
      | none => ""
      | some p => " Estimated chance of exceeding its " ++ toString payload.targetMinutes ++
          " minute target: " ++ roundText (p * 100) ++ "%."
    ("[Waiting risk] " ++ key ++ " has waited longer than " ++ percentile ++
        "% of comparable items in " ++ state,
      opening ++ "been in " ++ state ++ " for " ++ roundText payload.currentWaitMinutes ++
        " business minutes, longer than " ++ percentile ++ "% of " ++
        toString payload.sampleSize ++ " comparable completed visits." ++ overrun ++
        " This is an estimate from history, not a breach.")
  | .slaEscalated =>
    ("[Escalation] " ++ key ++ " is at " ++ score ++ "% of its SLA",
      opening ++ "reached " ++ score ++ "% of its " ++ state ++ " SLA and has been escalated. " ++
        "It is flagged as escalated work until someone moves it.")

inductive NotificationStatus where
  | sent | fallbackSent | failed
  deriving DecidableEq

/-- A row of `notifications`; event and recipient are unique together. -/
structure NotificationRow where
  id : Uuid
  orgId : Uuid
  eventId : Uuid
  eventType : NotificationEventType
  workItemId : Uuid
  workItemKey : Option String
  recipientId : Uuid
  recipientRole : RecipientRole
  requestedChannel : NotificationChannel
  channel : NotificationChannel
  status : NotificationStatus
  subject : String
  body : String
  attempts : List (NotificationChannel × DeliveryOutcome × Millis)
  error : Option String
  deliveredAt : Option Millis

/-- A message that an adapter was given. -/
structure OutboundMessage where
  channel : NotificationChannel
  address : Option String
  subject : String
  body : String
  recipientId : Uuid
  workItemKey : Option String

structure DispatchSummary where
  notifications : List NotificationRow
  skipped : List (Uuid × String)

/-! ## An attempt -/

/-- What `dispatch` has found out about a recipient so far. -/
structure Dispatch where
  recipient : ResolvedRecipient
  preference : NotificationPreference
  message : String × String
  attempts : List (NotificationChannel × DeliveryOutcome × Millis)
  lastError : Option String

/-- The next statement of an attempt. -/
inductive DispatchPhase where
  | next
  | prefer (recipient : ResolvedRecipient)
  | deliver (d : Dispatch) (order : List (NotificationChannel × Option String))
  | insert (d : Dispatch) (deliveredOn : Option NotificationChannel)
  | stored (recipient : ResolvedRecipient)
  | escalate
  | return

structure Attempt where
  orgId : Uuid
  recipients : List ResolvedRecipient
  unavailable : List NotificationChannel
  item : Option ItemRow
  todo : List ResolvedRecipient
  phase : DispatchPhase
  summary : DispatchSummary

/-- `delivered` are the messages that an adapter has reported as delivered and
`returned` the attempts that have returned, each with the recipients it had
resolved. -/
structure DispatchState where
  tables : RoutingTables
  items : List ItemRow
  notifications : List NotificationRow
  delivered : List OutboundMessage
  returned : List (List ResolvedRecipient × DispatchSummary)
  attempt : Option Attempt

/-- `abort` ends the attempt: its next statement throws, or its process stops.
`configure` is whatever others do to the tables that are read. -/
inductive DispatchAction where
  | start
  | advance (id : Uuid) (now : Millis)
  | abort
  | configure (tables : RoutingTables) (items : List ItemRow)

section
variable (event : NotificationEvent)

/-- The reads before the loop; an event without a tenant is done with. -/
def beginAttempt (s : DispatchState) : Attempt :=
  match event.payload.orgId with
  | none => ⟨0, [], [], none, [], .return, ⟨[], []⟩⟩
  | some orgId =>
    let recipients := resolveRecipients s.tables orgId event.eventType event.payload
    ⟨orgId, recipients, (getSettings s.tables orgId).unavailableChannels,
      loadWorkItem s.items orgId event.workItemId, recipients, .next, ⟨[], []⟩⟩

def NotificationRow.isFor (recipientId : Uuid) (row : NotificationRow) : Bool :=
  row.eventId == event.eventId && row.recipientId == recipientId

def Dispatch.status (d : Dispatch) : Option NotificationChannel → NotificationStatus
  | none => .failed
  | some channel => if channel = d.preference.channel then .sent else .fallbackSent

def notificationRow (a : Attempt) (d : Dispatch) (deliveredOn : Option NotificationChannel)
    (id : Uuid) (now : Millis) : NotificationRow where
  id := id
  orgId := a.orgId
  eventId := event.eventId
  eventType := event.eventType
  workItemId := event.workItemId
  workItemKey := a.item.bind (·.itemKey)
  recipientId := d.recipient.personId
  recipientRole := d.recipient.role
  requestedChannel := d.preference.channel
  channel := deliveredOn.getD d.preference.channel
  status := d.status deliveredOn
  subject := d.message.1
  body := d.message.2
  attempts := d.attempts
  error := if d.status deliveredOn = .failed then d.lastError else none
  deliveredAt := deliveredOn.map fun _ => now

def DispatchState.goOn (s : DispatchState) (a : Attempt) : DispatchState := { s with attempt := some a }

/-- The top of the loop. -/
def nextStep (s : DispatchState) (a : Attempt) : DispatchState :=
  match a.todo with
  | [] => s.goOn { a with phase := if event.eventType = .slaEscalated then .escalate else .return }
  | recipient :: rest =>
    if s.notifications.any (·.isFor event recipient.personId) then
      let skipped := a.summary.skipped ++ [(recipient.personId, "already notified for this event")]
      s.goOn { a with todo := rest, summary := { a.summary with skipped := skipped } }
    else s.goOn { a with todo := rest, phase := .prefer recipient }

/-- The next channel. -/
def deliverStep (s : DispatchState) (a : Attempt) (d : Dispatch) (now : Millis) :
    List (NotificationChannel × Option String) → DispatchState
  | [] => s.goOn { a with phase := .insert d none }
  | (channel, address) :: rest =>
    let outcome := deliver a.unavailable channel address
    let attempts := d.attempts ++ [(channel, outcome, now)]
    if outcome.delivered then
      { s.goOn { a with phase := .insert { d with attempts := attempts } (some channel) } with
        delivered := s.delivered ++ [⟨channel, address, d.message.1, d.message.2,
          d.recipient.personId, a.item.bind (·.itemKey)⟩] }
    else
      let error := orText outcome.error (channel.name ++ " delivery failed")
      s.goOn { a with phase := .deliver { d with attempts := attempts, lastError := some error } rest }

/-- The insertion does nothing where there is a row already. -/
def insertStep (s : DispatchState) (a : Attempt) (d : Dispatch)
    (deliveredOn : Option NotificationChannel) (id : Uuid) (now : Millis) : DispatchState :=
  let next := s.goOn { a with phase := .stored d.recipient }
  if s.notifications.any (·.isFor event d.recipient.personId) then next
  else { next with notifications := s.notifications ++ [notificationRow event a d deliveredOn id now] }

def attemptStep (s : DispatchState) (a : Attempt) (id : Uuid) (now : Millis) : DispatchState :=
  match a.phase with
  | .next => nextStep event s a
  | .prefer recipient =>
    let preference := getPreference s.tables a.orgId recipient.personId
    let message := composeMessage event.eventType recipient event.payload a.item
    s.goOn { a with
      phase := .deliver ⟨recipient, preference, message, [], none⟩ (channelOrder preference recipient) }
  | .deliver d order => deliverStep s a d now order
  | .insert d deliveredOn => insertStep event s a d deliveredOn id now
  | .stored recipient =>
    match s.notifications.find? (·.isFor event recipient.personId) with
    | none => { s with attempt := none }
    | some row =>
      let notifications := a.summary.notifications ++ [row]
      s.goOn { a with phase := .next, summary := { a.summary with notifications := notifications } }
  | .escalate =>
    { s.goOn { a with phase := .return } with
      items := Table.update (fun i => i.id == event.workItemId && i.orgId == a.orgId)
        (fun i => { i with escalatedAt := i.escalatedAt.or (some now) }) s.items }
  | .return => { s with attempt := none, returned := s.returned ++ [(a.recipients, a.summary)] }

def dispatchStep (s : DispatchState) : DispatchAction → Option DispatchState
  | .start =>
    match s.attempt with
    | some _ => none
    | none => some (s.goOn (beginAttempt event s))
  | .advance id now => s.attempt.map fun a => attemptStep event s a id now
  | .abort => some { s with attempt := none }
  | .configure tables items => some { s with tables := tables, items := items }

def dispatching : System DispatchState DispatchAction := ⟨dispatchStep event⟩

end

/-! ## What is owed to the recipients -/

/-- Whom the attempt works on, and whether a message has gone out. -/
def Attempt.work (a : Attempt) : Option (Uuid × Bool) :=
  match a.phase with
  | .prefer recipient => some (recipient.personId, false)
  | .deliver d _ => some (d.recipient.personId, false)
  | .insert d deliveredOn => some (d.recipient.personId, deliveredOn.isSome)
  | .next | .stored _ | .escalate | .return => none

/-- A message has gone out that has no row yet. -/
def Attempt.messageOut (a : Attempt) : Bool := (a.work.map (·.2)).getD false

/-- No attempt ends with such a message. -/
def KeepsMessage (s : DispatchState) : DispatchAction → Prop
  | .abort => ∀ a ∈ s.attempt, a.messageOut = false
  | _ => True

instance (s : DispatchState) : ∀ a, Decidable (KeepsMessage s a)
  | .abort => inferInstanceAs (Decidable (∀ a ∈ s.attempt, a.messageOut = false))
  | .start | .advance .. | .configure .. => isTrue trivial

def DispatchState.notified (s : DispatchState) : List Uuid := s.delivered.map (·.recipientId)

section
variable (event : NotificationEvent)

def DispatchState.rows (s : DispatchState) : List NotificationRow :=
  s.notifications.filter (·.eventId == event.eventId)

def NotificationRow.entry (row : NotificationRow) : Uuid × Bool :=
  (row.recipientId, decide (row.status ≠ .failed))

def DispatchState.ledger (s : DispatchState) : SendLedger Uuid where
  sent := s.notified
  rows := (s.rows event).map (·.entry)
  work := s.attempt.bind Attempt.work

/-- Nobody is told twice, and whoever an attempt that has returned had resolved
has one row, which says whether a message was delivered. -/
structure OneMessageEach (s : DispatchState) : Prop where
  once : s.notified.Nodup
  returned : ∀ attempt ∈ s.returned, ∀ r ∈ attempt.1, ∃ row,
    s.notifications.filter (·.isFor event r.personId) = [row] ∧
    (row.status ≠ .failed ↔ r.personId ∈ s.notified)

/-- The recipients without a row that the attempt will still come to. -/
def Attempt.open (a : Attempt) : List Uuid :=
  (a.work.map (·.1)).toList ++ a.todo.map (·.personId)

structure Progress (s : DispatchState) : Prop where
  resolved : ∀ a ∈ s.attempt, ∀ r ∈ a.recipients,
    r.personId ∈ a.open ∨ (s.ledger event).HasRow r.personId
  ended : ∀ a ∈ s.attempt, a.phase = .escalate ∨ a.phase = .return → a.todo = []
  returned : ∀ attempt ∈ s.returned, ∀ r ∈ attempt.1, (s.ledger event).HasRow r.personId

variable {event : NotificationEvent} {s t : DispatchState} {a : Attempt}

theorem hasRow_iff {id : Uuid} :
    (s.ledger event).HasRow id ↔ s.notifications.any (·.isFor event id) = true := by
  simp only [SendLedger.HasRow, DispatchState.ledger, DispatchState.rows, List.mem_map,
    List.mem_filter, NotificationRow.entry, Prod.mk.injEq, List.any_eq_true,
    NotificationRow.isFor, Bool.and_eq_true, beq_iff_eq]
  constructor
  · rintro ⟨b, row, ⟨hmem, hevent⟩, hid, -⟩
    exact ⟨row, hmem, hevent, hid⟩
  · rintro ⟨row, hmem, hevent, hid⟩
    exact ⟨_, row, ⟨hmem, hevent⟩, hid, rfl⟩

theorem ledger_goOn (s : DispatchState) (a : Attempt) :
    (s.goOn a).ledger event = { s.ledger event with work := a.work } := rfl

variable (event) in
theorem work_of (hattempt : s.attempt = some a) : (s.ledger event).work = a.work := by
  show s.attempt.bind Attempt.work = a.work
  rw [hattempt]
  rfl

theorem moves_goOn (hattempt : s.attempt = some a) {a' : Attempt} (hwork : a'.work = a.work) :
    SendLedger.Move (s.ledger event) ((s.goOn a').ledger event) := by
  have hsame := work_of event hattempt
  rw [ledger_goOn, hwork, ← hsame]
  exact .stay

variable (event) in
theorem nextStep_moves (hattempt : s.attempt = some a) (hphase : a.phase = .next) :
    SendLedger.Move (s.ledger event) ((nextStep event s a).ledger event) := by
  have hwork : a.work = none := by rw [Attempt.work, hphase]
  unfold nextStep
  cases htodo : a.todo with
  | nil =>
    refine moves_goOn hattempt ?_
    rw [hwork, Attempt.work]
    by_cases htype : event.eventType = .slaEscalated <;> simp [htype]
  | cons recipient rest =>
    dsimp only
    split
    · refine moves_goOn hattempt ?_
      rw [hwork]
      simp [Attempt.work, hphase]
    · rename_i hrow
      refine .take recipient.personId ((work_of event hattempt).trans hwork) ?_
      rw [hasRow_iff]
      exact hrow

variable (event) in
theorem deliverStep_moves (hattempt : s.attempt = some a) {d : Dispatch} (now : Millis)
    {order : List (NotificationChannel × Option String)} (hphase : a.phase = .deliver d order) :
    SendLedger.Move (s.ledger event) ((deliverStep s a d now order).ledger event) := by
  have hwork : a.work = some (d.recipient.personId, false) := by rw [Attempt.work, hphase]
  cases order with
  | nil => exact moves_goOn hattempt hwork.symm
  | cons channel rest =>
    obtain ⟨channel, address⟩ := channel
    unfold deliverStep
    dsimp only
    split
    · have hsend := SendLedger.Move.send d.recipient.personId ((work_of event hattempt).trans hwork)
      convert hsend using 1
      ext1
      · exact List.map_append
      · rfl
      · rfl
    · exact moves_goOn hattempt hwork.symm

theorem insertStep_moves (hattempt : s.attempt = some a) (hsound : (s.ledger event).Sound)
    {d : Dispatch} {deliveredOn : Option NotificationChannel} {id : Uuid} {now : Millis}
    (hphase : a.phase = .insert d deliveredOn) :
    SendLedger.Move (s.ledger event) ((insertStep event s a d deliveredOn id now).ledger event) := by
  have hwork : (s.ledger event).work = some (d.recipient.personId, deliveredOn.isSome) := by
    rw [work_of event hattempt, Attempt.work, hphase]
  have hnew := hsound.unrecorded _ _ hwork
  rw [hasRow_iff] at hnew
  have hentry : (notificationRow event a d deliveredOn id now).entry =
      (d.recipient.personId, deliveredOn.isSome) := by
    cases deliveredOn with
    | none => rfl
    | some channel =>
      by_cases hchannel : channel = d.preference.channel <;>
        simp [NotificationRow.entry, notificationRow, Dispatch.status, hchannel]
  unfold insertStep
  rw [if_neg hnew]
  convert SendLedger.Move.record _ _ hwork using 1
  ext1
  · rfl
  · show ((s.notifications ++ [notificationRow event a d deliveredOn id now]).filter
      (·.eventId == event.eventId)).map (·.entry) = _
    rw [List.filter_append, List.map_append, ← hentry]
    congr 1
    simp [notificationRow]
  · rfl

variable (event) in
theorem attemptStep_moves (hattempt : s.attempt = some a) (hsound : (s.ledger event).Sound)
    (id : Uuid) (now : Millis) :
    SendLedger.Move (s.ledger event) ((attemptStep event s a id now).ledger event) := by
  unfold attemptStep
  cases hphase : a.phase with
  | next => exact nextStep_moves event hattempt hphase
  | prefer recipient => exact moves_goOn hattempt (by simp [Attempt.work, hphase])
  | deliver d order => exact deliverStep_moves event hattempt now hphase
  | insert d deliveredOn => exact insertStep_moves hattempt hsound hphase
  | stored recipient =>
    have hwork : a.work = none := by rw [Attempt.work, hphase]
    dsimp only
    split
    · rw [show s.ledger event = { s with attempt := none }.ledger event from
        SendLedger.ext rfl rfl ((work_of event hattempt).trans hwork)]
      exact .stay
    · exact moves_goOn hattempt hwork.symm
  | escalate => exact moves_goOn hattempt (by simp [Attempt.work, hphase])
  | «return» =>
    have hwork : a.work = none := by rw [Attempt.work, hphase]
    refine (show s.ledger event = { s with attempt := none, returned := _ }.ledger event from
      SendLedger.ext rfl rfl ((work_of event hattempt).trans hwork)) ▸ .stay

end

/-! ## Runs -/

section
variable {event : NotificationEvent} {s t : DispatchState} {a : Attempt}

theorem beginAttempt_work (event : NotificationEvent) (s : DispatchState) :
    (beginAttempt event s).work = none := by
  unfold beginAttempt
  cases event.payload.orgId <;> rfl

theorem dispatchStep_moves (hsound : (s.ledger event).Sound) {action : DispatchAction}
    (hkeeps : KeepsMessage s action) (hstep : dispatchStep event s action = some t) :
    SendLedger.Move (s.ledger event) (t.ledger event) := by
  cases action with
  | start =>
    cases hattempt : s.attempt with
    | some a => simp [dispatchStep, hattempt] at hstep
    | none =>
      simp only [dispatchStep, hattempt, Option.some.injEq] at hstep
      subst hstep
      rw [ledger_goOn, beginAttempt_work,
        show (none : Option (Uuid × Bool)) = (s.ledger event).work by
          simp [DispatchState.ledger, hattempt]]
      exact .stay
  | advance id now =>
    obtain ⟨a, hattempt, rfl⟩ := Option.map_eq_some_iff.mp hstep
    exact attemptStep_moves event hattempt hsound id now
  | abort =>
    obtain rfl := Option.some.inj hstep
    cases hwork : (s.ledger event).work with
    | none =>
      rw [show s.ledger event = { s with attempt := none }.ledger event from
        SendLedger.ext rfl rfl hwork]
      exact .stay
    | some work =>
      obtain ⟨id, sent⟩ := work
      obtain ⟨a, hattempt, hwork'⟩ := Option.bind_eq_some_iff.mp hwork
      have hout := hkeeps a hattempt
      rw [Attempt.messageOut, hwork'] at hout
      obtain rfl : sent = false := hout
      exact .leave id hwork
  | configure tables items =>
    obtain rfl := Option.some.inj hstep
    exact .stay

theorem Progress.goOn (h : Progress event s) (hattempt : s.attempt = some a) {a' : Attempt}
    (hmove : SendLedger.Move (s.ledger event) (t.ledger event))
    (hreturned : t.returned = s.returned) (hattempt' : t.attempt = some a')
    (hrecipients : a'.recipients = a.recipients)
    (hopen : ∀ id ∈ a.open, id ∈ a'.open ∨ (t.ledger event).HasRow id)
    (hended : a'.phase = .escalate ∨ a'.phase = .return → a'.todo = []) : Progress event t where
  resolved b hb r hr := by
    obtain rfl : a' = b := Option.some.inj (hattempt'.symm.trans hb)
    rw [hrecipients] at hr
    rcases h.resolved a hattempt r hr with hstill | hrow
    · exact hopen _ hstill
    · exact .inr (hrow.move hmove)
  ended b hb := by
    obtain rfl : a' = b := Option.some.inj (hattempt'.symm.trans hb)
    exact hended
  returned x hx r hr := by
    rw [hreturned] at hx
    exact (h.returned x hx r hr).move hmove

theorem Progress.over (hattempt : s.attempt = none)
    (h : ∀ attempt ∈ s.returned, ∀ r ∈ attempt.1, (s.ledger event).HasRow r.personId) :
    Progress event s where
  resolved b hb := by
    rw [hattempt] at hb
    cases hb
  ended b hb := by
    rw [hattempt] at hb
    cases hb
  returned := h

theorem nextStep_progress (h : Progress event s) (hattempt : s.attempt = some a)
    (hphase : a.phase = .next) : Progress event (nextStep event s a) := by
  have hmove := nextStep_moves event hattempt hphase
  have hwork : a.work = none := by rw [Attempt.work, hphase]
  cases htodo : a.todo with
  | nil =>
    have hopen : a.open = [] := by simp [Attempt.open, hwork, htodo]
    unfold nextStep at hmove ⊢
    rw [htodo] at hmove ⊢
    refine h.goOn hattempt hmove rfl rfl rfl (fun id hid => ?_) fun _ => rfl
    rw [hopen] at hid
    exact absurd hid List.not_mem_nil
  | cons recipient rest =>
    have hopen : a.open = recipient.personId :: rest.map (·.personId) := by
      simp [Attempt.open, hwork, htodo]
    unfold nextStep at hmove ⊢
    rw [htodo] at hmove ⊢
    dsimp only at hmove ⊢
    split
    · rename_i hrow
      rw [if_pos hrow] at hmove
      refine h.goOn hattempt hmove rfl rfl rfl ?_ fun hend => ?_
      · intro id hid
        rw [hopen] at hid
        rcases List.mem_cons.mp hid with rfl | hid
        · exact .inr ((hasRow_iff.mpr hrow).move hmove)
        · exact .inl (List.mem_append_right _ hid)
      · rw [show _ = DispatchPhase.next from hphase] at hend
        rcases hend with hend | hend <;> cases hend
    · rename_i hrow
      rw [if_neg hrow] at hmove
      refine h.goOn hattempt hmove rfl rfl rfl ?_ fun hend => ?_
      · intro id hid
        rw [hopen] at hid
        exact .inl hid
      · rcases hend with hend | hend <;> cases hend

theorem insertStep_attempt (event : NotificationEvent) (s : DispatchState) (a : Attempt) (d : Dispatch)
    (deliveredOn : Option NotificationChannel) (id : Uuid) (now : Millis) :
    (insertStep event s a d deliveredOn id now).attempt = some { a with phase := .stored d.recipient } := by
  unfold insertStep
  split <;> rfl

theorem insertStep_row (event : NotificationEvent) (s : DispatchState) (a : Attempt) (d : Dispatch)
    (deliveredOn : Option NotificationChannel) (id : Uuid) (now : Millis) :
    ((insertStep event s a d deliveredOn id now).ledger event).HasRow d.recipient.personId := by
  rw [hasRow_iff]
  unfold insertStep
  dsimp only
  split
  · rename_i hrow
    exact hrow
  · simp [NotificationRow.isFor, notificationRow]

theorem Progress.same (h : Progress event s) (hattempt : s.attempt = some a) {a' : Attempt}
    (hmove : SendLedger.Move (s.ledger event) (t.ledger event))
    (hreturned : t.returned = s.returned) (hattempt' : t.attempt = some a')
    (hrecipients : a'.recipients = a.recipients) (hwork : a'.work.map (·.1) = a.work.map (·.1))
    (htodo : a'.todo = a.todo) (hended : a'.phase = .escalate ∨ a'.phase = .return → a'.todo = []) :
    Progress event t := by
  refine h.goOn hattempt hmove hreturned hattempt' hrecipients (fun id hid => .inl ?_) hended
  rw [Attempt.open, hwork, htodo]
  exact hid

theorem deliverStep_progress (h : Progress event s) (hattempt : s.attempt = some a) {d : Dispatch}
    {order : List (NotificationChannel × Option String)} {now : Millis}
    (hphase : a.phase = .deliver d order) : Progress event (deliverStep s a d now order) := by
  have hmove := deliverStep_moves event hattempt now hphase
  cases order with
  | nil =>
    exact h.same hattempt hmove rfl rfl rfl (by simp [Attempt.work, hphase]) rfl
      fun hend => by rcases hend with hend | hend <;> cases hend
  | cons channel rest =>
    obtain ⟨channel, address⟩ := channel
    unfold deliverStep at hmove ⊢
    dsimp only at hmove ⊢
    split at hmove <;> rename_i hdelivered
    · rw [if_pos hdelivered]
      exact h.same hattempt hmove rfl rfl rfl (by simp [Attempt.work, hphase]) rfl
        fun hend => by rcases hend with hend | hend <;> cases hend
    · rw [if_neg hdelivered]
      exact h.same hattempt hmove rfl rfl rfl (by simp [Attempt.work, hphase]) rfl
        fun hend => by rcases hend with hend | hend <;> cases hend

theorem attemptStep_progress (hsound : (s.ledger event).Sound) (h : Progress event s)
    (hattempt : s.attempt = some a) (id : Uuid) (now : Millis) :
    Progress event (attemptStep event s a id now) := by
  have hmove := attemptStep_moves event hattempt hsound id now
  unfold attemptStep at hmove ⊢
  cases hphase : a.phase with
  | next => exact nextStep_progress h hattempt hphase
  | prefer recipient =>
    rw [hphase] at hmove
    exact h.same hattempt hmove rfl rfl rfl (by simp [Attempt.work, hphase]) rfl
      fun hend => by rcases hend with hend | hend <;> cases hend
  | deliver d order => exact deliverStep_progress h hattempt hphase
  | insert d deliveredOn =>
    rw [hphase] at hmove
    dsimp only at hmove ⊢
    refine h.goOn hattempt hmove ?_ (insertStep_attempt ..) rfl (fun id' hid => ?_) ?_
    · unfold insertStep
      split <;> rfl
    · have hopen : a.open = d.recipient.personId :: a.todo.map (·.personId) := by
        simp [Attempt.open, Attempt.work, hphase]
      rw [hopen] at hid
      rcases List.mem_cons.mp hid with rfl | hid
      · exact .inr (insertStep_row ..)
      · exact .inl (List.mem_append_right _ hid)
    · intro hend
      rcases hend with hend | hend <;> cases hend
  | stored recipient =>
    rw [hphase] at hmove
    dsimp only at hmove ⊢
    cases hfind : s.notifications.find? (·.isFor event recipient.personId) with
    | none =>
      rw [hfind] at hmove
      exact .over rfl fun x hx r hr => (h.returned x hx r hr).move hmove
    | some row =>
      rw [hfind] at hmove
      exact h.same hattempt hmove rfl rfl rfl (by simp [Attempt.work, hphase]) rfl
        fun hend => by rcases hend with hend | hend <;> cases hend
  | escalate =>
    rw [hphase] at hmove
    exact h.same hattempt hmove rfl rfl rfl (by simp [Attempt.work, hphase]) rfl
      fun _ => h.ended a hattempt (.inl hphase)
  | «return» =>
    rw [hphase] at hmove
    have hopen : a.open = [] := by
      simp [Attempt.open, Attempt.work, hphase, h.ended a hattempt (.inr hphase)]
    refine .over rfl fun x hx r hr => ?_
    refine SendLedger.HasRow.move ?_ hmove
    rcases List.mem_append.mp hx with hx | hx
    · exact h.returned x hx r hr
    · obtain rfl := List.mem_singleton.mp hx
      refine (h.resolved a hattempt r hr).resolve_left ?_
      rw [hopen]
      exact List.not_mem_nil

end

section
variable {event : NotificationEvent} {s t : DispatchState}

theorem beginAttempt_progress (h : Progress event s) :
    Progress event (s.goOn (beginAttempt event s)) := by
  have hbegin : (∀ r ∈ (beginAttempt event s).recipients, r ∈ (beginAttempt event s).todo) ∧
      ((beginAttempt event s).phase = .escalate ∨ (beginAttempt event s).phase = .return →
        (beginAttempt event s).todo = []) := by
    unfold beginAttempt
    cases event.payload.orgId with
    | none => exact ⟨fun r hr => hr, fun _ => rfl⟩
    | some orgId => exact ⟨fun r hr => hr, fun hend => by rcases hend with hend | hend <;> cases hend⟩
  refine ⟨fun b hb r hr => ?_, fun b hb => ?_, h.returned⟩
  · obtain rfl : beginAttempt event s = b := Option.some.inj hb
    exact .inl (List.mem_append_right _ (List.mem_map_of_mem (hbegin.1 r hr)))
  · obtain rfl : beginAttempt event s = b := Option.some.inj hb
    exact hbegin.2

structure DispatchInv (event : NotificationEvent) (s : DispatchState) : Prop where
  sound : (s.ledger event).Sound
  progress : Progress event s

theorem DispatchInv.step (h : DispatchInv event s) {action : DispatchAction}
    (hkeeps : KeepsMessage s action) (hstep : dispatchStep event s action = some t) :
    DispatchInv event t := by
  have hmove := dispatchStep_moves h.sound hkeeps hstep
  refine ⟨h.sound.move hmove, ?_⟩
  cases action with
  | start =>
    cases hattempt : s.attempt with
    | some a => simp [dispatchStep, hattempt] at hstep
    | none =>
      simp only [dispatchStep, hattempt, Option.some.injEq] at hstep
      exact hstep ▸ beginAttempt_progress h.progress
  | advance id now =>
    obtain ⟨a, hattempt, rfl⟩ := Option.map_eq_some_iff.mp hstep
    exact attemptStep_progress h.sound h.progress hattempt id now
  | abort =>
    obtain rfl := Option.some.inj hstep
    exact .over rfl h.progress.returned
  | configure tables items =>
    obtain rfl := Option.some.inj hstep
    exact ⟨h.progress.resolved, h.progress.ended, h.progress.returned⟩

theorem DispatchInv.row (h : DispatchInv event s) {id : Uuid} (hrow : (s.ledger event).HasRow id) :
    ∃ row, s.notifications.filter (·.isFor event id) = [row] ∧
      (row.status ≠ .failed ↔ id ∈ s.notified) := by
  obtain ⟨b, hentry⟩ := hrow
  obtain ⟨row, hmem, hrow'⟩ := List.mem_map.mp hentry
  obtain ⟨rfl, rfl⟩ := Prod.mk.inj hrow'
  have hkeys : ((s.rows event).map (·.recipientId)).Nodup := by
    have hunique := h.sound.unique
    rwa [DispatchState.ledger, List.map_map] at hunique
  refine ⟨row, ?_, ?_⟩
  · have hone := Table.filter_key hkeys hmem
    rw [DispatchState.rows, List.filter_filter] at hone
    rw [← hone]
    exact List.filter_congr fun r _ => Bool.and_comm ..
  · constructor
    · intro hstatus
      refine h.sound.truthful _ ?_
      rwa [show decide (row.status ≠ .failed) = true from decide_eq_true hstatus] at hentry
    · intro hsent
      rcases h.sound.recorded _ hsent with htrue | hwork
      · obtain ⟨row', hmem', hrow''⟩ := List.mem_map.mp htrue
        obtain ⟨hid, hstatus⟩ := Prod.mk.inj hrow''
        obtain rfl : row' = row := Table.eq_of_key hkeys hmem' hmem hid
        exact of_decide_eq_true hstatus
      · exact absurd ⟨_, hentry⟩ (h.sound.unrecorded _ _ hwork)

theorem DispatchInv.oneMessageEach (h : DispatchInv event s) : OneMessageEach event s where
  once := h.sound.once
  returned attempt hattempt r hr := h.row (h.progress.returned attempt hattempt r hr)

end

/-- Before the event: no row of `notifications` is for it. -/
def DispatchState.start (tables : RoutingTables) (items : List ItemRow)
    (notifications : List NotificationRow) : DispatchState :=
  ⟨tables, items, notifications, [], [], none⟩

/-- However many attempts throw or stop, nobody is told twice as long as none
does so between a message and its row. -/
theorem one_message_each (event : NotificationEvent) (tables : RoutingTables) (items : List ItemRow)
    (notifications : List NotificationRow) (hnew : ∀ row ∈ notifications, row.eventId ≠ event.eventId)
    (actions : List DispatchAction) (t : DispatchState)
    (hrun : (dispatching event).run (.start tables items notifications) actions = some t)
    (hkeeps : (dispatching event).Along KeepsMessage (.start tables items notifications) actions) :
    OneMessageEach event t := by
  refine (System.along_invariant _ (P := DispatchInv event) (fun h hC hstep => h.step hC hstep) ?_
    hkeeps hrun).oneMessageEach
  have hrows : (DispatchState.start tables items notifications).rows event = [] :=
    List.filter_eq_nil_iff.mpr fun row hrow => by simpa using hnew row hrow
  refine ⟨⟨List.nodup_nil, ?_, ?_, ?_, ?_, ?_⟩, .over rfl fun x hx => absurd hx List.not_mem_nil⟩
  · rw [DispatchState.ledger, hrows]
    exact List.nodup_nil
  · exact fun id hid => absurd hid List.not_mem_nil
  · intro id hid
    rw [DispatchState.ledger, hrows] at hid
    exact absurd hid List.not_mem_nil
  · exact fun id b hwork => by cases hwork
  · exact fun id hwork => by cases hwork

/-- An item of Ada's has used up most of its time. -/
def warningForAda : NotificationEvent where
  eventId := 7
  eventType := .slaWarning
  workItemId := 8
  payload :=
    { orgId := some 1, workItemId := 8, ownerId := some 100, teamLeadId := none, teamId := some 10
      status := some "In Review", agingScore := 80, thresholdMinutes := 60, percentile := 0
      currentWaitMinutes := 0, sampleSize := 0, probabilityExceedTarget := none, targetMinutes := 0 }

def adaOnly : RoutingTables where
  people := [⟨100, 1, 10, "Ada", "ada@one.example", "engineer"⟩]
  settings := []
  preferences := []
  targets := []
  peopleKey := by decide
  settingsKey := by decide
  preferencesKey := by decide
  targetsKey := by decide

/-- The statements of an attempt up to the message. -/
def upToMessage : List DispatchAction := .start :: List.replicate 3 (.advance 0 0)

/-- The process stops after the e-mail has gone out, and the next attempt sends
it again. -/
theorem told_twice : ∃ t,
    (dispatching warningForAda).run (.start adaOnly [] [])
      (upToMessage ++ [.abort] ++ upToMessage) = some t ∧
    t.notified = [100, 100] ∧ ¬ OneMessageEach warningForAda t := by
  have hrun : ((dispatching warningForAda).run (.start adaOnly [] [])
      (upToMessage ++ [.abort] ++ upToMessage)).map (·.notified) = some [100, 100] := by
    decide
  obtain ⟨t, ht, hnotified⟩ := Option.map_eq_some_iff.mp hrun
  refine ⟨t, ht, hnotified, fun h => ?_⟩
  have honce := h.once
  rw [hnotified] at honce
  exact absurd honce (by decide)

/-- An attempt that stops before the message, and one that runs through. -/
theorem one_message_each_ada : ∃ t,
    (dispatching warningForAda).run (.start adaOnly [] [])
      ([.start, .advance 0 0, .abort, .start] ++ List.replicate 7 (.advance 9 0)) = some t ∧
    t.notified = [100] ∧ t.returned.length = 1 ∧ OneMessageEach warningForAda t := by
  have hrun : ((dispatching warningForAda).run (.start adaOnly [] [])
      ([.start, .advance 0 0, .abort, .start] ++ List.replicate 7 (.advance 9 0))).map
        (fun t => (t.notified, t.returned.length)) = some ([100], 1) := by
    decide
  obtain ⟨t, ht, hends⟩ := Option.map_eq_some_iff.mp hrun
  obtain ⟨hnotified, hreturned⟩ := Prod.mk.inj hends
  exact ⟨t, ht, hnotified, hreturned, one_message_each warningForAda adaOnly [] []
    (fun row hrow => absurd hrow List.not_mem_nil) _ t ht (by decide)⟩

end Cadena.Notifications
