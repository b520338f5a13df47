import Cadena.Connectors.CommentDrain

/-!
# The claim of a failed comment delivery

The handler of `executeCommentDelivery` settles a failed delivery whatever the
error is. It sees no error of the statements between the claim and the `try`,
and one that is raised behind the commit of a success finds no claim.
-/

namespace Cadena.Connectors.CommentDrain

open Cadena.Base Cadena.Connectors Comments

variable (W : CommentWorld)

/-- The error that a call raises first. -/
def callError (s : DrainState) (row : DueRow) (answers : CallAnswers) : Option ExecError :=
  match prepareCall W s.connectors row with
  | .error message => some (.other message)
  | .ok (target, adapter) =>
    match transferComment row target adapter answers with
    | .error error => some error
    | .ok _ => answers.settled.error?.map .other

def recordedError : ExecError → String
  | .loadShed message _ => sliceString ("Deferred: " ++ message) 500
  | error => sliceString (errorText error) 500

def endStatus : DeliveryStatus → Bool
  | .failed | .dead | .pending | .executed => true
  | _ => false

/-- The delivery has ended, its claim is released, its error recorded, and the
drain goes on. -/
structure EndsReleased (s t : DrainState) (row : DueRow) (claimId : String) (rest : List DueRow)
    (error : ExecError) : Prop where
  goesOn : t.phase = .working rest
  released : ∀ d ∈ t.deliveries, d.id = row.delivery.id → d.claimedBy ≠ some claimId
  recorded : ∀ d ∈ s.deliveries, d.id = row.delivery.id → d.claimedBy = some claimId →
    ∃ d' ∈ t.deliveries, d'.id = row.delivery.id ∧ endStatus d'.status = true ∧ d'.claimedBy = none ∧
      d'.lastError = some (recordedError error)

/-- The statements ahead of the `try` and those of the handler do not throw, and
no error comes behind the commit of a success, unless the claim has been lost. -/
structure Contained (s : DrainState) (row : DueRow) (claimId : String) (answers : CallAnswers) : Prop where
  prepared : ∃ found, prepareCall W s.connectors row = .ok found
  handled : answers.handled = .done
  dispatched : ∀ target adapter externalId message, prepareCall W s.connectors row = .ok (target, adapter) →
    transferComment row target adapter answers = .ok externalId → answers.settled = .undispatched message →
    ∀ d ∈ s.deliveries, heldBy row.delivery.id claimId d = false

/-! ## What the handler writes -/

/-- What the handler makes of a delivery that the call holds. -/
def settleError (attempts : Nat) (error : ExecError) (answers : CallAnswers) (d : Delivery) : Delivery :=
  match error with
  | .loadShed message until_ => d.defer message until_
  | error =>
    let retry := error.retryable && attempts < maxWorkOrderAttempts
    d.fail (if retry then .failed else .dead) (errorText error)
      (if retry then some (answers.handledAt + retryAfterMs error attempts) else none)

section
variable {W} {s t : DrainState} {row : DueRow} {claimId : String} {attempts : Nat} {rest : List DueRow}
  {error : ExecError} {answers : CallAnswers}

theorem heldBy_iff {id : Uuid} {d : Delivery} : heldBy id claimId d = true ↔ d.id = id ∧ d.claimedBy = some claimId := by
  simp [heldBy]

theorem settleError_ends (attempts : Nat) (error : ExecError) (answers : CallAnswers) (d : Delivery) :
    (settleError attempts error answers d).id = d.id ∧
      endStatus (settleError attempts error answers d).status = true ∧
      (settleError attempts error answers d).claimedBy = none ∧
      (settleError attempts error answers d).lastError = some (recordedError error) := by
  cases error with
  | loadShed message until_ => exact ⟨rfl, rfl, rfl, rfl⟩
  | remote | credential | other =>
    refine ⟨rfl, ?_, rfl, rfl⟩
    simp only [settleError, Delivery.fail]
    split <;> rfl

theorem handleError_deliveries (hhandled : answers.handled = .done) :
    (handleError s row claimId attempts rest error answers).deliveries =
      Table.update (heldBy row.delivery.id claimId) (settleError attempts error answers) s.deliveries ∧
      (handleError s row claimId attempts rest error answers).phase = .working rest := by
  unfold handleError
  cases error with
  | loadShed | remote | credential | other =>
    simp only [hhandled, and_true]
    rfl

theorem handleError_goesOn (h : (handleError s row claimId attempts rest error answers).phase = .working rest) :
    answers.handled = .done := by
  unfold handleError at h
  cases hhandled : answers.handled with
  | done => rfl
  | rolledBack | undispatched =>
    simp only [hhandled] at h
    split at h <;> cases h

/-- Every delivery that the call holds is settled, and none stays held. -/
theorem endsReleased_of_handled (hhandled : answers.handled = .done) :
    EndsReleased s (handleError s row claimId attempts rest error answers) row claimId rest error := by
  obtain ⟨hdeliveries, hphase⟩ :
      (handleError s row claimId attempts rest error answers).deliveries =
        Table.update (heldBy row.delivery.id claimId) (settleError attempts error answers) s.deliveries ∧
      (handleError s row claimId attempts rest error answers).phase = .working rest :=
    handleError_deliveries hhandled
  refine ⟨hphase, fun d hd hid hclaim => ?_, fun d hd hid hclaim => ?_⟩
  · rw [hdeliveries, Table.mem_update] at hd
    rcases hd with ⟨old, -, -, rfl⟩ | ⟨-, hnot⟩
    · rw [(settleError_ends attempts error answers old).2.2.1] at hclaim
      cases hclaim
    · rw [heldBy_iff.mpr ⟨hid, hclaim⟩] at hnot
      cases hnot
  · obtain ⟨hsame, hstatus, hcleared, herror⟩ := settleError_ends attempts error answers d
    refine ⟨settleError attempts error answers d, ?_, hsame.trans hid, hstatus, hcleared, herror⟩
    rw [hdeliveries, Table.mem_update]
    exact .inl ⟨d, hd, heldBy_iff.mpr ⟨hid, hclaim⟩, rfl⟩

theorem endsReleased_undispatched {externalId : Text} (settled : DrainState)
    (hsettled : settled.deliveries =
      Table.update (heldBy row.delivery.id claimId) (·.execute externalId) s.deliveries)
    (hkeys : (s.deliveries.map (·.id)).Nodup) :
    EndsReleased s (handleError settled row claimId attempts rest error answers) row claimId rest error ↔
      answers.handled = .done ∧ ∀ d ∈ s.deliveries, heldBy row.delivery.id claimId d = false := by
  constructor
  · intro h
    have hhandled := handleError_goesOn h.goesOn
    refine ⟨hhandled, fun d hd => Bool.eq_false_iff.mpr fun hheld => ?_⟩
    obtain ⟨hid, hclaim⟩ := heldBy_iff.mp hheld
    obtain ⟨d', hd', hid', -, -, herror⟩ := h.recorded d hd hid hclaim
    rw [(handleError_deliveries hhandled).1, hsettled, Table.mem_update, Table.mem_update] at hd'
    have hexecuted : ∀ q, heldBy row.delivery.id claimId (Delivery.execute externalId q) = false := by
      intro q
      simp [heldBy, Delivery.execute]
    rcases hd' with ⟨q, hq, hqheld, -⟩ | ⟨hq, hqfree⟩
    · rw [Table.mem_update] at hq
      rcases hq with ⟨q', -, -, rfl⟩ | ⟨-, hfree⟩
      · rw [hexecuted] at hqheld
        cases hqheld
      · rw [hfree] at hqheld
        cases hqheld
    · rcases hq with ⟨q, -, -, rfl⟩ | ⟨hmem, -⟩
      · cases herror
      · have hsame : d' = d := List.inj_on_of_nodup_map hkeys hmem hd (hid'.trans hid.symm)
        rw [hsame, hheld] at hqfree
        cases hqfree
  · rintro ⟨hhandled, hfree⟩
    have hnone := Table.update_none (f := (·.execute externalId)) hfree
    obtain ⟨hdeliveries, hphase⟩ :
        (handleError settled row claimId attempts rest error answers).deliveries =
          Table.update (heldBy row.delivery.id claimId) (settleError attempts error answers) settled.deliveries ∧
        (handleError settled row claimId attempts rest error answers).phase = .working rest :=
      handleError_deliveries hhandled
    rw [hsettled, hnone, Table.update_none hfree] at hdeliveries
    refine ⟨hphase, fun d hd hid hclaim => ?_, fun d hd hid hclaim => ?_⟩
    · rw [hdeliveries] at hd
      have hnot := hfree d hd
      rw [heldBy_iff.mpr ⟨hid, hclaim⟩] at hnot
      cases hnot
    · have hnot := hfree d hd
      rw [heldBy_iff.mpr ⟨hid, hclaim⟩] at hnot
      cases hnot

end

/-! ## A credential that cannot be resolved -/

def openSync : CommentSyncPolicy := ⟨true, .bidirectional, [], []⟩

/-- The connector 1 has a credential that is not there any more. -/
def lostSecret (id : Uuid) : Option DrainConnector :=
  if id = 1 then some ⟨.jira, false, some 0, openSync, false, [("token", "env:JIRA_TOKEN")]⟩
  else if id = 2 then some ⟨.servicenow, false, some 0, openSync, false, []⟩
  else none

def deliveryTo (id target : Uuid) (createdAt : Millis) : Delivery where
  id := id
  targetConnectorId := target
  sourceConnectorId := 2
  originalAuthorId := "ann".toList
  marker := "m".toList
  createdAt := createdAt
  status := .pending
  attempts := 0
  targetCommentId := none
  lastError := none
  nextAttemptAt := none
  claimedBy := none
  claimExpiresAt := none

def unresolvedWorld : CommentWorld where
  platform := .ascii
  adapters _ := some ⟨true, true⟩
  secret _ := .unresolved

def twoDeliveries : List Delivery := [deliveryTo 10 1 0, deliveryTo 11 2 1]

def claimedFirst : Option DrainState :=
  (commentDrain unresolvedWorld).run (drainOf twoDeliveries lostSecret) [.read 100, .next "w:1" 100]

def unanswered : CallAnswers := ⟨.ok [], .ok [], .done, .done, 100⟩

def thrownWith (s : DrainState) : Option (String × List (DeliveryStatus × Option String)) :=
  match s.phase with
  | .thrown message => some (message, s.deliveries.map fun d => (d.status, d.claimedBy))
  | _ => none

/-- A call is under way, and raises an error with these answers. -/
def callFails (W : CommentWorld) (answers : CallAnswers) (s : DrainState) : Bool :=
  match s.phase with
  | .calling row _ _ _ => (callError W s row answers).isSome
  | _ => false

theorem callFails_iff {W : CommentWorld} {answers : CallAnswers} {s : DrainState} :
    callFails W answers s = true ↔
      ∃ row claimId attempts rest error, s.phase = .calling row claimId attempts rest ∧
        callError W s row answers = some error := by
  unfold callFails
  split
  · rename_i row claimId attempts rest hphase
    rw [Option.isSome_iff_exists]
    constructor
    · rintro ⟨error, herror⟩
      exact ⟨row, claimId, attempts, rest, error, hphase, herror⟩
    · rintro ⟨row', claimId', attempts', rest', error, hphase', herror⟩
      rw [hphase] at hphase'
      cases hphase'
      exact ⟨error, herror⟩
  · rename_i hnot
    refine ⟨nofun, ?_⟩
    rintro ⟨row, claimId, attempts, rest, error, hphase, -⟩
    exact absurd hphase (hnot row claimId attempts rest)

/-- The second connector answers with an error of its own. -/
def refusedAnswer : CallAnswers :=
  ⟨.ok [], .error (.remote "HTTP 500" true none), .done, .done, 100⟩

end Cadena.Connectors.CommentDrain
