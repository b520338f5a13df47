import Cadena.Connectors.CommentClaims
import Cadena.Connectors.IngestionAttempts
import Cadena.Connectors.IngestionFence

/-!
# Load shedding and the attempts

A claim counts an attempt, and a call that is turned away gives it back under the
id of its claim. Once the claim has run out and somebody else has the row, the
attempt is not given back any more: the row can die of its attempts although
fewer of them failed.
-/

namespace Cadena.Connectors

open Cadena.Base

/-- **Exactly where load shedding spends no attempt.** Of work orders and comment
deliveries: in the runs in which no call is turned away after its claim was taken
from it. Of ingestion entries, whose outcomes name no claim: in the runs in which
every call reports in time. -/
theorem shedding_spends_no_retry_iff (P : Platform) :
    (∀ twins as t, (bookedQueue P).run (newQueue twins) as = some t →
      ((bookedQueue P).Along (fun s a => ∀ u, (bookedQueue P).step s a = some u → OrderRetriesKept s a u)
          (newQueue twins) as ↔
        (bookedQueue P).Along ShedsOrderInTime (newQueue twins) as)) ∧
    (∀ as t, CommentDrain.bookedComments.run CommentDrain.newComments as = some t →
      (CommentDrain.bookedComments.Along (fun s a => ∀ u, CommentDrain.bookedComments.step s a = some u →
          CommentDrain.CommentRetriesKept s a u) CommentDrain.newComments as ↔
        CommentDrain.bookedComments.Along CommentDrain.ShedsCommentInTime CommentDrain.newComments as)) ∧
    ∀ tables as, (bookedConnectors P).Along EntryStepInTime (newConnectors tables) as →
      (bookedConnectors P).Along (fun s a => ∀ t, (bookedConnectors P).step s a = some t → EntryRetriesKept s t)
        (newConnectors tables) as := by
  refine ⟨?_, ?_, ?_⟩
  · intro twins as t hrun
    exact order_retries_kept_iff twins hrun
  · intro as t hrun
    exact CommentDrain.comment_retries_kept_iff hrun
  · intro tables as htime
    exact entry_retries_kept tables as htime

/-! ## A call that is turned away in time -/

def orderShedInTime (s : BookedQueue) : QueueAction → Bool
  | .fail call (.loadShed ..) _ _ _ =>
    match callClaim s.1 call with
    | some (work, claimId) => s.1.db.orders.any (heldBy work claimId)
    | none => true
  | _ => true

theorem shedsOrderInTime_of_check (s : BookedQueue) (a : QueueAction) (h : orderShedInTime s a = true) :
    ShedsOrderInTime s a := by
  cases a with
  | fail call error transactionId targetState times =>
    cases error with
    | loadShed message until_ =>
      intro work claimId hcall _
      simpa only [orderShedInTime, hcall] using h
    | remote | credential | other => trivial
  | insert | load | checkBlocked | claim | translate | push | renew | reinject | recover => trivial

def commentShedInTime (s : CommentDrain.BookedComments) : CommentDrain.CommentAction → Bool
  | .fail call (.loadShed ..) _ =>
    match s.1.calls call with
    | some c => s.1.deliveries.any (CommentDrain.heldBy c.deliveryId c.claimId)
    | none => true
  | _ => true

theorem shedsCommentInTime_of_check (s : CommentDrain.BookedComments) (a : CommentDrain.CommentAction)
    (h : commentShedInTime s a = true) : CommentDrain.ShedsCommentInTime s a := by
  cases a with
  | fail call error now =>
    cases error with
    | loadShed message until_ =>
      intro c hcall _
      simpa only [commentShedInTime, hcall] using h
    | remote | credential | other => trivial
  | insert | skip | claim | escape | execute => trivial

def entryHeld (s : BookedConnectors) (call : Nat) : Bool :=
  match entryClaim s.1 call with
  | some (job, claimId) => s.1.entries.any (heldEntry job claimId)
  | none => true

def entryInTime (s : BookedConnectors) : ConnectorAction → Bool
  | .complete call _ | .failEntry call _ _ => entryHeld s call
  | _ => true

theorem reportsEntryInTime_of_held {s : BookedConnectors} {call : Nat} (h : entryHeld s call = true) (e : ClaimEnding) :
    ReportsEntryInTime s call e := by
  intro job claimId hcall
  left
  simpa only [entryHeld, hcall] using h

theorem entryStepInTime_of_check (s : BookedConnectors) (a : ConnectorAction) (h : entryInTime s a = true) :
    EntryStepInTime s a := by
  cases a with
  | complete call times => exact reportsEntryInTime_of_held h .done
  | failEntry call error times => exact reportsEntryInTime_of_held h error.ending
  | order | accept | claimEntry | process | reinjectEntry | recoverEntries => trivial

/-- The target sheds load at the first attempt, and takes the edit at the second. -/
def shedThenWritten : List QueueAction :=
  [.insert (stateEdit 10), .load 0 1 10 0 true, .checkBlocked 0, .claim 0 "w:0" 0 0,
   .fail 0 (.loadShed "busy" 60000) none none ⟨0, 1000⟩,
   .load 1 1 10 60000 true, .checkBlocked 1, .claim 1 "w:1" 60000 60000, .push 1 "servicenow" "ok" ⟨60000, 60001⟩]

def shedThenTransferred : List CommentDrain.CommentAction :=
  [.insert ⟨10, 2, 1, "u7".toList, 0⟩, .claim 0 10 "w:0" 0 0, .fail 0 (.loadShed "busy" 60000) 1000,
   .claim 1 10 "w:1" 60000 60000, .execute 1 "c1".toList]

open IngestionDrain in
def shedThenCompleted : List ConnectorAction :=
  [.accept 1 itsmConnector "incident" ⟨7, "printer", none, printerIncident⟩,
   .claimEntry 0 1 itsmConnector 7 "w:0" 0 0, .failEntry 0 (.loadShed "busy" 60000) ⟨0, 1000⟩,
   .claimEntry 1 1 itsmConnector 7 "w:1" 60000 60000, .process 1 ⟨20, 21, 22⟩, .complete 1 ⟨60000, 60001⟩]

/-- Each queue counts the second attempt only. -/
theorem shedding_spends_no_retry_in_time :
    ((bookedQueue .ascii).Along
        (fun s a => ∀ u, (bookedQueue .ascii).step s a = some u → OrderRetriesKept s a u) (newQueue []) shedThenWritten ∧
      ((bookedQueue .ascii).run (newQueue []) shedThenWritten).map (fun t => t.1.db.orders.map (·.attempts)) =
        some [1]) ∧
    (CommentDrain.bookedComments.Along (fun s a => ∀ u, CommentDrain.bookedComments.step s a = some u →
        CommentDrain.CommentRetriesKept s a u) CommentDrain.newComments shedThenTransferred ∧
      (CommentDrain.bookedComments.run CommentDrain.newComments shedThenTransferred).map
        (fun t => t.1.deliveries.map (·.attempts)) = some [1]) ∧
    (bookedConnectors .ascii).Along (fun s a => ∀ t, (bookedConnectors .ascii).step s a = some t → EntryRetriesKept s t)
      (newConnectors IngestionDrain.itsmTables) shedThenCompleted ∧
    ((bookedConnectors .ascii).run (newConnectors IngestionDrain.itsmTables) shedThenCompleted).map
      (fun t => t.1.entries.map (·.attempts)) = some [1] := by
  have horders : ((bookedQueue .ascii).run (newQueue []) shedThenWritten).map
      (fun t => t.1.db.orders.map (·.attempts)) = some [1] := by
    decide
  have hcomments : (CommentDrain.bookedComments.run CommentDrain.newComments shedThenTransferred).map
      (fun t => t.1.deliveries.map (·.attempts)) = some [1] := by
    decide
  have hentries : ((bookedConnectors .ascii).run (newConnectors IngestionDrain.itsmTables) shedThenCompleted).map
      (fun t => t.1.entries.map (·.attempts)) = some [1] := by
    decide
  obtain ⟨t, ht, -⟩ := Option.map_eq_some_iff.mp horders
  obtain ⟨u, hu, -⟩ := Option.map_eq_some_iff.mp hcomments
  refine ⟨⟨?_, horders⟩, ⟨?_, hcomments⟩, ?_, hentries⟩
  · refine ((shedding_spends_no_retry_iff .ascii).1 [] shedThenWritten t ht).mpr ?_
    exact System.along_of_checks _ shedsOrderInTime_of_check (by decide)
  · refine ((shedding_spends_no_retry_iff .ascii).2.1 shedThenTransferred u hu).mpr ?_
    exact System.along_of_checks _ shedsCommentInTime_of_check (by decide)
  · refine (shedding_spends_no_retry_iff .ascii).2.2 IngestionDrain.itsmTables shedThenCompleted ?_
    exact System.along_of_checks _ entryStepInTime_of_check (by decide)

namespace CommentDrain

def overloaded : ExecError := .remote "503 Service Unavailable" true none

/-- The comments of the target are read for two minutes, until another call has
the delivery. Then the target sheds the write of the first call. The next four
attempts fail. -/
def shedTooLate : List CommentAction :=
  [.insert ⟨10, 2, 1, "u7".toList, 0⟩, .claim 0 10 "w:0" 0 0, .claim 1 10 "w:1" 120000 120000,
   .fail 0 (.loadShed "busy" 180000) 130000, .fail 1 overloaded 140000,
   .claim 2 10 "w:2" 200000 200000, .fail 2 overloaded 200001,
   .claim 3 10 "w:3" 400000 400000, .fail 3 overloaded 400001,
   .claim 4 10 "w:4" 800000 800000]

def lastFailure : CommentAction := .fail 4 overloaded 800001

end CommentDrain

/-- The delivery dies at its fifth attempt, of which the first one was shed. -/
theorem late_shedding_spends_retry :
    ∃ s t, CommentDrain.bookedComments.run CommentDrain.newComments CommentDrain.shedTooLate = some s ∧
      CommentDrain.bookedComments.step s CommentDrain.lastFailure = some t ∧
      t.1.deliveries.map (fun d => (d.status, d.attempts)) = [(.dead, 5)] ∧
      (t.2.claims 10).map t.2.ended =
        [some .turnedAway, some .failed, some .failed, some .failed, some .failed] ∧
      ¬ CommentDrain.CommentRetriesKept s CommentDrain.lastFailure t := by
  refine ⟨_, _, rfl, rfl, by decide, by decide, ?_⟩
  intro hkept
  have hfive := hkept.exhausted _ (.head _) (by decide) _ (.head _) rfl rfl rfl
  revert hfive
  decide

end Cadena.Connectors
