import Cadena.Connectors.CommentDrain
import Cadena.Connectors.WorkOrderAttempts

/-!
# The claims on comment deliveries

Any number of `executeCommentDelivery` calls run against the table. The claim and
each outcome are one atomic step. A delivery that may not be transferred is
skipped whoever has it, and an error before the `try` leaves the claim to run
out.
-/

namespace Cadena.Connectors.CommentDrain

open Cadena.Base Cadena.Connectors Comments

structure CommentCall where
  deliveryId : Uuid
  claimId : String
  attempts : Nat

structure CommentQueue where
  deliveries : List Delivery
  calls : Nat → Option CommentCall

/-- The columns that the insertion supplies. The marker is the id. -/
structure NewDelivery where
  id : Uuid
  targetConnectorId : Uuid
  sourceConnectorId : Uuid
  originalAuthorId : Text
  createdAt : Millis

def NewDelivery.row (n : NewDelivery) : Delivery where
  id := n.id
  targetConnectorId := n.targetConnectorId
  sourceConnectorId := n.sourceConnectorId
  originalAuthorId := n.originalAuthorId
  marker := uuidText n.id
  createdAt := n.createdAt
  status := .pending
  attempts := 0
  targetCommentId := none
  lastError := none
  nextAttemptAt := none
  claimedBy := none
  claimExpiresAt := none

inductive CommentAction where
  | insert (n : NewDelivery)
  | skip (id : Uuid)
  | claim (call : Nat) (id : Uuid) (claimId : String) (dbNow workerNow : Millis)
  | escape (call : Nat)
  | execute (call : Nat) (externalId : Text)
  | fail (call : Nat) (error : ExecError) (now : Millis)

def claimFinds (id : Uuid) (dbNow : Millis) (d : Delivery) : Bool := d.id = id && claimFree dbNow d

/-- The catch block writes one row. -/
def failDelivery (c : CommentCall) (error : ExecError) (now : Millis) : Delivery → Delivery :=
  match error with
  | .loadShed message until_ => (·.defer message until_)
  | error =>
    if error.retryable && c.attempts < maxWorkOrderAttempts then
      (·.fail .failed (errorText error) (some (now + retryAfterMs error c.attempts)))
    else (·.fail .dead (errorText error) none)

/-- The call returns after one last statement, or none. -/
def CommentQueue.finish (s : CommentQueue) (call : Nat) (deliveries : List Delivery) : CommentQueue :=
  ⟨deliveries, setAt s.calls call none⟩

def commentStep (s : CommentQueue) : CommentAction → Option CommentQueue
  | .insert n =>
    if s.deliveries.any fun d => d.id = n.id then none else some { s with deliveries := s.deliveries ++ [n.row] }
  | .skip id =>
    some { s with
      deliveries := Table.update (sameId id)
        (fun d => { d with status := .skipped, lastError := some policyForbids }) s.deliveries }
  | .claim call id claimId dbNow workerNow =>
    match s.calls call with
    | some _ => none
    | none =>
      some ⟨Table.update (claimFinds id dbNow) (·.claim claimId (workerNow + workOrderClaimMs)) s.deliveries,
        setAt s.calls call ((s.deliveries.find? (claimFinds id dbNow)).map fun d => ⟨id, claimId, d.attempts + 1⟩)⟩
  | .escape call => (s.calls call).map fun _ => s.finish call s.deliveries
  | .execute call externalId =>
    (s.calls call).map fun c =>
      s.finish call (Table.update (heldBy c.deliveryId c.claimId) (·.execute externalId) s.deliveries)
  | .fail call error now =>
    (s.calls call).map fun c =>
      s.finish call (Table.update (heldBy c.deliveryId c.claimId) (failDelivery c error now) s.deliveries)

def commentQueue : System CommentQueue CommentAction := ⟨commentStep⟩

def emptyCommentQueue : CommentQueue := ⟨[], fun _ => none⟩

def deliveryColumns : ClaimColumns Delivery Uuid String where
  key := (·.id)
  attempts := (·.attempts)
  holder := (·.claimedBy)
  unfinished d := d.status ≠ .executed && d.status ≠ .skipped

def CommentCall.atWork (c : CommentCall) : ClaimAtWork Uuid String := ⟨c.deliveryId, c.claimId, c.attempts⟩

def commentAtWork (s : CommentQueue) (call : Nat) : Option (ClaimAtWork Uuid String) :=
  (s.calls call).map CommentCall.atWork

def commentReported (s : CommentQueue) (call : Nat) (e : ClaimEnding) : ClaimNote Uuid String :=
  match s.calls call with
  | some c => ClaimColumns.reportNote (s.deliveries.any (heldBy c.deliveryId c.claimId)) c.claimId e
  | none => .nothing

/-- What a step means for the claims on the deliveries. -/
def commentNote (s : CommentQueue) : CommentAction → ClaimNote Uuid String
  | .insert n => .fresh n.id
  | .claim _ id claimId dbNow _ =>
    match s.deliveries.find? (claimFinds id dbNow) with
    | some d => .claimed d.id claimId d.claimedBy
    | none => .drawn claimId
  | .execute call _ => commentReported s call .done
  | .fail call error _ => commentReported s call error.ending
  | .skip _ | .escape _ => .nothing

abbrev BookedComments := CommentQueue × ClaimBook Uuid String

def bookedComments : System BookedComments CommentAction := ClaimBook.keep commentQueue commentNote

def commentLedger (s : BookedComments) : AttemptLedger Uuid String Nat :=
  deliveryColumns.ledger s.1.deliveries (commentAtWork s.1) s.2

/-- A call that is turned away has its claim still. -/
def ShedsCommentInTime (s : BookedComments) : CommentAction → Prop
  | .fail call (.loadShed ..) _ => ∀ c, s.1.calls call = some c → c.claimId ∈ s.2.claims c.deliveryId →
      s.1.deliveries.any (heldBy c.deliveryId c.claimId) = true
  | _ => True

/-- The error ends the delivery whatever its attempts are. -/
def refusesComment : CommentAction → Bool
  | .fail _ error _ => !error.retryable
  | _ => false

structure CommentRetriesKept (s : BookedComments) (a : CommentAction) (t : BookedComments) : Prop where
  counted : (commentLedger t).Counted
  exhausted : ∀ d ∈ s.1.deliveries, d.status ≠ .dead → ∀ d' ∈ t.1.deliveries, d'.id = d.id → d'.status = .dead →
    refusesComment a = false → maxWorkOrderAttempts ≤ (t.2.wasted d.id).length

/-! ## What a step does to the ledger -/

def IdsOnce (s : CommentQueue) : Prop := (s.deliveries.map (·.id)).Nodup

theorem failDelivery_row (c : CommentCall) (error : ExecError) (now : Millis) (d : Delivery) :
    (failDelivery c error now d).id = d.id ∧ (failDelivery c error now d).claimedBy = none ∧
      ((failDelivery c error now d).attempts = if error.ending = .turnedAway then d.attempts - 1 else d.attempts) ∧
      deliveryColumns.unfinished (failDelivery c error now d) = decide (error.ending ≠ .done) := by
  cases error with
  | loadShed message until_ => exact ⟨rfl, rfl, rfl, rfl⟩
  | remote | credential | other =>
    simp only [failDelivery]
    split <;> exact ⟨rfl, rfl, rfl, rfl⟩

variable {a : CommentAction}

theorem IdsOnce.step {s t : CommentQueue} (h : IdsOnce s) (hstep : commentStep s a = some t) : IdsOnce t := by
  have hupdate : ∀ {p : Delivery → Bool} {f : Delivery → Delivery}, (∀ d, (f d).id = d.id) →
      ((Table.update p f s.deliveries).map (·.id)).Nodup := by
    intro p f hkey
    rw [Table.update_column _ hkey]
    exact h
  cases a with
  | insert n =>
    simp only [commentStep] at hstep
    split at hstep <;> cases hstep
    rename_i hnew
    exact Table.nodup_insert h fun d hd heq => hnew (List.any_eq_true.mpr ⟨d, hd, decide_eq_true heq⟩)
  | skip id =>
    cases hstep
    exact hupdate fun _ => rfl
  | claim call id claimId dbNow workerNow =>
    simp only [commentStep] at hstep
    split at hstep <;> cases hstep
    exact hupdate fun _ => rfl
  | escape call =>
    obtain ⟨c, -, rfl⟩ := Option.map_eq_some_iff.mp hstep
    exact h
  | execute call externalId =>
    obtain ⟨c, -, rfl⟩ := Option.map_eq_some_iff.mp hstep
    exact hupdate fun _ => rfl
  | fail call error now =>
    obtain ⟨c, -, rfl⟩ := Option.map_eq_some_iff.mp hstep
    exact hupdate fun d => (failDelivery_row c error now d).1

theorem commentAtWork_finish (s : CommentQueue) (call : Nat) (deliveries : List Delivery) :
    commentAtWork (s.finish call deliveries) = setAt (commentAtWork s) call none :=
  setAt_comp (Option.map CommentCall.atWork) s.calls call none

theorem IdsOnce.report {s : CommentQueue} (h : IdsOnce s) {B : ClaimBook Uuid String} {call : Nat} {c : CommentCall}
    {e : ClaimEnding} {inTime : Prop} {f : Delivery → Delivery} (hcall : s.calls call = some c) (he : e ≠ .lapsed)
    (hrow : ∀ d, (f d).id = d.id ∧ (f d).claimedBy = none ∧
      ((f d).attempts = if e = .turnedAway then d.attempts - 1 else d.attempts) ∧
      deliveryColumns.unfinished (f d) = decide (e ≠ .done))
    (htime : inTime ↔ (e = .turnedAway → c.claimId ∈ B.claims c.deliveryId →
      s.deliveries.any (heldBy c.deliveryId c.claimId) = true)) :
    AttemptLedger.Step inTime (commentLedger (s, B))
      (commentLedger (s.finish call (Table.update (heldBy c.deliveryId c.claimId) f s.deliveries),
        B.note (commentReported s call e))) := by
  have hwork : commentAtWork s call = some ⟨c.deliveryId, c.claimId, c.attempts⟩ := by
    rw [commentAtWork, hcall]
    rfl
  rw [commentReported, hcall, commentLedger, commentLedger, commentAtWork_finish]
  refine ClaimColumns.step_report (C := deliveryColumns) h hwork ?_ he (fun d => (hrow d).1) (fun d => (hrow d).2.2.1)
    (fun d => (hrow d).2.1) (fun d => (hrow d).2.2.2) htime
  intro d _
  simp only [heldBy, Bool.and_eq_true, decide_eq_true_eq]
  rfl

theorem IdsOnce.ledger_step {s t : BookedComments} (h : IdsOnce s.1) (hstep : bookedComments.step s a = some t) :
    AttemptLedger.Step (ShedsCommentInTime s a) (commentLedger s) (commentLedger t) := by
  obtain ⟨s, B⟩ := s
  obtain ⟨t, B'⟩ := t
  obtain ⟨hnew, hq, hbook⟩ := ClaimBook.keep_step hstep
  simp only at hnew hq hbook
  subst hbook
  cases a with
  | insert n =>
    simp only [commentQueue, commentStep] at hq
    split at hq <;> cases hq
    rename_i hfresh
    refine .move trivial (ClaimColumns.move_append (C := deliveryColumns) (r := n.row) ?_ rfl rfl rfl)
    intro d hd heq
    exact hfresh (List.any_eq_true.mpr ⟨d, hd, decide_eq_true heq⟩)
  | skip id =>
    cases hq
    refine .move trivial (ClaimColumns.move_close h (fun _ => rfl) (k := id) ?_ (fun _ => rfl) (fun _ => rfl)
      fun _ => rfl)
    intro d _
    simp only [sameId, decide_eq_true_eq]
    rfl
  | claim call id claimId dbNow workerNow =>
    simp only [commentQueue, commentStep] at hq
    split at hq
    · cases hq
    rename_i hfree
    cases hq
    refine .move trivial ?_
    have hidle : commentAtWork s call = none := by rw [commentAtWork, hfree, Option.map_none]
    have hatWork : ∀ deliveries o, commentAtWork ⟨deliveries, setAt s.calls call o⟩ =
        setAt (commentAtWork s) call (o.map CommentCall.atWork) := by
      intro deliveries o
      exact setAt_comp (Option.map CommentCall.atWork) s.calls call o
    have honly : ∀ d, claimFinds id dbNow d = true → d.id = id := by
      intro d hd
      simp only [claimFinds, Bool.and_eq_true, decide_eq_true_eq] at hd
      exact hd.1
    rw [commentLedger, commentLedger, hatWork]
    rw [commentNote] at hnew ⊢
    cases hfind : s.deliveries.find? (claimFinds id dbNow) with
    | none =>
      simp only [Option.map_none]
      rw [← hidle, setAt_self]
      exact ClaimColumns.move_drawn hfind
    | some d =>
      rw [hfind] at hnew
      have hd : claimFinds id dbNow d = true := List.find?_some hfind
      have hopen : deliveryColumns.unfinished d = true := by
        simp only [claimFinds, claimFree, Bool.and_eq_true] at hd
        cases hs : d.status <;> rw [hs] at hd <;> simp [deliveryColumns, hs] at hd ⊢
      have hwork : (⟨id, claimId, d.attempts + 1⟩ : CommentCall).atWork = ⟨d.id, claimId, d.attempts + 1⟩ := by
        rw [CommentCall.atWork, honly d hd]
      simp only [Option.map_some, hwork]
      exact ClaimColumns.move_claim (C := deliveryColumns) h (fun _ => rfl) hfind
        (fun q _ hq => (honly q hq).trans (honly d hd).symm) hidle (hnew claimId rfl) hopen rfl rfl rfl
  | escape call =>
    obtain ⟨c, hcall, rfl⟩ := Option.map_eq_some_iff.mp hq
    refine .move trivial ?_
    rw [commentLedger, commentLedger, commentAtWork_finish]
    exact .late call
  | execute call externalId =>
    obtain ⟨c, hcall, rfl⟩ := Option.map_eq_some_iff.mp hq
    exact h.report hcall (by rintro ⟨⟩) (fun _ => ⟨rfl, rfl, rfl, rfl⟩) ⟨fun _ => by rintro ⟨⟩, fun _ => trivial⟩
  | fail call error now =>
    obtain ⟨c, hcall, rfl⟩ := Option.map_eq_some_iff.mp hq
    refine h.report hcall ?_ (failDelivery_row c error now) ?_
    · cases error <;> rintro ⟨⟩
    · cases error with
      | loadShed message until_ =>
        constructor
        · intro htime _ hmem
          exact htime c hcall hmem
        · intro htime c' hcall' hmem
          obtain rfl := Option.some.inj (hcall.symm.trans hcall')
          exact htime rfl hmem
      | remote | credential | other => exact ⟨fun _ => by rintro ⟨⟩, fun _ => trivial⟩

/-! ## The deliveries that die -/

theorem IdsOnce.dies {s t : CommentQueue} (h : IdsOnce s) (hq : commentStep s a = some t)
    {d d' : Delivery} (hd : d ∈ s.deliveries) (halive : d.status ≠ .dead) (hd' : d' ∈ t.deliveries)
    (hid : d'.id = d.id) (hdead : d'.status = .dead) (hretry : refusesComment a = false) :
    ∃ call c, s.calls call = some c ∧ heldBy c.deliveryId c.claimId d = true ∧ maxWorkOrderAttempts ≤ c.attempts ∧
      commentNote s a = commentReported s call .failed := by
  have hfound : ∀ {p : Delivery → Bool} {f : Delivery → Delivery}, t.deliveries = Table.update p f s.deliveries →
      (∀ v, (f v).id = v.id) → p d = true ∧ (f d).status = .dead := by
    intro p f hrows hkey
    rw [hrows] at hd'
    exact Table.found_of_update (q := fun v => v.status = .dead) h hkey hd hd' hid halive hdead
  cases a with
  | insert n =>
    have hstays : d ∈ t.deliveries := by
      simp only [commentStep] at hq
      split at hq <;> cases hq
      exact List.mem_append_left _ hd
    have hsame : d' = d := Table.eq_of_key (h.step hq) hd' hstays hid
    exact absurd (hsame ▸ hdead) halive
  | skip id =>
    cases hq
    cases (hfound rfl fun _ => rfl).2
  | claim call id claimId dbNow workerNow =>
    simp only [commentStep] at hq
    split at hq <;> cases hq
    cases (hfound rfl fun _ => rfl).2
  | escape call =>
    obtain ⟨c, -, rfl⟩ := Option.map_eq_some_iff.mp hq
    exact absurd (hfound (Table.update_self (fun _ => false) _).symm fun _ => rfl).1 (by rintro ⟨⟩)
  | execute call externalId =>
    obtain ⟨c, -, rfl⟩ := Option.map_eq_some_iff.mp hq
    cases (hfound rfl fun _ => rfl).2
  | fail call error now =>
    obtain ⟨c, hcall, rfl⟩ := Option.map_eq_some_iff.mp hq
    obtain ⟨hheld, hlast⟩ := hfound rfl fun v => (failDelivery_row c error now v).1
    have hretryable : error.retryable = true := by simpa [refusesComment] using hretry
    cases error with
    | loadShed message until_ => cases hlast
    | remote | credential | other =>
      refine ⟨call, c, hcall, hheld, ?_, rfl⟩
      by_contra hless
      simp only [failDelivery, hretryable, Bool.true_and, decide_eq_true (Nat.lt_of_not_le hless), if_true] at hlast
      cases hlast

theorem IdsOnce.exhausted {s t : BookedComments} (h : IdsOnce s.1)
    (hsound : (commentLedger s).Sound) (hcount : (commentLedger s).Counted) (hstep : bookedComments.step s a = some t) :
    ∀ d ∈ s.1.deliveries, d.status ≠ .dead → ∀ d' ∈ t.1.deliveries, d'.id = d.id → d'.status = .dead →
      refusesComment a = false → maxWorkOrderAttempts ≤ (t.2.wasted d.id).length := by
  intro d hd halive d' hd' hid hdead hretry
  obtain ⟨-, hq, hbook⟩ := ClaimBook.keep_step hstep
  obtain ⟨call, c, hcall, hheld, hlast, hnote⟩ := h.dies hq hd halive hd' hid hdead hretry
  have hfound : s.1.deliveries.any (heldBy c.deliveryId c.claimId) = true := List.any_eq_true.mpr ⟨d, hd, hheld⟩
  have hkeys : d.id = c.deliveryId ∧ d.claimedBy = some c.claimId := by
    simpa only [heldBy, Bool.and_eq_true, decide_eq_true_eq] using hheld
  have hwork : (commentLedger s).calls call = some ⟨c.deliveryId, c.claimId, c.attempts⟩ := by
    show commentAtWork s.1 call = _
    rw [commentAtWork, hcall]
    rfl
  have hholder : (commentLedger s).holder c.deliveryId = some c.claimId := by
    show (deliveryColumns.row s.1.deliveries c.deliveryId).bind deliveryColumns.holder = _
    have hk : deliveryColumns.row s.1.deliveries d.id = some d := ClaimColumns.row_of_mem (C := deliveryColumns) h hd
    rw [← hkeys.1, hk, Option.bind_some, ← hkeys.2]
    rfl
  refine Nat.le_trans hlast ?_
  rw [hbook, hnote, commentReported, hcall, hkeys.1]
  simp only [ClaimColumns.reportNote, hfound, true_or, if_true]
  exact (hsound.wasted_failed hcount hwork hholder).ge

def newComments : BookedComments := (emptyCommentQueue, ClaimBook.empty)

/-- Load shedding spends no attempt of a delivery exactly in the runs in which no
call is turned away after it has lost its claim. -/
theorem comment_retries_kept_iff {as : List CommentAction} {t : BookedComments}
    (hrun : bookedComments.run newComments as = some t) :
    bookedComments.Along (fun s a => ∀ u, bookedComments.step s a = some u → CommentRetriesKept s a u) newComments as ↔
      bookedComments.Along ShedsCommentInTime newComments as := by
  refine AttemptLedger.along_counted_iff commentLedger (fun s => IdsOnce s.1) ?_ ?_
    List.nodup_nil ClaimColumns.sound_empty ClaimColumns.counted_empty hrun
  · intro s a t hs hstep
    exact ⟨hs.step (ClaimBook.keep_step hstep).2.1, hs.ledger_step hstep⟩
  · intro s a u hs hsound hcount hstep
    exact ⟨fun hkept => hkept.counted, fun hafter => ⟨hafter, hs.exhausted hsound hcount hstep⟩⟩

end Cadena.Connectors.CommentDrain
