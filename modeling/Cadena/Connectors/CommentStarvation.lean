import Cadena.Connectors.CommentDrain

/-!
# What the comment drain leaves behind

The drain returns when the fifty oldest due deliveries have none to hand over,
so deliveries behind fifty that must wait are never reached. A call that throws
ahead of its `try` keeps its claim and ends the drain.
-/

namespace Cadena.Connectors.CommentDrain

open Cadena.Base Cadena.Connectors Comments

/-- Executed, skipped, given up, failed or deferred until later, or claimed. -/
def Handled (now : Millis) (d : Delivery) : Prop :=
  match d.status with
  | .executed | .skipped | .dead => True
  | .pending | .failed => ∃ t, d.nextAttemptAt = some t ∧ now < t
  | .processing => (∃ t, d.claimExpiresAt = some t ∧ now < t) ∨ ∃ t, d.nextAttemptAt = some t ∧ now < t

/-- Where the drain has returned below its limit, every delivery whose target is
active and permitted to write has been handled. -/
def Drained (s : DrainState) : Prop :=
  ∀ readAt, s.phase = .returned readAt → s.processed < drainLimit →
    ∀ d ∈ s.deliveries, ∀ row, joinRow s.connectors d = some row → eligible row = true → Handled readAt d

/-- A read that finds work has fewer than fifty deliveries that must wait ahead
of it. -/
def ReachesWork (s : DrainState) : DrainAction → Prop
  | .read now =>
    s.processed < drainLimit → (dueRows s.connectors s.deliveries now).any eligible = true →
      ((dueRows s.connectors s.deliveries now).takeWhile fun row => !eligible row).length < batchLimit
  | _ => True

theorem take_filter_eq_nil_iff {α : Type} (p : α → Bool) (l : List α) (n : Nat) :
    (l.take n).filter p = [] ↔ (l.any p = true → n ≤ (l.takeWhile fun a => !p a).length) := by
  induction l generalizing n with
  | nil => simp
  | cons a l ih =>
    cases n with
    | zero => simp
    | succ n =>
      cases hp : p a with
      | true => simp [hp]
      | false => simp [hp, ih]

theorem later_iff {now : Millis} {t : Option Millis} :
    t.all (· ≤ now) = false ↔ ∃ until_, t = some until_ ∧ now < until_ := by
  cases t with
  | none => simp
  | some u => simp

theorem handled_iff {now : Millis} {d : Delivery} : Handled now d ↔ isDue now d = false := by
  unfold Handled isDue claimFree
  cases d.status with
  | pending | failed => simp only [Bool.true_and, later_iff]
  | processing => simp only [Bool.and_eq_false_iff, later_iff]
  | executed | skipped | dead => simp

theorem mem_dueRows {connectors : Uuid → Option DrainConnector} {deliveries : List Delivery} {now : Millis}
    {row : DueRow} :
    row ∈ dueRows connectors deliveries now ↔
      ∃ d ∈ deliveries, isDue now d = true ∧ joinRow connectors d = some row := by
  simp only [dueRows, List.mem_filterMap, List.mem_insertionSort, List.mem_filter, and_assoc]

theorem handled_all_iff {connectors : Uuid → Option DrainConnector} {deliveries : List Delivery} {now : Millis} :
    (∀ d ∈ deliveries, ∀ row, joinRow connectors d = some row → eligible row = true → Handled now d) ↔
      (dueRows connectors deliveries now).any eligible = false := by
  rw [List.any_eq_false]
  constructor
  · intro h row hrow heligible
    obtain ⟨d, hd, hdue, hjoin⟩ := mem_dueRows.mp hrow
    have hnot := handled_iff.mp (h d hd row hjoin heligible)
    rw [hdue] at hnot
    cases hnot
  · intro h d hd row hjoin heligible
    rw [handled_iff]
    by_contra hdue
    exact h row (mem_dueRows.mpr ⟨d, hd, by simpa using hdue, hjoin⟩) heligible

/-! ## The phases -/

section
variable {W : CommentWorld} {s t : DrainState}

theorem handleError_phase (row : DueRow) (claimId : String) (attempts : Nat) (rest : List DueRow)
    (error : ExecError) (answers : CallAnswers) :
    (answers.handled = .done ∧ (handleError s row claimId attempts rest error answers).phase = .working rest) ∨
      answers.handled ≠ .done ∧
        ∃ message, (handleError s row claimId attempts rest error answers).phase = .thrown message := by
  cases hhandled : answers.handled with
  | done =>
    refine .inl ⟨rfl, ?_⟩
    unfold handleError
    split <;> simp only [hhandled]
  | rolledBack message =>
    refine .inr ⟨nofun, message, ?_⟩
    unfold handleError
    split <;> simp only [hhandled]
  | undispatched message =>
    refine .inr ⟨nofun, message, ?_⟩
    unfold handleError
    split <;> simp only [hhandled]

theorem callDelivery_phase (row : DueRow) (claimId : String) (attempts : Nat) (rest : List DueRow)
    (answers : CallAnswers) :
    (callDelivery W s row claimId attempts rest answers).phase = .working rest ∨
      ∃ message, (callDelivery W s row claimId attempts rest answers).phase = .thrown message := by
  have herror : ∀ (s : DrainState) (error : ExecError),
      (handleError s row claimId attempts rest error answers).phase = .working rest ∨
        ∃ message, (handleError s row claimId attempts rest error answers).phase = .thrown message :=
    fun s error => (handleError_phase row claimId attempts rest error answers).imp And.right And.right
  unfold callDelivery
  split
  · exact .inr ⟨_, rfl⟩
  · split
    · exact herror s _
    · simp only
      split
      · exact .inl rfl
      · exact herror s _
      · exact herror _ _

/-- The drain is not over. -/
def Running (s : DrainState) : Prop := ∀ readAt, s.phase ≠ .returned readAt

theorem Running.drained (h : Running s) : Drained s := fun readAt hphase => absurd hphase (h readAt)

theorem running_step {a : DrainAction} (hstep : drainStep W s a = some t) (hread : ∀ now, a ≠ .read now) :
    Running t := by
  cases a with
  | read now => exact absurd rfl (hread now)
  | next claimId now =>
    simp only [drainStep] at hstep
    split at hstep
    · cases hstep
      unfold nextRow
      split
      · exact nofun
      · split <;> exact nofun
    · cases hstep
  | call answers =>
    simp only [drainStep] at hstep
    split at hstep
    · rename_i row claimId attempts rest hphase
      cases hstep
      intro readAt hreturned
      rcases callDelivery_phase (W := W) (s := s) row claimId attempts rest answers with hrest | ⟨message, hthrown⟩
      · rw [hrest] at hreturned
        cases hreturned
      · rw [hthrown] at hreturned
        cases hreturned
    · cases hstep
  | others deliveries connectors =>
    simp only [drainStep] at hstep
    split at hstep
    · cases hstep
    · cases hstep
    · rename_i hnot _
      cases hstep
      exact hnot

theorem read_drained_iff {now : Millis} (hstep : drainStep W s (.read now) = some t) :
    Drained t ↔ ReachesWork s (.read now) := by
  have hread : t = { s with phase := readBatch s now } := by
    simp only [drainStep] at hstep
    split at hstep
    · exact (Option.some.inj hstep).symm
    · exact (Option.some.inj hstep).symm
    · cases hstep
  subst hread
  unfold Drained ReachesWork
  simp only [readBatch]
  by_cases hlimit : drainLimit ≤ s.processed
  · simp only [if_pos hlimit]
    have hover : ¬ s.processed < drainLimit := Nat.not_lt.mpr hlimit
    exact ⟨fun _ h => absurd h hover, fun _ _ _ h => absurd h hover⟩
  · simp only [if_neg hlimit]
    have hunder : s.processed < drainLimit := Nat.not_le.mp hlimit
    have hbatch := take_filter_eq_nil_iff eligible (dueRows s.connectors s.deliveries now) batchLimit
    split
    · rename_i hnone
      have hfull := hbatch.mp hnone
      constructor
      · intro h _ hany
        have hnot := handled_all_iff.mp (h now rfl hunder)
        rw [hnot] at hany
        cases hany
      · rintro h readAt ⟨⟩ -
        refine handled_all_iff.mpr (Bool.eq_false_iff.mpr fun hany => ?_)
        have hless := h hunder hany
        have hmore := hfull hany
        omega
    · rename_i hsome
      refine ⟨fun _ _ hany => ?_, fun _ readAt hphase => ?_⟩
      · by_contra hnot
        exact hsome (hbatch.mpr fun _ => Nat.not_lt.mp hnot)
      · cases hphase

theorem drained_step {a : DrainAction} (hstep : drainStep W s a = some t) : Drained t ↔ ReachesWork s a := by
  cases a with
  | read now => exact read_drained_iff hstep
  | next | call | others =>
    exact ⟨fun _ => trivial, fun _ => (running_step hstep (by rintro _ ⟨⟩)).drained⟩

/-- **The drain starves no delivery** in a run exactly if each of its reads that
finds work has fewer than fifty deliveries that must wait ahead of it. -/
theorem drained_iff (W : CommentWorld) (deliveries : List Delivery) (connectors : Uuid → Option DrainConnector)
    {acts : List DrainAction} (hrun : (commentDrain W).run (drainOf deliveries connectors) acts = some t) :
    (commentDrain W).Throughout Drained (drainOf deliveries connectors) acts ↔
      (commentDrain W).Along ReachesWork (drainOf deliveries connectors) acts :=
  (commentDrain W).throughout_iff (P := fun _ => True) (fun _ _ => trivial) (fun _ _ hstep => drained_step hstep)
    trivial (Running.drained nofun) hrun

end

/-! ## Fifty that wait -/

def openPolicy : CommentSyncPolicy := ⟨true, .bidirectional, [], []⟩

def pausedAndActive (id : Uuid) : Option DrainConnector :=
  if id = 1 then some ⟨.jira, true, some 0, openPolicy, false, []⟩
  else if id = 2 then some ⟨.servicenow, false, some 0, openPolicy, false, []⟩
  else none

def pendingFor (target : Uuid) (n : Nat) : Delivery where
  id := BitVec.ofNat 128 n
  targetConnectorId := target
  sourceConnectorId := 2
  originalAuthorId := "ann".toList
  marker := "m".toList
  createdAt := n
  status := .pending
  attempts := 0
  targetCommentId := none
  lastError := none
  nextAttemptAt := none
  claimedBy := none
  claimExpiresAt := none

def plainWorld : CommentWorld where
  platform := .ascii
  adapters _ := some ⟨true, true⟩
  secret _ := .found

def fiftyWait : List Delivery := (List.range 50).map (pendingFor 1) ++ [pendingFor 2 50]

def returnedAt (s : DrainState) : Option Millis :=
  match s.phase with
  | .returned readAt => some readAt
  | _ => none

theorem drain_starves :
    ¬ ∀ (W : CommentWorld) (deliveries : List Delivery) (connectors : Uuid → Option DrainConnector)
        (acts : List DrainAction) (t : DrainState),
      (commentDrain W).run (drainOf deliveries connectors) acts = some t →
      (commentDrain W).Throughout Drained (drainOf deliveries connectors) acts := by
  intro h
  generalize hstart : drainOf fiftyWait pausedAndActive = start
  have hread : (commentDrain plainWorld).run start [.read 100] =
      some { start with phase := readBatch start 100 } := by
    rw [← hstart]
    rfl
  have hreturned : returnedAt { drainOf fiftyWait pausedAndActive with
      phase := readBatch (drainOf fiftyWait pausedAndActive) 100 } = some 100 := by decide
  rw [hstart] at hreturned
  have hphase : readBatch start 100 = .returned 100 := by
    simp only [returnedAt] at hreturned
    split at hreturned
    · rename_i readAt hphase
      rw [hphase, Option.some.inj hreturned]
    · cases hreturned
  have hdrained := (commentDrain plainWorld).throughout_end
    (h plainWorld fiftyWait pausedAndActive [.read 100] _ (hstart ▸ hread)) (hstart ▸ hread)
  subst hstart
  have hhandled := hdrained 100 hphase (by decide) (pendingFor 2 50)
    (List.mem_append_right _ (List.mem_singleton_self _)) _ rfl (by decide)
  obtain ⟨until_, hnext, -⟩ := hhandled
  cases hnext

/-- The target answers; its clock is not read. -/
def accepted : CallAnswers := ⟨.ok [], .ok "c1".toList, .done, .done, 0⟩

def drained : List DrainAction := [.read 100, .next "w:1" 100, .call accepted, .read 200]

def reachesWork (s : DrainState) : DrainAction → Bool
  | .read now =>
    !(dueRows s.connectors s.deliveries now).any eligible
      || ((dueRows s.connectors s.deliveries now).takeWhile fun row => !eligible row).length < batchLimit
  | _ => true

theorem reachesWork_of_check (s : DrainState) (a : DrainAction) (h : reachesWork s a = true) : ReachesWork s a := by
  cases a with
  | read now =>
    intro _ hany
    simpa [reachesWork, hany] using h
  | next | call | others => trivial

theorem drained_behind_two :
    (commentDrain plainWorld).Throughout Drained
      (drainOf [pendingFor 1 0, pendingFor 1 1, pendingFor 2 2] pausedAndActive) drained ∧
      ((commentDrain plainWorld).run (drainOf [pendingFor 1 0, pendingFor 1 1, pendingFor 2 2] pausedAndActive)
        drained).map (fun s => (s.deliveries.map (·.status), returnedAt s, s.processed)) =
        some ([.pending, .pending, .executed], some 200, 1) := by
  have hend : ((commentDrain plainWorld).run
      (drainOf [pendingFor 1 0, pendingFor 1 1, pendingFor 2 2] pausedAndActive)
      drained).map (fun s => (s.deliveries.map (·.status), returnedAt s, s.processed)) =
      some ([.pending, .pending, .executed], some 200, 1) := by decide
  obtain ⟨t, ht, -⟩ := Option.map_eq_some_iff.mp hend
  refine ⟨(drained_iff plainWorld _ pausedAndActive ht).mpr ?_, hend⟩
  exact (commentDrain plainWorld).along_of_checks reachesWork_of_check (by decide)

end Cadena.Connectors.CommentDrain
