import Cadena.Connectors.RelaySteps

/-!
# Hand-off by the relay

Requests are leased in order, a completed request stays as it is, and a
delivery whose response is in the ledger is not sent to the provider again:
in every run in which a poll does not update a row that was completed after
the poll looked it up, and no agent stores a response while another one is
between its look into the ledger and its request for the same delivery.
-/

namespace Cadena.Connectors.Relay

open Cadena.Base

/-- The steps that go wrong are not taken. -/
def Undisturbed (s : RelayState) : RelayAction → Prop
  | .lease i _ => ∀ head, s.agents i = .polled head →
      ∀ r ∈ s.rows, r.id = head → r.status ≠ .completed
  | .put i => ∀ d result, s.agents i = .responded d result →
      ∀ j d', s.agents j = .checked d' → d'.id ≠ d.id
  | _ => True

/-- What a step keeps of the hand-off. -/
structure Handoff (s : RelayState) (a : RelayAction) (t : RelayState) : Prop where
  leased_in_order : ∀ i leaseId d, a = .lease i leaseId → t.agents i = .delivered d →
    ∀ q ∈ s.rows, q.queuePosition < d.sequence → q.status = .completed
  completed_unchanged : ∀ r ∈ s.rows, r.status = .completed → r ∈ t.rows
  executed_stays : ∀ id result, s.ledger id = some result → t.ledger id = some result
  executed_not_sent : ∀ i d, a = .send i → s.agents i = .checked d → s.ledger d.id = none

/-! ## The rows -/

/-- The table of requests: in the order of positions that were drawn, with
distinct ids; no request fails for good, and a completed one has no lease. -/
structure RowsOk (rows : List RelayRequest) (next : Nat) : Prop where
  ordered : rows.Pairwise (·.queuePosition < ·.queuePosition)
  below : ∀ r ∈ rows, r.queuePosition < next
  ids : (rows.map (·.id)).Nodup
  notFailed : ∀ r ∈ rows, r.status ≠ .failed
  unleased : ∀ r ∈ rows, r.status = .completed → r.leaseId = none

theorem RowsOk.nil (next : Nat) : RowsOk [] next where
  ordered := List.Pairwise.nil
  below := by simp
  ids := List.nodup_nil
  notFailed := by simp
  unleased := by simp

variable {next : Nat} {rows : List RelayRequest} {f : RelayRequest → RelayRequest} {p : RelayRequest → Bool}
  {a : RelayAction}

theorem RowsOk.draw (h : RowsOk rows next) : RowsOk rows (next + 1) where
  ordered := h.ordered
  below r hr := Nat.lt_succ_of_lt (h.below r hr)
  ids := h.ids
  notFailed := h.notFailed
  unleased := h.unleased

theorem RowsOk.insert (h : RowsOk rows next) {id : Uuid}
    {key : String} {request : HttpRequest} (hid : rows.any (·.id == id) = false) :
    RowsOk (rows ++ [insertedRow id key request next]) (next + 1) where
  ordered := by
    rw [List.pairwise_append]
    refine ⟨h.ordered, List.pairwise_singleton _ _, ?_⟩
    intro r hr q hq
    rw [List.mem_singleton.mp hq]
    exact h.below r hr
  below r hr := by
    rcases List.mem_append.mp hr with hr | hr
    · exact Nat.lt_succ_of_lt (h.below r hr)
    · rw [List.mem_singleton.mp hr]
      exact Nat.lt_succ_self next
  ids := Table.nodup_insert_unless h.ids hid
  notFailed r hr := by
    rcases List.mem_append.mp hr with hr | hr
    · exact h.notFailed r hr
    · rw [List.mem_singleton.mp hr]
      simp [insertedRow]
  unleased r hr := by
    rcases List.mem_append.mp hr with hr | hr
    · exact h.unleased r hr
    · rw [List.mem_singleton.mp hr]
      intro _
      rfl

/-- A statement that updates rows without touching what identifies them. -/
structure KeepsPlace (f : RelayRequest → RelayRequest) : Prop where
  id : ∀ r, (f r).id = r.id
  position : ∀ r, (f r).queuePosition = r.queuePosition

theorem RowsOk.update (h : RowsOk rows next) (hf : KeepsPlace f)
    (hfail : ∀ r ∈ rows, p r = true → (f r).status ≠ .failed)
    (hlease : ∀ r ∈ rows, p r = true → (f r).status = .completed → (f r).leaseId = none) :
    RowsOk (Table.update p f rows) next where
  ordered := by
    have hmap := Table.update_column (p := p) (·.queuePosition) hf.position rows
    have hp := List.pairwise_map.mpr h.ordered
    rw [← hmap] at hp
    exact List.pairwise_map.mp hp
  below r hr := by
    rcases Table.mem_update.mp hr with ⟨q, hq, -, rfl⟩ | ⟨hr, -⟩
    · rw [hf.position]
      exact h.below q hq
    · exact h.below r hr
  ids := by
    have hmap := Table.update_column (p := p) (fun r : RelayRequest => r.id) hf.id rows
    rw [hmap]
    exact h.ids
  notFailed r hr := by
    rcases Table.mem_update.mp hr with ⟨q, hq, hp, rfl⟩ | ⟨hr, -⟩
    · exact hfail q hq hp
    · exact h.notFailed r hr
  unleased r hr := by
    rcases Table.mem_update.mp hr with ⟨q, hq, hp, rfl⟩ | ⟨hr, -⟩
    · exact hlease q hq hp
    · exact h.unleased r hr

def Heads (rows : List RelayRequest) (head : Uuid) : Prop :=
  ∃ r ∈ rows, r.id = head ∧ ∀ q ∈ rows, q.queuePosition < r.queuePosition → q.status = .completed

theorem RowsOk.queueHead (h : RowsOk rows next)
    {r : RelayRequest} (hr : queueHead rows = some r) : Heads rows r.id := by
  obtain ⟨hopen, before, after, rfl, hbefore⟩ := List.find?_eq_some_iff_append.mp hr
  refine ⟨r, by simp, rfl, fun q hq hlt => ?_⟩
  have hpair := (List.pairwise_append.mp h.ordered).2.1
  have hq' : q ∈ before := by
    rcases List.mem_append.mp hq with hq | hq
    · exact hq
    · rcases List.mem_cons.mp hq with rfl | hq
      · omega
      · have := (List.pairwise_cons.mp hpair).1 q hq
        omega
  -- the rows before the head are not open
  have hclosed := hbefore q hq'
  have hfail := h.notFailed q (List.mem_append_left _ hq')
  cases hs : q.status <;> simp_all [RelayRequest.isOpen]

theorem Heads.insert (h : RowsOk rows next) {head id : Uuid}
    {key : String} {request : HttpRequest} (hh : Heads rows head) :
    Heads (rows ++ [insertedRow id key request next]) head := by
  obtain ⟨r, hr, hid, hbefore⟩ := hh
  refine ⟨r, List.mem_append_left _ hr, hid, fun q hq hlt => ?_⟩
  rcases List.mem_append.mp hq with hq | hq
  · exact hbefore q hq hlt
  · rw [List.mem_singleton.mp hq] at hlt
    have hlt' : next < r.queuePosition := hlt
    have := h.below r hr
    omega

theorem Heads.update {head : Uuid} (hf : KeepsPlace f)
    (hcomp : ∀ r ∈ rows, r.status = .completed → p r = false) (hh : Heads rows head) :
    Heads (Table.update p f rows) head := by
  obtain ⟨r, hr, hid, hbefore⟩ := hh
  have hplace : ∃ r' ∈ Table.update p f rows, r'.id = r.id ∧ r'.queuePosition = r.queuePosition := by
    by_cases hp : p r = true
    · exact ⟨f r, Table.mem_update.mpr (.inl ⟨r, hr, hp, rfl⟩), hf.id r, hf.position r⟩
    · exact ⟨r, Table.mem_update_of_not hr (by simpa using hp), rfl, rfl⟩
  obtain ⟨r', hr', hid', hpos'⟩ := hplace
  refine ⟨r', hr', hid'.trans hid, fun q hq hlt => ?_⟩
  rcases Table.mem_update.mp hq with ⟨q', hq', hp, rfl⟩ | ⟨hq, -⟩
  · have hdone := hbefore q' hq' (by rw [← hpos', ← hf.position q']; exact hlt)
    rw [hcomp q' hq' hdone] at hp
    cases hp
  · exact hbefore q hq (hpos' ▸ hlt)

structure HandoffInv (s : RelayState) : Prop where
  rows : RowsOk s.rows s.nextPosition
  heads : ∀ i head, s.agents i = .polled head → Heads s.rows head
  unexecuted : ∀ i d, s.agents i = .checked d → s.ledger d.id = none

theorem HandoffInv.start (now : Millis) : HandoffInv (RelayState.start now) where
  rows := RowsOk.nil 0
  heads i head h := by cases h
  unexecuted i d h := by cases h

variable {R : RelayConfig} {s t : RelayState}

/-! ## What a step does to the rows -/

theorem RowsOk.change (h : RowsOk s.rows s.nextPosition) (hc : RowsChange R s a rows next) : RowsOk rows next := by
  cases hc with
  | same => exact h
  | drawn => exact h.draw
  | inserted hid _ => exact h.insert hid
  | reset id =>
    refine h.update ⟨fun _ => rfl, fun _ => rfl⟩ ?_ ?_
    · intro r hr hp
      simp
    · intro r hr hp hs
      cases hs
  | leased _ =>
    refine h.update ⟨fun _ => rfl, fun _ => rfl⟩ ?_ ?_
    · intro r hr hp
      simp [RelayRequest.lease]
    · intro r hr hp hs
      cases hs
  | @acked n attempts ack hcall =>
    refine h.update ⟨?_, ?_⟩ ?_ ?_
    · intro r
      cases ack.payload <;> rfl
    · intro r
      cases ack.payload <;> rfl
    · intro r hr hp
      cases ack.payload <;> simp [RelayRequest.acknowledged]
    · intro r hr hp hs
      cases ack.payload <;> rfl

/-- An undisturbed statement keeps completed rows, and with them what stands
before a head. -/
structure RowsKept (s : RelayState) (rows : List RelayRequest) : Prop where
  heads : ∀ head, Heads s.rows head → Heads rows head
  completed : ∀ r ∈ s.rows, r.status = .completed → r ∈ rows

theorem RowsKept.update (hf : KeepsPlace f) (hcomp : ∀ r ∈ s.rows, r.status = .completed → p r = false) :
    RowsKept s (Table.update p f s.rows) where
  heads _ hh := hh.update hf hcomp
  completed r hr hs := Table.mem_update_of_not hr (hcomp r hr hs)

theorem RowsKept.change
    (h : RowsOk s.rows s.nextPosition) (hC : Undisturbed s a) (hc : RowsChange R s a rows next) :
    RowsKept s rows := by
  cases hc with
  | same | drawn => exact ⟨fun _ hh => hh, fun _ hr _ => hr⟩
  | inserted => exact ⟨fun _ hh => hh.insert h, fun _ hr _ => List.mem_append_left _ hr⟩
  | reset id =>
    refine .update ⟨fun _ => rfl, fun _ => rfl⟩ ?_
    intro r hr hs
    simp [hs]
  | @leased i head leaseId hp =>
    refine .update ⟨fun _ => rfl, fun _ => rfl⟩ ?_
    intro r hr hs
    have hne : r.id ≠ head := fun hid => hC head hp r hr hid hs
    simp [hne]
  | @acked n attempts ack hcall =>
    refine .update ⟨?_, ?_⟩ ?_
    · intro r
      cases ack.payload <;> rfl
    · intro r
      cases ack.payload <;> rfl
    · intro r hr hs
      simp [ackMatches, h.unleased r hr hs]

/-! ## A step under the invariant -/

theorem HandoffInv.step (h : HandoffInv s) (hC : Undisturbed s a)
    (hstep : relayStep R s a = some t) : HandoffInv t where
  rows := h.rows.change (rows_step hstep)
  heads i head hi := by
    refine (RowsKept.change h.rows hC (rows_step hstep)).heads head ?_
    rcases agents_step hstep with hsame | ⟨k, phase, hset, hmove⟩
    · exact h.heads i head (hsame ▸ hi)
    · rw [hset] at hi
      by_cases hik : i = k
      · rw [hik, setAt_same] at hi
        subst hi
        cases hmove with
        | looked hrow => exact h.rows.queueHead hrow
      · rw [setAt_other _ _ hik] at hi
        exact h.heads i head hi
  unexecuted i d hi := by
    -- an agent that finds nothing in the ledger, and nobody stores a response meanwhile
    have hnone : s.ledger d.id = none := by
      rcases agents_step hstep with hsame | ⟨k, phase, hset, hmove⟩
      · exact h.unexecuted i d (hsame ▸ hi)
      · rw [hset] at hi
        by_cases hik : i = k
        · rw [hik, setAt_same] at hi
          subst hi
          cases hmove with
          | missed hnone => exact hnone
        · rw [setAt_other _ _ hik] at hi
          exact h.unexecuted i d hi
    rcases ledger_step hstep with
      ⟨hl, -⟩ | ⟨k, d', result, rfl, hk, -, hagents, hl⟩ | ⟨_, _, -, -, hl, -⟩
    · rw [hl, hnone]
    · rw [hagents] at hi
      by_cases hik : i = k
      · rw [hik, setAt_same] at hi
        cases hi
      · rw [setAt_other _ _ hik] at hi
        rw [hl, setAt_other _ _ (hC d' result hk i d hi), hnone]
    · rw [hl, hnone]

theorem leased_delivery {i : Nat} {leaseId : Uuid} {d : ConnectorRelayDelivery}
    (hstep : leaseStep s i leaseId = some t) (hd : t.agents i = .delivered d) :
    ∃ head, s.agents i = .polled head ∧ ∃ row ∈ s.rows, row.id = head ∧
      d.sequence = row.queuePosition := by
  unfold leaseStep at hstep
  split at hstep
  · rename_i head hp
    split at hstep
    · cases hstep
      simp [RelayState.setAgent] at hd
    · rename_i row hrow
      cases hstep
      simp only [RelayState.setAgent, setAt_same, AgentPhase.delivered.injEq] at hd
      have hfound := List.find?_some hrow
      simp only [Bool.and_eq_true, beq_iff_eq] at hfound
      exact ⟨head, hp, row, List.mem_of_find?_eq_some hrow, hfound.1, hd ▸ rfl⟩
  · cases hstep

theorem HandoffInv.handoff (h : HandoffInv s) (hC : Undisturbed s a)
    (hstep : relayStep R s a = some t) : Handoff s a t where
  leased_in_order i leaseId d ha hd q hq hlt := by
    subst ha
    obtain ⟨head, hp, row, hrow, hid, hseq⟩ := leased_delivery hstep hd
    obtain ⟨r, hr, hrid, hbefore⟩ := h.heads i head hp
    have hsame : r = row := Table.eq_of_key h.rows.ids hr hrow (hrid.trans hid.symm)
    rw [hseq, ← hsame] at hlt
    exact hbefore q hq hlt
  completed_unchanged := (RowsKept.change h.rows hC (rows_step hstep)).completed
  executed_stays id result hid := by
    rcases ledger_step hstep with ⟨hl, -⟩ | ⟨k, d, res, -, -, -, -, hl⟩ | ⟨_, _, -, -, hl, -⟩
    · rw [hl, hid]
    · rw [hl]
      by_cases heq : id = d.id
      · rw [heq] at hid ⊢
        rw [setAt_same, hid]
        rfl
      · rw [setAt_other _ _ heq, hid]
    · rw [hl, hid]
  executed_not_sent i d _ hi := h.unexecuted i d hi

def exampleRelay : RelayConfig where
  platform := Platform.ascii
  relayId := 9
  inBaseUrl _ := true
  inTargetOrigin _ := true

def exampleOk : StoredExecution := ⟨200, [], ""⟩

/-- One request is put into the queue and leased by agent 0. -/
def leasedOnce : List RelayAction :=
  [.attempt 0 5 (.call ⟨"PUT", "u", none⟩ fun _ => .finished), .submit 0 1, .look 0, .lease 0 21]

/-- The lease runs out while the answer of agent 0 is under way; agent 1
looks up the head just before the request is completed. -/
def overtakenPoll : List RelayAction :=
  leasedOnce ++ [.check 0, .send 0, .respond 0 exampleOk, .put 0, .acknowledge 0, .readAck 0,
    .tick 30000, .look 1, .writeAck 0]

/-- Agent 0 finds nothing in the ledger and stops; its lease runs out and
agent 1 executes the delivery. -/
def overtakenCheck : List RelayAction :=
  leasedOnce ++ [.check 0, .tick 30000, .look 1, .lease 1 22, .check 1, .send 1,
    .respond 1 exampleOk, .put 1]

end Cadena.Connectors.Relay
