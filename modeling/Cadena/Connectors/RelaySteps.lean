import Cadena.Connectors.Relay

/-!
# What a step of the relay can do

One inversion lemma for each part of the state: the agents, the ledger and
the log, the rows, the operations, and the calls under way.
-/

namespace Cadena.Connectors.Relay

open Cadena.Base

section
variable {R : RelayConfig} {s t : RelayState}

/-- The clock, the operations and the calls of `acknowledge`. -/
def RelayAction.quiet : RelayAction → Bool
  | .tick _ | .attempt _ _ _ | .submit _ _ | .locate _ | .collect _ | .giveUp _
  | .readAck _ | .writeAck _ | .loseAck _ => true
  | _ => false

variable {a : RelayAction} {i j : Nat}

theorem quiet_step (ha : a.quiet = true) (h : relayStep R s a = some t) :
    (t.agents = s.agents ∧ t.ledger = s.ledger ∧ t.sends = s.sends) ∧
      ∀ c ∈ t.calls, ∃ c' ∈ s.calls, c'.ack = c.ack := by
  have hkept : ∀ c ∈ s.calls, ∃ c' ∈ s.calls, c'.ack = c.ack := fun c hc => ⟨c, hc, rfl⟩
  have herased : ∀ n, ∀ c ∈ s.calls.eraseIdx n, ∃ c' ∈ s.calls, c'.ack = c.ack :=
    fun n c hc => ⟨c, List.mem_of_mem_eraseIdx hc, rfl⟩
  cases a with
  | tick | attempt =>
    cases h
    exact ⟨⟨rfl, rfl, rfl⟩, hkept⟩
  | loseAck n =>
    cases h
    exact ⟨⟨rfl, rfl, rfl⟩, herased n⟩
  | submit j id =>
    simp only [relayStep, submitStep] at h
    split at h
    · split at h
      · split at h
        · cases h
          exact ⟨⟨rfl, rfl, rfl⟩, hkept⟩
        · split at h <;> cases h
          exact ⟨⟨rfl, rfl, rfl⟩, hkept⟩
      · cases h
        exact ⟨⟨rfl, rfl, rfl⟩, hkept⟩
    · cases h
  | locate j =>
    simp only [relayStep, locateStep] at h
    split at h
    · split at h <;> cases h <;> exact ⟨⟨rfl, rfl, rfl⟩, hkept⟩
    · cases h
  | collect j =>
    simp only [relayStep, collectStep] at h
    split at h
    · split at h
      · cases h
        exact ⟨⟨rfl, rfl, rfl⟩, hkept⟩
      · split at h <;> cases h <;> exact ⟨⟨rfl, rfl, rfl⟩, hkept⟩
    · cases h
  | giveUp =>
    simp only [relayStep, giveUpStep] at h
    split at h <;> cases h
    exact ⟨⟨rfl, rfl, rfl⟩, hkept⟩
  | writeAck n =>
    simp only [relayStep, writeAckStep] at h
    split at h <;> cases h
    exact ⟨⟨rfl, rfl, rfl⟩, herased n⟩
  | readAck n =>
    simp only [relayStep, readAckStep] at h
    split at h
    · rename_i ack hcall
      split at h
      · cases h
        refine ⟨⟨rfl, rfl, rfl⟩, fun c hc => ?_⟩
        rcases List.mem_or_eq_of_mem_set hc with hc | rfl
        · exact hkept c hc
        · exact ⟨_, List.mem_of_getElem? hcall, rfl⟩
      · cases h
        exact ⟨⟨rfl, rfl, rfl⟩, herased n⟩
    · cases h
  | _ => cases ha

theorem agent_frame (ha : a.quiet = false) (h : relayStep R s a = some t) :
    t.callers = s.callers ∧ (t.calls = s.calls ∨ ∃ i d payload,
      s.agents i = .acknowledging d payload ∧
        t.calls = s.calls ++ [⟨⟨d.id, d.leaseId, payload⟩, none⟩]) := by
  cases a with
  | look i =>
    simp only [relayStep, lookStep] at h
    split at h
    · split at h
      · split at h <;> cases h
        exact ⟨rfl, .inl rfl⟩
      · cases h
    · cases h
  | lease i leaseId =>
    simp only [relayStep, leaseStep] at h
    split at h
    · split at h <;> cases h <;> exact ⟨rfl, .inl rfl⟩
    · cases h
  | check i =>
    simp only [relayStep, checkStep] at h
    split at h
    · split at h
      · split at h <;> cases h <;> exact ⟨rfl, .inl rfl⟩
      · cases h
        exact ⟨rfl, .inl rfl⟩
    · cases h
  | acknowledge i =>
    simp only [relayStep, acknowledgeStep] at h
    split at h <;> cases h
    exact ⟨rfl, .inr ⟨i, _, _, ‹_›, rfl⟩⟩
  | crash i =>
    cases h
    exact ⟨rfl, .inl rfl⟩
  | send | respond | networkError | put | putError =>
    simp only [relayStep, sendStep, respondStep, networkErrorStep, putStep, putErrorStep] at h
    split at h <;> cases h
    exact ⟨rfl, .inl rfl⟩
  | _ => cases ha

/-- How an agent comes to its next phase. -/
inductive AgentMove (s t : RelayState) (i : Nat) : AgentPhase → Prop where
  | stopped : AgentMove s t i .idle
  | looked {row : RelayRequest} : queueHead s.rows = some row → AgentMove s t i (.polled row.id)
  | leased {head leaseId : Uuid} {row : RelayRequest} : s.agents i = .polled head →
      row ∈ s.rows → row.id = head → AgentMove s t i (.delivered (mapDelivery row leaseId))
  | missed {d : ConnectorRelayDelivery} : s.ledger d.id = none → AgentMove s t i (.checked d)
  | found {d : ConnectorRelayDelivery} {result : StoredExecution} :
      s.ledger d.id = some result → AgentMove s t i (.acknowledging d (.response result))
  | sent {d : ConnectorRelayDelivery} : s.agents i = .checked d → d.id ∈ t.sends →
      AgentMove s t i (.requested d)
  | responded {d : ConnectorRelayDelivery} {result : StoredExecution} :
      s.agents i = .requested d → AgentMove s t i (.responded d result)
  | stored {d : ConnectorRelayDelivery} {result : StoredExecution} :
      s.agents i = .responded d result → AgentMove s t i (.acknowledging d (.response result))
  | failed {d : ConnectorRelayDelivery} {message : String} :
      AgentMove s t i (.acknowledging d (.error message))

theorem AgentMove.of_look (h : lookStep s i = some t) :
    ∃ phase, t.agents = setAt s.agents i phase ∧ AgentMove s t i phase := by
  unfold lookStep at h
  split at h
  · split at h
    · rename_i row hrow
      split at h <;> cases h
      exact ⟨_, rfl, .looked hrow⟩
    · cases h
  · cases h

theorem AgentMove.of_lease {leaseId : Uuid} (h : leaseStep s i leaseId = some t) :
    ∃ phase, t.agents = setAt s.agents i phase ∧ AgentMove s t i phase := by
  unfold leaseStep at h
  split at h
  · rename_i head hp
    split at h
    · cases h
      exact ⟨_, rfl, .stopped⟩
    · rename_i row hrow
      cases h
      have hfound := List.find?_some hrow
      simp only [Bool.and_eq_true, beq_iff_eq] at hfound
      exact ⟨_, rfl, .leased hp (List.mem_of_find?_eq_some hrow) hfound.1⟩
  · cases h

theorem AgentMove.of_check (h : checkStep R s i = some t) :
    ∃ phase, t.agents = setAt s.agents i phase ∧ AgentMove s t i phase := by
  unfold checkStep at h
  split at h
  · split at h
    · split at h
      · rename_i result hresult
        cases h
        exact ⟨_, rfl, .found hresult⟩
      · rename_i hnone
        cases h
        exact ⟨_, rfl, .missed hnone⟩
    · cases h
      exact ⟨_, rfl, .failed⟩
  · cases h

theorem agents_step (h : relayStep R s a = some t) :
    t.agents = s.agents ∨ ∃ i phase, t.agents = setAt s.agents i phase ∧ AgentMove s t i phase := by
  cases a with
  | look i => exact .inr ⟨i, AgentMove.of_look h⟩
  | lease i leaseId => exact .inr ⟨i, AgentMove.of_lease h⟩
  | check i => exact .inr ⟨i, AgentMove.of_check h⟩
  | crash i =>
    cases h
    exact .inr ⟨i, _, rfl, .stopped⟩
  | send i =>
    simp only [relayStep, sendStep] at h
    split at h <;> cases h
    exact .inr ⟨i, _, rfl, .sent ‹_› (by simp)⟩
  | respond i result =>
    simp only [relayStep, respondStep] at h
    split at h <;> cases h
    exact .inr ⟨i, _, rfl, .responded ‹_›⟩
  | put i =>
    simp only [relayStep, putStep] at h
    split at h <;> cases h
    exact .inr ⟨i, _, rfl, .stored ‹_›⟩
  | networkError i | putError i =>
    simp only [relayStep, networkErrorStep, putErrorStep] at h
    split at h <;> cases h
    exact .inr ⟨i, _, rfl, .failed⟩
  | acknowledge i =>
    simp only [relayStep, acknowledgeStep] at h
    split at h <;> cases h
    exact .inr ⟨i, _, rfl, .stopped⟩
  | _ => exact .inl (quiet_step rfl h).1.1

theorem ledger_step (h : relayStep R s a = some t) : (t.ledger = s.ledger ∧ t.sends = s.sends) ∨
      (∃ i d result, a = .put i ∧ s.agents i = .responded d result ∧ t.sends = s.sends ∧
        t.agents = setAt s.agents i (.acknowledging d (.response result)) ∧
        t.ledger = setAt s.ledger d.id (some ((s.ledger d.id).getD result))) ∨
      (∃ i d, a = .send i ∧ s.agents i = .checked d ∧ t.ledger = s.ledger ∧
        t.sends = s.sends ++ [d.id]) := by
  cases a with
  | put i =>
    simp only [relayStep, putStep] at h
    split at h <;> cases h
    exact .inr (.inl ⟨i, _, _, rfl, ‹_›, rfl, rfl, rfl⟩)
  | send i =>
    simp only [relayStep, sendStep] at h
    split at h <;> cases h
    exact .inr (.inr ⟨i, _, rfl, ‹_›, rfl, rfl⟩)
  | crash i =>
    cases h
    exact .inl ⟨rfl, rfl⟩
  | look i =>
    simp only [relayStep, lookStep] at h
    split at h
    · split at h
      · split at h <;> cases h
        exact .inl ⟨rfl, rfl⟩
      · cases h
    · cases h
  | lease i leaseId =>
    simp only [relayStep, leaseStep] at h
    split at h
    · split at h <;> cases h <;> exact .inl ⟨rfl, rfl⟩
    · cases h
  | check i =>
    simp only [relayStep, checkStep] at h
    split at h
    · split at h
      · split at h <;> cases h <;> exact .inl ⟨rfl, rfl⟩
      · cases h
        exact .inl ⟨rfl, rfl⟩
    · cases h
  | respond | networkError | putError | acknowledge =>
    simp only [relayStep, respondStep, networkErrorStep, putErrorStep, acknowledgeStep] at h
    split at h <;> cases h
    exact .inl ⟨rfl, rfl⟩
  | _ => exact .inl (quiet_step rfl h).1.2

/-- What a step does to the rows. -/
inductive RowsChange (R : RelayConfig) (s : RelayState) :
    RelayAction → List RelayRequest → Nat → Prop where
  | same {a : RelayAction} : RowsChange R s a s.rows s.nextPosition
  | drawn {j : Nat} {id : Uuid} : RowsChange R s (.submit j id) s.rows (s.nextPosition + 1)
  | inserted {j : Nat} {id : Uuid} {key : String} {request : HttpRequest} :
      s.rows.any (·.id == id) = false → s.rows.any (·.idempotencyKey == key) = false →
      RowsChange R s (.submit j id) (s.rows ++ [insertedRow id key request s.nextPosition])
        (s.nextPosition + 1)
  | reset {j : Nat} (id : Uuid) : RowsChange R s (.locate j)
      (Table.update (fun r => r.id == id && r.status == .failed)
        (fun r => { r with status := .pending, errorMessage := none }) s.rows) s.nextPosition
  | leased {i : Nat} {head leaseId : Uuid} : s.agents i = .polled head →
      RowsChange R s (.lease i leaseId)
        (Table.update (fun r => r.id == head && r.claimable s.now) (·.lease leaseId s.now) s.rows)
        s.nextPosition
  | acked {n attempts : Nat} {ack : ConnectorRelayAck} : s.calls[n]? = some ⟨ack, some attempts⟩ →
      RowsChange R s (.writeAck n)
        (Table.update (ackMatches ack)
          (fun r => r.acknowledged R.platform s.now attempts ack.payload) s.rows) s.nextPosition

theorem RowsChange.of_submit {id : Uuid} (h : submitStep R s j id = some t) :
    RowsChange R s (.submit j id) t.rows t.nextPosition := by
  unfold submitStep at h
  dsimp only at h
  split at h
  · split at h
    · split at h
      · cases h
        exact .drawn
      · rename_i hkey
        split at h
        · cases h
        · rename_i hfresh
          cases h
          simp only [Bool.or_eq_true, not_or, Bool.not_eq_true] at hfresh
          exact .inserted hfresh.1.1 (by simpa using hkey)
    · cases h
      exact .same
  · cases h

theorem rows_step (h : relayStep R s a = some t) : RowsChange R s a t.rows t.nextPosition := by
  cases a with
  | submit j id => exact RowsChange.of_submit h
  | locate j =>
    simp only [relayStep, locateStep] at h
    split at h
    · split at h
      · cases h
        exact .same
      · cases h
        exact .reset _
    · cases h
  | lease i leaseId =>
    simp only [relayStep, leaseStep] at h
    split at h
    · split at h
      · cases h
        exact .same
      · cases h
        exact .leased ‹_›
    · cases h
  | writeAck n =>
    simp only [relayStep, writeAckStep] at h
    split at h <;> cases h
    exact .acked ‹_›
  | tick | attempt | crash | loseAck =>
    cases h
    exact .same
  | collect j =>
    simp only [relayStep, collectStep] at h
    split at h
    · split at h
      · cases h
        exact .same
      · split at h <;> cases h <;> exact .same
    · cases h
  | check i =>
    simp only [relayStep, checkStep] at h
    split at h
    · split at h
      · split at h <;> cases h <;> exact .same
      · cases h
        exact .same
    · cases h
  | look i =>
    simp only [relayStep, lookStep] at h
    split at h
    · split at h
      · split at h <;> cases h
        exact .same
      · cases h
    · cases h
  | readAck n =>
    simp only [relayStep, readAckStep] at h
    split at h
    · split at h <;> cases h <;> exact .same
    · cases h
  | giveUp | send | respond | networkError | put | putError | acknowledge =>
    simp only [relayStep, giveUpStep, sendStep, respondStep, networkErrorStep, putStep,
      putErrorStep, acknowledgeStep] at h
    split at h <;> cases h
    exact .same

/-- What a step of an operation does to its attempt. -/
inductive CallerMove (R : RelayConfig) (s t : RelayState) : Caller → Caller → Prop where
  | started {c : Caller} (operationId : Uuid) (op : Operation) :
      CallerMove R s t c ⟨operationId, .running op, [], false⟩
  | refused {c : Caller} {request : HttpRequest} {next : Reply → Operation} :
      c.phase = .running (.call request next) →
      CallerMove R s t c { c with phase := .running (next .failure) }
  | joined {c : Caller} {request : HttpRequest} {next : Reply → Operation} (key : String) :
      c.phase = .running (.call request next) → s.rows.any (·.idempotencyKey == key) = true →
      CallerMove R s t c { c with
        phase := .submitted key next, submissions := c.submissions ++ [⟨key, true, none⟩] }
  | queued {c : Caller} {request : HttpRequest} {next : Reply → Operation} (key : String) {id : Uuid} :
      c.phase = .running (.call request next) → insertedRow id key request s.nextPosition ∈ t.rows →
      CallerMove R s t c { c with
        phase := .submitted key next, submissions := c.submissions ++ [⟨key, false, some id⟩] }
  | located {c : Caller} {key : String} {next : Reply → Operation} {row : RelayRequest} :
      c.phase = .submitted key next → s.rows.find? (·.idempotencyKey == key) = some row →
      CallerMove R s t c { c with phase := .waiting row.id next }
  | lost {c : Caller} {key : String} {next : Reply → Operation} :
      c.phase = .submitted key next → s.rows.find? (·.idempotencyKey == key) = none →
      CallerMove R s t c { c with phase := .running (next .failure) }
  | vanished {c : Caller} {id : Uuid} {next : Reply → Operation} :
      c.phase = .waiting id next → s.rows.find? (·.id == id) = none →
      CallerMove R s t c { c with phase := .running (next .failure) }
  | answered {c : Caller} {id : Uuid} {next : Reply → Operation} {row : RelayRequest} (reply : Reply) :
      c.phase = .waiting id next → s.rows.find? (·.id == id) = some row →
      row.status = .completed ∨ row.status = .failed →
      CallerMove R s t c { c with phase := .running (next reply) }
  | gaveUp {c : Caller} {id : Uuid} {next : Reply → Operation} : c.phase = .waiting id next →
      CallerMove R s t c { c with phase := .running (next .failure), gaveUp := true }

theorem CallerMove.of_submit {id : Uuid} (h : submitStep R s j id = some t) :
    ∃ c, t.callers = setAt s.callers j c ∧ CallerMove R s t (s.callers j) c := by
  unfold submitStep at h
  dsimp only at h
  split at h
  · split at h
    · split at h
      · rename_i hkey
        cases h
        exact ⟨_, rfl, .joined _ ‹_› hkey⟩
      · split at h
        · cases h
        · cases h
          exact ⟨_, rfl, .queued _ ‹_› (by simp)⟩
    · cases h
      exact ⟨_, rfl, .refused ‹_›⟩
  · cases h

theorem CallerMove.of_locate (h : locateStep s j = some t) :
    ∃ c, t.callers = setAt s.callers j c ∧ CallerMove R s t (s.callers j) c := by
  unfold locateStep at h
  dsimp only at h
  split at h
  · split at h
    · cases h
      exact ⟨_, rfl, .lost ‹_› ‹_›⟩
    · cases h
      exact ⟨_, rfl, .located ‹_› ‹_›⟩
  · cases h

theorem CallerMove.of_collect (h : collectStep s j = some t) :
    ∃ c, t.callers = setAt s.callers j c ∧ CallerMove R s t (s.callers j) c := by
  unfold collectStep at h
  dsimp only at h
  split at h
  · split at h
    · cases h
      exact ⟨_, rfl, .vanished ‹_› ‹_›⟩
    · split at h
      · cases h
        exact ⟨_, rfl, .answered _ ‹_› ‹_› (.inl ‹_›)⟩
      · cases h
        exact ⟨_, rfl, .answered _ ‹_› ‹_› (.inr ‹_›)⟩
      · cases h
  · cases h

theorem callers_step (h : relayStep R s a = some t) :
    t.callers = s.callers ∨ ∃ j c, t.callers = setAt s.callers j c ∧
      CallerMove R s t (s.callers j) c := by
  cases a with
  | attempt j operationId op =>
    cases h
    exact .inr ⟨j, _, rfl, .started operationId op⟩
  | submit j id => exact .inr ⟨j, CallerMove.of_submit h⟩
  | locate j => exact .inr ⟨j, CallerMove.of_locate h⟩
  | collect j => exact .inr ⟨j, CallerMove.of_collect h⟩
  | giveUp j =>
    simp only [relayStep, giveUpStep] at h
    split at h <;> cases h
    exact .inr ⟨j, _, rfl, .gaveUp ‹_›⟩
  | tick | loseAck =>
    cases h
    exact .inl rfl
  | readAck n =>
    simp only [relayStep, readAckStep] at h
    split at h
    · split at h <;> cases h <;> exact .inl rfl
    · cases h
  | writeAck =>
    simp only [relayStep, writeAckStep] at h
    split at h <;> cases h
    exact .inl rfl
  | _ => exact .inl (agent_frame rfl h).1

theorem calls_step (h : relayStep R s a = some t) {c : AckCall}
    (hc : c ∈ t.calls) : (∃ c' ∈ s.calls, c'.ack = c.ack) ∨
      ∃ i d payload, s.agents i = .acknowledging d payload ∧ c.ack = ⟨d.id, d.leaseId, payload⟩ := by
  cases ha : a.quiet with
  | true => exact .inl ((quiet_step ha h).2 c hc)
  | false =>
    rcases (agent_frame ha h).2 with hsame | ⟨i, d, payload, hi, hcalls⟩
    · exact .inl ⟨c, hsame ▸ hc, rfl⟩
    · rw [hcalls] at hc
      rcases List.mem_append.mp hc with hc | hc
      · exact .inl ⟨c, hc, rfl⟩
      · rw [List.mem_singleton.mp hc]
        exact .inr ⟨i, d, payload, hi, rfl⟩

end

end Cadena.Connectors.Relay
