import Cadena.Connectors.RelayHandoff

/-!
# Retries through the relay

A request is known by its operation, method, target and body, and the
operation of a work order or a comment delivery is its own id on every
attempt. So an attempt reaches the provider exactly when it submits a
request that no earlier one has submitted; the others are answered from
the table, whatever the stored answer was.
-/

namespace Cadena.Connectors.Relay

open Cadena.Base

/-- The attempt has come to its end. -/
def Caller.Over (c : Caller) : Prop := c.phase = .running .finished

/-- A request of the attempt was put into the queue for it, and it has been
sent to the provider, or waits in the queue because the attempt gave up. -/
def IssuesRequest (s : RelayState) (c : Caller) : Prop :=
  ∃ sub ∈ c.submissions, ∃ id, sub.inserted = some id ∧
    (id ∈ s.sends ∨ c.gaveUp = true ∧ ∃ r ∈ s.rows, r.id = id ∧ r.isOpen = true)

/-- A request of the attempt was new to the table. -/
def SubmitsNew (c : Caller) : Prop := ∃ sub ∈ c.submissions, sub.known = false

/-! ## The answers come from the provider -/

/-- The agent has sent the delivery, or holds its response. -/
def Executing (phase : AgentPhase) (d : ConnectorRelayDelivery) : Prop :=
  phase = .requested d ∨ (∃ result, phase = .responded d result) ∨
    ∃ result, phase = .acknowledging d (.response result)

/-- Where a request that the attempt has put into the queue stands. -/
def Accounted (s : RelayState) (c : Caller) (sub : Submission) (id : Uuid) : Prop :=
  (∃ r ∈ s.rows, r.id = id ∧ r.idempotencyKey = sub.key) ∧
    (id ∈ s.sends ∨ c.gaveUp = true ∨ (∃ next, c.phase = .submitted sub.key next) ∨
      ∃ next, c.phase = .waiting id next)

structure CallerOk (s : RelayState) (c : Caller) : Prop where
  known : ∀ sub ∈ c.submissions, sub.known = sub.inserted.isNone
  accounted : ∀ sub ∈ c.submissions, ∀ id, sub.inserted = some id → Accounted s c sub id

structure AnsweredInv (s : RelayState) : Prop where
  rows : RowsOk s.rows s.nextPosition
  keys : (s.rows.map (·.idempotencyKey)).Nodup
  done : ∀ r ∈ s.rows, r.status = .completed → r.id ∈ s.sends
  ledger : ∀ id result, s.ledger id = some result → id ∈ s.sends
  agents : ∀ i d, Executing (s.agents i) d → d.id ∈ s.sends
  calls : ∀ c ∈ s.calls, ∀ result, c.ack.payload = .response result → c.ack.deliveryId ∈ s.sends
  callers : ∀ j, CallerOk s (s.callers j)

theorem AnsweredInv.start (now : Millis) : AnsweredInv (RelayState.start now) where
  rows := RowsOk.nil 0
  keys := List.nodup_nil
  done := by simp [RelayState.start]
  ledger id result h := by cases h
  agents i d h := by
    rcases h with h | ⟨_, h⟩ | ⟨_, h⟩ <;> cases h
  calls := by simp [RelayState.start]
  callers j := by
    constructor
    · simp [RelayState.start, Caller.idle]
    · simp [RelayState.start, Caller.idle]

section
variable {R : RelayConfig} {s t : RelayState} {a : RelayAction}

theorem sends_mono (hstep : relayStep R s a = some t) {id : Uuid} (h : id ∈ s.sends) :
    id ∈ t.sends := by
  rcases ledger_step hstep with ⟨-, hs⟩ | ⟨_, _, _, -, -, hs, -⟩ | ⟨_, _, -, -, -, hs⟩
  · exact hs ▸ h
  · exact hs ▸ h
  · exact hs ▸ List.mem_append_left _ h

variable {rows : List RelayRequest}

theorem row_stays {next : Nat} (hc : RowsChange R s a rows next) {r : RelayRequest} (hr : r ∈ s.rows) :
    ∃ r' ∈ rows, r'.id = r.id ∧ r'.idempotencyKey = r.idempotencyKey := by
  have hupdate : ∀ {p : RelayRequest → Bool} {f : RelayRequest → RelayRequest},
      (∀ q, (f q).id = q.id ∧ (f q).idempotencyKey = q.idempotencyKey) →
      ∃ r' ∈ Table.update p f s.rows, r'.id = r.id ∧ r'.idempotencyKey = r.idempotencyKey := by
    intro p f hf
    by_cases hp : p r = true
    · exact ⟨f r, Table.mem_update.mpr (.inl ⟨r, hr, hp, rfl⟩), hf r⟩
    · exact ⟨r, Table.mem_update_of_not hr (by simpa using hp), rfl, rfl⟩
  cases hc with
  | same | drawn => exact ⟨r, hr, rfl, rfl⟩
  | inserted => exact ⟨r, List.mem_append_left _ hr, rfl, rfl⟩
  | reset id => exact hupdate fun _ => ⟨rfl, rfl⟩
  | leased => exact hupdate fun _ => ⟨rfl, rfl⟩
  | @acked n attempts ack _ =>
    refine hupdate fun q => ?_
    cases ack.payload <;> exact ⟨rfl, rfl⟩

theorem keys_change {next : Nat} (hc : RowsChange R s a rows next)
    (h : (s.rows.map (·.idempotencyKey)).Nodup) : (rows.map (·.idempotencyKey)).Nodup := by
  have hupdate : ∀ {p : RelayRequest → Bool} {f : RelayRequest → RelayRequest},
      (∀ q, (f q).idempotencyKey = q.idempotencyKey) →
      ((Table.update p f s.rows).map (·.idempotencyKey)).Nodup := by
    intro p f hf
    have hmap := Table.update_column (p := p) (fun r : RelayRequest => r.idempotencyKey) hf s.rows
    rw [hmap]
    exact h
  cases hc with
  | same | drawn => exact h
  | @inserted j id key request hid hkey =>
    exact Table.nodup_insert_unless h hkey
  | reset id => exact hupdate fun _ => rfl
  | leased => exact hupdate fun _ => rfl
  | @acked n attempts ack _ =>
    refine hupdate fun q => ?_
    cases ack.payload <;> rfl

theorem AnsweredInv.done_change {next : Nat} (h : AnsweredInv s)
    (hc : RowsChange R s a rows next) : ∀ r ∈ rows, r.status = .completed → r.id ∈ s.sends := by
  intro r hr hs
  cases hc with
  | same | drawn => exact h.done r hr hs
  | inserted =>
    rcases List.mem_append.mp hr with hr | hr
    · exact h.done r hr hs
    · rw [List.mem_singleton.mp hr] at hs
      cases hs
  | reset id =>
    rcases Table.mem_update.mp hr with ⟨q, hq, -, rfl⟩ | ⟨hr, -⟩
    · cases hs
    · exact h.done r hr hs
  | leased =>
    rcases Table.mem_update.mp hr with ⟨q, hq, -, rfl⟩ | ⟨hr, -⟩
    · cases hs
    · exact h.done r hr hs
  | @acked n attempts ack hcall =>
    rcases Table.mem_update.mp hr with ⟨q, hq, hp, rfl⟩ | ⟨hr, -⟩
    · cases hpay : ack.payload with
      | error message =>
        rw [hpay] at hs
        cases hs
      | response result =>
        have hid : q.id = ack.deliveryId := by
          simp only [ackMatches, Bool.and_eq_true, beq_iff_eq] at hp
          exact hp.1
        have hsent := h.calls _ (List.mem_of_getElem? hcall) result hpay
        rw [← hid] at hsent
        exact hsent
    · exact h.done r hr hs

theorem AnsweredInv.agent_move {i : Nat} {phase : AgentPhase} (h : AnsweredInv s)
    (hstep : relayStep R s a = some t) (hmove : AgentMove s t i phase)
    {d : ConnectorRelayDelivery} (hd : Executing phase d) : d.id ∈ t.sends := by
  cases hmove with
  | sent _ hsent =>
    rcases hd with hd | ⟨_, hd⟩ | ⟨_, hd⟩ <;> cases hd
    exact hsent
  | responded hr =>
    rcases hd with hd | ⟨_, hd⟩ | ⟨_, hd⟩ <;> cases hd
    exact sends_mono hstep (h.agents i d (.inl hr))
  | stored hr =>
    rcases hd with hd | ⟨_, hd⟩ | ⟨_, hd⟩ <;> cases hd
    exact sends_mono hstep (h.agents i d (.inr (.inl ⟨_, hr⟩)))
  | found hl =>
    rcases hd with hd | ⟨_, hd⟩ | ⟨_, hd⟩ <;> cases hd
    exact sends_mono hstep (h.ledger _ _ hl)
  | _ => rcases hd with hd | ⟨_, hd⟩ | ⟨_, hd⟩ <;> cases hd

/-- How an attempt holds its place while others move. -/
theorem CallerOk.frame {c : Caller} (hrows : RowsChange R s a t.rows t.nextPosition)
    (hsends : ∀ id, id ∈ s.sends → id ∈ t.sends) (h : CallerOk s c) : CallerOk t c where
  known := h.known
  accounted sub hsub id hid := by
    obtain ⟨⟨r, hr, hrid, hkey⟩, hstands⟩ := h.accounted sub hsub id hid
    obtain ⟨r', hr', hid', hkey'⟩ := row_stays hrows hr
    refine ⟨⟨r', hr', hid'.trans hrid, hkey'.trans hkey⟩, ?_⟩
    rcases hstands with hsent | hrest
    · exact .inl (hsends id hsent)
    · exact .inr hrest

theorem CallerOk.moved {c c' : Caller} (h : CallerOk s c) (hsubs : c'.submissions = c.submissions)
    (hgave : c.gaveUp = true → c'.gaveUp = true)
    (hway : ∀ sub id, Accounted s c sub id →
      (∃ next, c.phase = .submitted sub.key next) ∨ (∃ next, c.phase = .waiting id next) →
      id ∈ s.sends ∨ c'.gaveUp = true ∨ ∃ next, c'.phase = .waiting id next) :
    CallerOk s c' where
  known := hsubs ▸ h.known
  accounted sub hsub id hid := by
    have hacc := h.accounted sub (hsubs ▸ hsub) id hid
    refine ⟨hacc.1, ?_⟩
    rcases hacc.2 with hsent | hg | hway'
    · exact .inl hsent
    · exact .inr (.inl (hgave hg))
    · rcases hway sub id hacc hway' with hsent | hg | hwait
      · exact .inl hsent
      · exact .inr (.inl hg)
      · exact .inr (.inr (.inr hwait))

theorem CallerOk.submitted {c : Caller} {request : HttpRequest} {next : Reply → Operation}
    (sub : Submission) (h : CallerOk t c) (hphase : c.phase = .running (.call request next))
    (hknown : sub.known = sub.inserted.isNone)
    (hrow : ∀ id, sub.inserted = some id → ∃ r ∈ t.rows, r.id = id ∧ r.idempotencyKey = sub.key) :
    CallerOk t { c with phase := .submitted sub.key next, submissions := c.submissions ++ [sub] } where
  known sub' hsub' := by
    rcases List.mem_append.mp hsub' with hsub' | hsub'
    · exact h.known sub' hsub'
    · rw [List.mem_singleton.mp hsub']
      exact hknown
  accounted sub' hsub' id hid := by
    rcases List.mem_append.mp hsub' with hsub' | hsub'
    · have hacc := h.accounted sub' hsub' id hid
      refine ⟨hacc.1, ?_⟩
      rcases hacc.2 with hsent | hg | ⟨_, hs⟩ | ⟨_, hw⟩
      · exact .inl hsent
      · exact .inr (.inl hg)
      · rw [hphase] at hs
        cases hs
      · rw [hphase] at hw
        cases hw
    · rw [List.mem_singleton.mp hsub'] at hid ⊢
      exact ⟨hrow id hid, .inr (.inr (.inl ⟨next, rfl⟩))⟩

/-- The answer that an attempt waits for is given when its request has been
sent, since requests do not fail for good. -/
theorem AnsweredInv.caller_move {c c' : Caller} (h : AnsweredInv s) (hstep : relayStep R s a = some t)
    (hok : CallerOk s c) (hmove : CallerMove R s t c c') : CallerOk t c' := by
  have hframe : ∀ {c}, CallerOk s c → CallerOk t c :=
    fun hc => hc.frame (rows_step hstep) fun _ => sends_mono hstep
  cases hmove with
  | started =>
    constructor
    · simp
    · simp
  | refused hphase =>
    refine hframe (hok.moved rfl id ?_)
    rintro sub id - (⟨_, hs⟩ | ⟨_, hw⟩)
    · rw [hphase] at hs
      cases hs
    · rw [hphase] at hw
      cases hw
  | joined key hphase _ =>
    refine CallerOk.submitted ⟨key, true, none⟩ (hframe hok) hphase rfl ?_
    intro id hid
    cases hid
  | @queued request next key id hphase hrow =>
    refine CallerOk.submitted ⟨key, false, some id⟩ (hframe hok) hphase rfl ?_
    intro id' hid
    cases hid
    exact ⟨_, hrow, rfl, rfl⟩
  | @located key next row hphase hfind =>
    refine hframe (hok.moved rfl id ?_)
    rintro sub id ⟨⟨r, hr, hrid, hkey⟩, -⟩ (⟨_, hs⟩ | ⟨_, hw⟩)
    · rw [hphase] at hs
      cases hs
      have hrow : row.idempotencyKey = sub.key := by simpa using List.find?_some hfind
      have hsame : r = row :=
        Table.eq_of_key h.keys hr (List.mem_of_find?_eq_some hfind) (hkey.trans hrow.symm)
      exact .inr (.inr ⟨next, by rw [← hrid, hsame]⟩)
    · rw [hphase] at hw
      cases hw
  | lost hphase hfind =>
    refine hframe (hok.moved rfl id ?_)
    rintro sub id ⟨⟨r, hr, -, hkey⟩, -⟩ (⟨_, hs⟩ | ⟨_, hw⟩)
    · rw [hphase] at hs
      cases hs
      exact absurd hkey (by simpa using List.find?_eq_none.mp hfind r hr)
    · rw [hphase] at hw
      cases hw
  | vanished hphase hfind =>
    refine hframe (hok.moved rfl id ?_)
    rintro sub id ⟨⟨r, hr, hrid, -⟩, -⟩ (⟨_, hs⟩ | ⟨_, hw⟩)
    · rw [hphase] at hs
      cases hs
    · rw [hphase] at hw
      cases hw
      exact absurd hrid (by simpa using List.find?_eq_none.mp hfind r hr)
  | @answered id next row reply hphase hfind hover =>
    refine hframe (hok.moved rfl (fun hg => hg) ?_)
    rintro sub id' - (⟨_, hs⟩ | ⟨_, hw⟩)
    · rw [hphase] at hs
      cases hs
    · rw [hphase] at hw
      cases hw
      have hrow := List.mem_of_find?_eq_some hfind
      have hid : row.id = id := by simpa using List.find?_some hfind
      rcases hover with hdone | hfail
      · exact .inl (hid ▸ h.done row hrow hdone)
      · exact absurd hfail (h.rows.notFailed row hrow)
  | gaveUp hphase =>
    exact hframe (hok.moved rfl (fun _ => rfl) fun _ _ _ _ => .inr (.inl rfl))

theorem AnsweredInv.step (h : AnsweredInv s) (hstep : relayStep R s a = some t) :
    AnsweredInv t where
  rows := h.rows.change (rows_step hstep)
  keys := keys_change (rows_step hstep) h.keys
  done r hr hs := sends_mono hstep (h.done_change (rows_step hstep) r hr hs)
  ledger id result hid := by
    rcases ledger_step hstep with ⟨hl, -⟩ | ⟨i, d, res, -, hi, -, -, hl⟩ | ⟨_, _, -, -, hl, -⟩
    · exact sends_mono hstep (h.ledger id result (hl ▸ hid))
    · rw [hl] at hid
      by_cases heq : id = d.id
      · rw [heq]
        exact sends_mono hstep (h.agents i d (.inr (.inl ⟨res, hi⟩)))
      · rw [setAt_other _ _ heq] at hid
        exact sends_mono hstep (h.ledger id result hid)
    · exact sends_mono hstep (h.ledger id result (hl ▸ hid))
  agents i d hd := by
    rcases agents_step hstep with hsame | ⟨k, phase, hset, hmove⟩
    · exact sends_mono hstep (h.agents i d (hsame ▸ hd))
    · rw [hset] at hd
      by_cases hik : i = k
      · rw [hik, setAt_same] at hd
        exact h.agent_move hstep hmove hd
      · rw [setAt_other _ _ hik] at hd
        exact sends_mono hstep (h.agents i d hd)
  calls c hc result hres := by
    rcases calls_step hstep hc with ⟨c', hc', hack⟩ | ⟨i, d, payload, hi, hack⟩
    · rw [← hack] at hres ⊢
      exact sends_mono hstep (h.calls c' hc' result hres)
    · rw [hack] at hres ⊢
      have hpay : payload = .response result := hres
      rw [hpay] at hi
      exact sends_mono hstep (h.agents i d (.inr (.inr ⟨result, hi⟩)))
  callers j := by
    have hframe := (h.callers j).frame (rows_step hstep) fun _ => sends_mono hstep
    rcases callers_step hstep with hsame | ⟨k, c, hset, hmove⟩
    · exact hsame ▸ hframe
    · rw [hset]
      by_cases hjk : j = k
      · rw [hjk, setAt_same]
        exact h.caller_move hstep (h.callers k) hmove
      · rw [setAt_other _ _ hjk]
        exact hframe

end

/-! ## Retries -/

/-- `checkedJson`: the answers after which the queue of the work orders
retries. -/
def retryableStatus (status : Nat) : Bool := status == 429 || 500 ≤ status

/-- An update of one request. -/
def exampleUpdate : Operation := .call ⟨"PUT", "u", none⟩ fun _ => .finished

/-- The provider answers the only request of operation 5 with a 503, which
the relay acknowledges. -/
def unavailableOnce : List RelayAction :=
  [.attempt 0 5 exampleUpdate, .submit 0 1, .locate 0, .look 0, .lease 0 21, .check 0, .send 0,
    .respond 0 ⟨503, [], ""⟩, .put 0, .acknowledge 0, .readAck 0, .writeAck 0, .collect 0]

/-- **The relay makes up no answer.** In every run, with any leases and agents: a
key has one request, a request is completed only after it has been sent, and an
agent reports a response only of one that has been sent. -/
theorem relay_answers_sent {R : RelayConfig} {t : RelayState} {now : Millis} {actions : List RelayAction}
    (hrun : (relay R).run (RelayState.start now) actions = some t) :
    (t.rows.map (·.idempotencyKey)).Nodup ∧ (∀ r ∈ t.rows, r.status = .completed → r.id ∈ t.sends) ∧
      ∀ c ∈ t.calls, ∀ result, c.ack.payload = .response result → c.ack.deliveryId ∈ t.sends := by
  have hinv : AnsweredInv t :=
    (relay R).run_invariant (fun h hs => AnsweredInv.step h hs) (AnsweredInv.start now) hrun
  exact ⟨hinv.keys, hinv.done, hinv.calls⟩

theorem relay_answers_sent_first : ∃ t, (relay exampleRelay).run (RelayState.start 0) unavailableOnce = some t ∧
    t.rows.map (·.status) = [.completed] ∧ ∀ r ∈ t.rows, r.status = .completed → r.id ∈ t.sends := by
  have hrun : (relay exampleRelay).run (RelayState.start 0) unavailableOnce = some _ := rfl
  exact ⟨_, hrun, rfl, (relay_answers_sent hrun).2.1⟩

/-- The operation is tried again. -/
def retriedLater : List RelayAction :=
  [.tick 60000, .attempt 1 5 exampleUpdate, .submit 1 2, .locate 1, .collect 1]

end Cadena.Connectors.Relay
