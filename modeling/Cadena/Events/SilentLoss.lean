import Cadena.Events.OneHandler

/-!
# No silent loss of a committed event

Until the outbox row is marked dispatched the event is redelivered. From
then on every consumer must have its own record: a dead letter, or a row
that is processed and that no dispatch can change any more. A dispatch
that leaves a consumer without such a record loses the event for it, and
the subscription swallows the error that made it leave.
-/

namespace Cadena.Events

open Cadena.Base ClaimRegister

variable {consumers : List ConsumerDefinition} {s t : EventState}

def DeadLettered (s : EventState) (consumer : String) : Prop :=
  (s.deadLetters consumer).isSome = true

/-- The consumer has a record that outlives every dispatch. -/
def Recorded (s : EventState) (consumer : String) : Prop :=
  DeadLettered s consumer ∨ Done (s.register consumer)

/-- The statement does not make the dispatch leave a consumer that has no
record: the claim, `markFailed` and `deadLetter` do not throw, and the
claim is not refused by a row that another dispatch has in hand or left
behind in `processing`. -/
def Leaves (s : EventState) (consumer : String) : DeliveryPhase → Option String → Prop
  | .claiming, none => claimable (s.consumptions consumer) = true ∨ Recorded s consumer
  | .claiming, some _ => Recorded s consumer
  | .markingFailed _, some _ => DeadLettered s consumer ∨ Processed s consumer
  | .deadLettering _, some _ => Recorded s consumer
  | _, _ => True

def KeepsEvent (s : EventState) : EventAction → Prop
  | .start _ => NoneClaimed s
  | .advance call error =>
    ∀ c phase rest, s.phase call = some (.delivering c phase rest) →
      Leaves s c.name phase error
  | _ => True

/-! ## Records last -/

theorem deadLettered_step {a : EventAction} (hstep : eventStep consumers s a = some t)
    {n : String} (h : DeadLettered s n) : DeadLettered t n := by
  have hset : ∀ (c : String) (row : Option DeadLetter),
      (c = n → row.isSome = true) → (setAt s.deadLetters c row n).isSome = true := by
    intro c row hrow
    by_cases hc : n = c
    · rw [hc, setAt_same]
      exact hrow hc.symm
    · rw [setAt_other _ _ hc]
      exact h
  cases a with
  | start =>
    simp only [eventStep] at hstep
    split at hstep <;> cases hstep
    exact h
  | stop =>
    cases hstep
    exact h
  | dispatch =>
    simp only [eventStep] at hstep
    split at hstep <;> cases hstep
    exact h
  | subscriberThrows =>
    simp only [eventStep] at hstep
    split at hstep <;> cases hstep <;> exact h
  | advance call error =>
    simp only [eventStep, advanceStep] at hstep
    split at hstep
    · cases hstep
    split at hstep
    · rename_i c phase rest _
      cases phase with
      | clearingDeadLetter attempt =>
        cases error with
        | some => cases hstep; exact h
        | none =>
          cases hstep
          refine hset c.name _ fun hc => ?_
          rw [hc, Option.isSome_map]
          exact h
      | deadLettering message =>
        cases error with
        | some => cases hstep; exact h
        | none => cases hstep; exact hset c.name _ fun _ => rfl
      | claiming =>
        cases error with
        | some => cases hstep; exact h
        | none =>
          simp only [deliverStep] at hstep
          split at hstep <;> cases hstep <;> exact h
      | ready => cases error <;> cases hstep; exact h
      | handling => cases error <;> cases hstep <;> exact h
      | markingProcessed => cases error <;> cases hstep <;> exact h
      | markingFailed => cases error <;> cases hstep <;> exact h
    · cases error <;> cases hstep <;> exact h
    · cases error <;> cases hstep <;> exact h

theorem Recorded.step {a : EventAction} {n : String}
    (hstep : eventStep consumers s a = some t) (h : Recorded s n) : Recorded t n := by
  rcases h with hdead | hdone
  · exact .inl (deadLettered_step hstep hdead)
  · rcases eventStep_moves hstep n with hmove | ⟨-, -, hreset⟩ | ⟨call, -, -, -, hresume⟩
    · exact .inr (hdone.move hmove)
    · exact absurd hreset hdone.not_reset
    · exact absurd hresume (hdone.not_resume call)

/-! ## Leaving a consumer -/

theorem done_of_left {call : Nat} {n : String} {phase : Option DispatchPhase}
    (hexcl : Exclusive (s.register n)) (hholds : (s.register n).holds call)
    (hsettled : (s.register n).slot = .settled) (hmoved : Moved s t call phase)
    (hrow : t.consumptions n = s.consumptions n)
    (hleft : phase.bind DispatchPhase.owns? ≠ some n) : Done (t.register n) := by
  refine ⟨by simpa only [EventState.register, hrow] using hsettled, fun j hj => ?_⟩
  have hself := hexcl.only hholds (hmoved.only n) j hj
  rw [hself] at hj
  simp only [EventState.register, hmoved.self] at hj
  exact hleft hj

theorem not_owns_next (rest : List ConsumerDefinition) (n : String) :
    (some (nextConsumer rest)).bind DispatchPhase.owns? ≠ some n := by
  cases rest <;> exact fun h => nomatch h

theorem deliverStep_leaves {call : Nat} {d : Dispatch} {c : ConsumerDefinition}
    {rest : List ConsumerDefinition} {phase : DeliveryPhase} {error : Option String}
    (hexcl : Exclusive (s.register c.name))
    (hphase : s.phase call = some (.delivering c phase rest))
    (hkeeps : Leaves s c.name phase error)
    (hstep : deliverStep s call d c rest phase error = some t)
    (hlasts : Recorded s c.name → Recorded t c.name)
    (hdead : DeadLettered s c.name → DeadLettered t c.name) :
    t.outbox = s.outbox ∧
      ((∃ phase', Moved s t call (some (.delivering c phase' rest))) ∨
        (Moved s t call (some (nextConsumer rest)) ∧ Recorded t c.name)) := by
  have hstays : ∀ {u : EventState} {phase' : DeliveryPhase}, u.dispatches = s.dispatches →
      Moved s (u.move call d (.delivering c phase' rest)) call
        (some (.delivering c phase' rest)) := fun hd =>
    moved_of (d := some { d with phase := .delivering c _ rest }) (by rw [EventState.move, hd])
  have hnext : ∀ {u : EventState}, u.dispatches = s.dispatches →
      Moved s (u.move call d (nextConsumer rest)) call (some (nextConsumer rest)) := fun hd =>
    moved_of (d := some { d with phase := nextConsumer rest }) (by rw [EventState.move, hd])
  cases phase with
  | claiming =>
    cases error with
    | some message =>
      cases hstep
      exact ⟨rfl, .inr ⟨hnext rfl, hlasts hkeeps⟩⟩
    | none =>
      simp only [deliverStep] at hstep
      split at hstep
      · cases hstep
        exact ⟨rfl, .inl ⟨_, hstays rfl⟩⟩
      · rename_i hrefused
        cases hstep
        rcases hkeeps with hclaim | hrecorded
        · exact absurd hclaim hrefused
        · exact ⟨rfl, .inr ⟨hnext rfl, hlasts hrecorded⟩⟩
  | ready => cases error <;> cases hstep; exact ⟨rfl, .inl ⟨_, hstays rfl⟩⟩
  | handling => cases error <;> cases hstep <;> exact ⟨rfl, .inl ⟨_, hstays rfl⟩⟩
  | markingProcessed => cases error <;> cases hstep <;> exact ⟨rfl, .inl ⟨_, hstays rfl⟩⟩
  | clearingDeadLetter attempt =>
    have hholds : (s.register c.name).holds call := by
      simp only [EventState.register, hphase, Option.bind_some]
      rfl
    cases error with
    | some message =>
      cases hstep
      exact ⟨rfl, .inl ⟨_, hstays rfl⟩⟩
    | none =>
      cases hstep
      -- the row was marked processed before
      have hsettled := hexcl.settled call (by
        simp only [EventState.register, hphase, Option.bind_some]
        rfl) hholds
      have hmoved := hnext (u := { s with
        deadLetters := setAt s.deadLetters c.name
          ((s.deadLetters c.name).map clearDeadLetter) }) rfl
      exact ⟨rfl, .inr ⟨hmoved, .inr (done_of_left hexcl hholds hsettled hmoved rfl
        (not_owns_next rest c.name))⟩⟩
  | markingFailed message =>
    have hholds : (s.register c.name).holds call := by
      simp only [EventState.register, hphase, Option.bind_some]
      rfl
    cases error with
    | none =>
      cases hstep
      exact ⟨rfl, .inl ⟨_, hstays rfl⟩⟩
    | some thrown =>
      cases hstep
      refine ⟨rfl, .inr ⟨hnext rfl, ?_⟩⟩
      rcases hkeeps with hletter | hprocessed
      · exact .inl (hdead hletter)
      · exact .inr (done_of_left hexcl hholds (settled_iff.mpr hprocessed) (hnext rfl) rfl
          (not_owns_next rest c.name))
  | deadLettering message =>
    cases error with
    | some thrown =>
      cases hstep
      exact ⟨rfl, .inr ⟨hnext rfl, hlasts hkeeps⟩⟩
    | none =>
      cases hstep
      refine ⟨rfl, .inr ⟨hnext rfl, .inl ?_⟩⟩
      simp only [DeadLettered, EventState.move, setAt_same, Option.isSome_some]

/-! ## The invariant -/

def Behind (s : EventState) (consumers : List ConsumerDefinition) : DispatchPhase → Prop
  | .delivering c _ rest =>
    ∃ visited, consumers = visited ++ c :: rest ∧ ∀ v ∈ visited, Recorded s v.name
  | .settling => ∀ v ∈ consumers, Recorded s v.name
  | .unsettled _ => True

structure EventInv (consumers : List ConsumerDefinition) (s : EventState) : Prop where
  exclusive : ∀ n, Exclusive (s.register n)
  behind : ∀ call phase, s.phase call = some phase → Behind s consumers phase
  dispatched : s.outbox.status = .dispatched → ∀ v ∈ consumers, Recorded s v.name

theorem eventInv_committed (consumers : List ConsumerDefinition) :
    EventInv consumers committed where
  exclusive _ := Exclusive.of_none fun _ h => nomatch h
  behind _ _ h := nomatch h
  dispatched h := nomatch h

theorem Behind.mono {phase : DispatchPhase} (hlasts : ∀ n, Recorded s n → Recorded t n)
    (h : Behind s consumers phase) : Behind t consumers phase := by
  cases phase with
  | delivering c phase rest =>
    obtain ⟨visited, hsplit, hrecorded⟩ := h
    exact ⟨visited, hsplit, fun v hv => hlasts _ (hrecorded v hv)⟩
  | settling => exact fun v hv => hlasts _ (h v hv)
  | unsettled => trivial

theorem behind_next {visited rest : List ConsumerDefinition}
    (hsplit : consumers = visited ++ rest) (hrecorded : ∀ v ∈ visited, Recorded s v.name) :
    Behind s consumers (nextConsumer rest) := by
  cases rest with
  | nil =>
    rw [List.append_nil] at hsplit
    intro v hv
    exact hrecorded v (hsplit ▸ hv)
  | cons c rest => exact ⟨visited, hsplit, hrecorded⟩

theorem EventInv.moved {call : Nat} {phase : Option DispatchPhase} (h : EventInv consumers s)
    (hexcl : ∀ n, Exclusive (t.register n)) (hlasts : ∀ n, Recorded s n → Recorded t n)
    (hmoved : Moved s t call phase) (hbehind : ∀ p, phase = some p → Behind t consumers p)
    (hdispatched : t.outbox.status = .dispatched → s.outbox.status = .dispatched ∨
      ∀ v ∈ consumers, Recorded s v.name) : EventInv consumers t where
  exclusive := hexcl
  behind j p hp := by
    by_cases hj : j = call
    · rw [hj, hmoved.self] at hp
      exact hbehind p hp
    · rw [hmoved.other j hj] at hp
      exact (h.behind j p hp).mono hlasts
  dispatched hd v hv := by
    rcases hdispatched hd with hwas | hall
    · exact hlasts _ (h.dispatched hwas v hv)
    · exact hlasts _ (hall v hv)

theorem EventInv.step {a : EventAction} (h : EventInv consumers s) (hkeeps : KeepsEvent s a)
    (hstep : eventStep consumers s a = some t) : EventInv consumers t := by
  have hstart : ∀ process, a = .start process → NoneClaimed s := by
    intro process ha
    rw [ha] at hkeeps
    exact hkeeps
  have hexcl : ∀ n, Exclusive (t.register n) := fun n =>
    exclusive_step hstart hstep (h.exclusive n)
  have hlasts : ∀ n, Recorded s n → Recorded t n := fun n hn => hn.step hstep
  have hdead : ∀ n, DeadLettered s n → DeadLettered t n := fun n =>
    deadLettered_step hstep
  cases a with
  | start process =>
    simp only [eventStep] at hstep
    split at hstep <;> cases hstep
    exact ⟨hexcl, fun j p hp => (h.behind j p hp).mono hlasts,
      fun hd v hv => hlasts _ (h.dispatched hd v hv)⟩
  | stop process =>
    cases hstep
    refine ⟨hexcl, fun j p hp => ?_, fun hd v hv => hlasts _ (h.dispatched hd v hv)⟩
    refine (h.behind j p ?_).mono hlasts
    simp only [EventState.phase, Option.map_eq_some_iff, Option.filter_eq_some_iff] at hp ⊢
    obtain ⟨d, ⟨hd, -⟩, hphase⟩ := hp
    exact ⟨d, hd, hphase⟩
  | dispatch call process =>
    simp only [eventStep] at hstep
    split at hstep <;> cases hstep
    refine h.moved hexcl hlasts
      (moved_of (d := some ⟨process, nextConsumer consumers⟩) rfl) (fun p hp => ?_) .inl
    obtain rfl := Option.some.inj hp
    exact behind_next (List.nil_append consumers).symm fun v hv => by cases hv
  | subscriberThrows call error =>
    simp only [eventStep] at hstep
    split at hstep <;> cases hstep
    · exact h.moved hexcl hlasts (moved_of (d := some ⟨_, .unsettled error⟩) rfl)
        (fun p hp => Option.some.inj hp ▸ trivial) .inl
    · exact h.moved hexcl hlasts (moved_of (d := some ⟨_, .unsettled error⟩) rfl)
        (fun p hp => Option.some.inj hp ▸ trivial) .inl
  | advance call error =>
    simp only [eventStep, advanceStep] at hstep
    split at hstep
    · cases hstep
    rename_i d hcall
    have hphase : s.phase call = some d.phase := by rw [EventState.phase, hcall]; rfl
    split at hstep
    · rename_i c phase rest hd
      rw [hd] at hphase
      obtain ⟨visited, hsplit, hrecorded⟩ := h.behind call _ hphase
      obtain ⟨houtbox, ⟨phase', hmoved⟩ | ⟨hmoved, hleft⟩⟩ :=
        deliverStep_leaves (h.exclusive c.name) hphase (hkeeps c phase rest hphase) hstep
          (hlasts c.name) (hdead c.name)
      · refine h.moved hexcl hlasts hmoved (fun p hp => ?_) (fun hd => .inl (houtbox ▸ hd))
        obtain rfl := Option.some.inj hp
        exact ⟨visited, hsplit, fun v hv => hlasts _ (hrecorded v hv)⟩
      · refine h.moved hexcl hlasts hmoved (fun p hp => ?_) (fun hd => .inl (houtbox ▸ hd))
        obtain rfl := Option.some.inj hp
        have hsplit' : consumers = (visited ++ [c]) ++ rest := by simp [hsplit]
        refine behind_next hsplit' fun v hv => ?_
        rcases List.mem_append.mp hv with hv | hv
        · exact hlasts _ (hrecorded v hv)
        · rw [List.mem_singleton.mp hv]
          exact hleft
    · rename_i hd
      rw [hd] at hphase
      have hall := h.behind call _ hphase
      cases error with
      | none =>
        cases hstep
        exact h.moved hexcl hlasts (moved_of (d := none) rfl) (fun p hp => by cases hp)
          (fun _ => .inr hall)
      | some message =>
        cases hstep
        exact h.moved hexcl hlasts
          (moved_of (d := some { d with phase := .unsettled message }) rfl)
          (fun p hp => Option.some.inj hp ▸ trivial) .inl
    · cases error with
      | none =>
        cases hstep
        exact h.moved hexcl hlasts (moved_of (d := none) rfl) (fun p hp => by cases hp)
          (by rintro ⟨⟩)
      | some message =>
        cases hstep
        exact h.moved hexcl hlasts (moved_of (d := none) rfl) (fun p hp => by cases hp) .inl

/-- **No silent loss of a committed event**, in every run whose steps meet
the condition: whichever statements throw and whenever processes stop and
start, each consumer has processed the event or has a dead letter for it, or
the outbox row is still pending. -/
theorem no_silent_loss (consumers : List ConsumerDefinition) (as : List EventAction)
    (s : EventState) (hkeeps : (delivery consumers).Along KeepsEvent committed as)
    (hrun : (delivery consumers).run committed as = some s) (c : ConsumerDefinition)
    (hc : c ∈ consumers) :
    Processed s c.name ∨ DeadLettered s c.name ∨ s.outbox.status = .pending := by
  have hinv : EventInv consumers s := (delivery consumers).along_invariant
    (P := EventInv consumers) (fun h hkeeps hstep => h.step hkeeps hstep)
    (eventInv_committed consumers) hkeeps hrun
  cases hstatus : s.outbox.status with
  | pending => exact .inr (.inr rfl)
  | dispatched =>
    rcases hinv.dispatched hstatus c hc with hdead | hdone
    · exact .inr (.inl hdead)
    · exact .inl (settled_iff.mp hdone.1)

/-- The handler fails three times; the event is dead-lettered and the row
marked dispatched. -/
def exhaustHandler : List EventAction :=
  [.start 0, .dispatch 0 0, .advance 0 none,
   .advance 0 none, .advance 0 (some "down"), .advance 0 none, .advance 0 (some "down"),
   .advance 0 none, .advance 0 (some "down"), .advance 0 none, .advance 0 none, .advance 0 none]

theorem no_silent_loss_exhausted :
    ∃ s, (delivery oneConsumer).run committed exhaustHandler = some s ∧
      s.outbox.status = .dispatched ∧
      (Processed s "connector-state-propagation" ∨
        DeadLettered s "connector-state-propagation" ∨ s.outbox.status = .pending) := by
  refine ⟨_, rfl, rfl, no_silent_loss oneConsumer exhaustHandler _ ?_ rfl
    ⟨"connector-state-propagation", 3⟩ (List.mem_singleton.mpr rfl)⟩
  have hhandler : ∀ {u : EventState} {error : Option String} {phase : DeliveryPhase},
      u.phase 0 = some (.delivering ⟨"connector-state-propagation", 3⟩ phase []) →
      Leaves u "connector-state-propagation" phase error →
      KeepsEvent u (.advance 0 error) := by
    intro u error phase hphase hleaves c phase' rest h
    rw [hphase] at h
    cases h
    exact hleaves
  refine System.along_cons _ rfl (fun n hheld => nomatch hheld) ?_
  refine System.along_cons _ rfl trivial (System.along_cons _ rfl (hhandler rfl (.inl rfl)) ?_)
  refine System.along_cons _ rfl (hhandler rfl trivial) ?_
  refine System.along_cons _ rfl (hhandler rfl trivial) ?_
  refine System.along_cons _ rfl (hhandler rfl trivial) ?_
  refine System.along_cons _ rfl (hhandler rfl trivial) ?_
  refine System.along_cons _ rfl (hhandler rfl trivial) ?_
  refine System.along_cons _ rfl (hhandler rfl trivial) ?_
  refine System.along_cons _ rfl (hhandler rfl trivial) ?_
  refine System.along_cons _ rfl (hhandler rfl trivial) ?_
  exact System.along_cons _ rfl (fun c phase rest h => nomatch h) trivial

/-- The claim throws: the dispatch goes on without the consumer and marks
the row dispatched, and nothing is left that would deliver the event. -/
theorem claim_error_loses_event :
    ∃ s, (delivery oneConsumer).run committed
        [.start 0, .dispatch 0 0, .advance 0 (some "connection terminated"),
         .advance 0 none] = some s ∧
      (∀ call, s.dispatches call = none) ∧
      ¬ Processed s "connector-state-propagation" ∧
      ¬ DeadLettered s "connector-state-propagation" ∧ s.outbox.status = .dispatched := by
  refine ⟨_, rfl, fun call => ?_, ?_, ?_, rfl⟩
  · by_cases hcall : call = 0
    · subst hcall
      rfl
    · simp [EventState.finish, EventState.move, setAt_other _ _ hcall, committed]
  · rintro ⟨attempts, h⟩
    cases h
  · rintro ⟨⟩

end Cadena.Events
