import Cadena.Events.Delivery

/-!
# One handler run at a time

The row of a consumer is a slot that the dispatches claim: every step of
the delivery is a move of that slot. So what holds of slots in general
holds here, as long as no process starts while another one is between its
claim and its outcome: `onModuleInit` resets the claims of every process.
-/

namespace Cadena.Events

open Cadena.Base ClaimRegister

variable {consumers : List ConsumerDefinition} {s t : EventState}

/-! ## Every step is a move -/

structure Moved (s t : EventState) (call : Nat) (phase : Option DispatchPhase) : Prop where
  other : ∀ j, j ≠ call → t.phase j = s.phase j
  self : t.phase call = phase

variable {call : Nat} {n : String} {rest : List ConsumerDefinition} {c : ConsumerDefinition} {a : EventAction}

theorem moved_of {d : Option Dispatch} (hdispatches : t.dispatches = setAt s.dispatches call d) :
    Moved s t call (d.map (·.phase)) where
  other j hj := by rw [EventState.phase, hdispatches, setAt_other _ _ hj, EventState.phase]
  self := by rw [EventState.phase, hdispatches, setAt_same]

theorem Moved.only {phase : Option DispatchPhase} (h : Moved s t call phase)
    (n : String) : Only (s.register n) (t.register n) call where
  holds j hj := by simp only [EventState.register, h.other j hj]
  finishing j hj := by simp only [EventState.register, h.other j hj]

/-- The phase gives up what it owns or keeps it as it is. -/
def Lowers (before after : Option DispatchPhase) (n : String) : Prop :=
  after.bind DispatchPhase.owns? = some n →
    before.bind DispatchPhase.owns? = some n ∧
      (after.bind DispatchPhase.clears? = some n ↔ before.bind DispatchPhase.clears? = some n)

theorem Moved.keep {phase : Option DispatchPhase} (h : Moved s t call phase)
    (hrow : t.consumptions n = s.consumptions n)
    (hlowers : Lowers (s.phase call) phase n) : Move (s.register n) (t.register n) := by
  refine .keep (by simp only [EventState.register, hrow]) ⟨fun j hj => ?_, fun j hj => ?_⟩
  · by_cases hcall : j = call
    · subst hcall
      simp only [EventState.register, h.self] at hj
      exact (hlowers hj).1
    · exact ((h.only n).holds j hcall).mp hj
  · by_cases hcall : j = call
    · subst hcall
      simp only [EventState.register, h.self] at hj ⊢
      exact (hlowers hj).2
    · exact (h.only n).finishing j hcall

theorem lowers_next (before : Option DispatchPhase) (rest : List ConsumerDefinition)
    (n : String) : Lowers before (some (nextConsumer rest)) n := by
  intro h
  cases rest <;> cases h

theorem lowers_works {phase phase' : DeliveryPhase} (n : String)
    (howns : (DispatchPhase.delivering c phase rest).owns? = some c.name)
    (hclears : (DispatchPhase.delivering c phase rest).clears? = none)
    (hclears' : (DispatchPhase.delivering c phase' rest).clears? = none)
    (howns' : (DispatchPhase.delivering c phase' rest).owns? = some c.name) :
    Lowers (some (.delivering c phase rest)) (some (.delivering c phase' rest)) n := by
  intro h
  simp only [Option.bind_some, howns, howns', hclears, hclears'] at h ⊢
  exact ⟨h, trivial⟩

theorem owns_attemptFrom (c : ConsumerDefinition) (attempt : Nat) (error : String)
    (rest : List ConsumerDefinition) :
    (DispatchPhase.delivering c (attemptFrom c attempt error) rest).owns? = some c.name ∧
      (DispatchPhase.delivering c (attemptFrom c attempt error) rest).clears? = none := by
  unfold attemptFrom
  split <;> exact ⟨rfl, rfl⟩

theorem Moved.elsewhere {phase : DeliveryPhase} (h : Moved s t call (some (.delivering c phase rest)))
    (hn : n ≠ c.name) (hrow : t.consumptions n = s.consumptions n) :
    Move (s.register n) (t.register n) := by
  refine h.keep hrow fun howns => ?_
  have hname : c.name = n := by
    revert howns
    simp only [Option.bind_some, DispatchPhase.owns?]
    split
    · exact fun h => nomatch h
    · exact fun h => nomatch h
    · exact fun h => Option.some.inj h
  exact absurd hname.symm hn

theorem deliverStep_moves {d : Dispatch} {phase : DeliveryPhase} {error : Option String}
    (hphase : s.phase call = some (.delivering c phase rest))
    (hstep : deliverStep s call d c rest phase error = some t) (n : String) :
    Move (s.register n) (t.register n) ∨
      (error.isSome = true ∧ (s.phase call).bind DispatchPhase.clears? = some n ∧
        Resume (s.register n) (t.register n) call) := by
  -- the dispatch goes on to the next consumer, and the row stays
  have hnext : ∀ {u : EventState}, u.dispatches = s.dispatches →
      u.consumptions = s.consumptions → some (u.move call d (nextConsumer rest)) = some t →
      Move (s.register n) (t.register n) := by
    intro u hd hc ht
    cases ht
    have hmoved : Moved s (u.move call d (nextConsumer rest)) call (some (nextConsumer rest)) :=
      moved_of (d := some { d with phase := nextConsumer rest })
        (by rw [EventState.move, hd])
    exact hmoved.keep (by rw [EventState.move, hc]) (lowers_next _ rest n)
  -- the dispatch stays at work on the row
  have hworks : ∀ {phase' : DeliveryPhase},
      (DispatchPhase.delivering c phase rest).owns? = some c.name →
      (DispatchPhase.delivering c phase rest).clears? = none →
      (DispatchPhase.delivering c phase' rest).owns? = some c.name →
      (DispatchPhase.delivering c phase' rest).clears? = none →
      some (s.move call d (.delivering c phase' rest)) = some t →
      Move (s.register n) (t.register n) := by
    intro phase' howns hclears howns' hclears' ht
    cases ht
    have hmoved := moved_of (s := s) (t := s.move call d (.delivering c phase' rest))
      (d := some { d with phase := .delivering c phase' rest }) rfl
    refine hmoved.keep rfl ?_
    rw [hphase]
    exact lowers_works n howns hclears hclears' howns'
  -- the dispatch writes the row
  have hwrites : ∀ {phase' : DeliveryPhase} {row : Consumption},
      some ((s.consume c.name row).move call d (.delivering c phase' rest)) = some t →
      Moved s t call (some (.delivering c phase' rest)) ∧
        t.consumptions c.name = some row ∧
        (n ≠ c.name → t.consumptions n = s.consumptions n) := by
    intro phase' row ht
    cases ht
    refine ⟨moved_of (d := some { d with phase := .delivering c phase' rest }) rfl, ?_, ?_⟩
    · simp only [EventState.move, EventState.consume, setAt_same]
    · exact fun hn => setAt_other _ _ hn
  have hattempt := owns_attemptFrom c
  cases phase with
  | claiming =>
    cases error with
    | some message => exact .inl (hnext rfl rfl hstep)
    | none =>
      simp only [deliverStep] at hstep
      split at hstep
      · rename_i hclaimable
        obtain ⟨hmoved, hrow, hother⟩ := hwrites hstep
        by_cases hn : n = c.name
        · subst hn
          refine .inl (.claim call ?_ ?_ (hmoved.only _) ⟨?_, ?_⟩)
          · simp only [EventState.register, slotOf]
            revert hclaimable
            cases s.consumptions c.name with
            | none => exact fun _ => rfl
            | some row =>
              obtain ⟨status, attempts⟩ := row
              cases status <;> simp [claimable]
          · simp only [EventState.register, hrow, slotOf, claimedRow]
            cases s.consumptions c.name <;> rfl
          · simp only [EventState.register, hmoved.self, Option.bind_some]
            exact (hattempt 1 "" rest).1
          · simp only [EventState.register, hmoved.self, Option.bind_some]
            rw [(hattempt 1 "" rest).2]
            exact fun h => nomatch h
        · exact .inl (hmoved.elsewhere hn (hother hn))
      · exact .inl (hnext rfl rfl hstep)
  | ready attempt =>
    cases error with
    | some message => cases hstep
    | none => exact .inl (hworks rfl rfl rfl rfl hstep)
  | handling attempt =>
    cases error with
    | some message => exact .inl (hworks rfl rfl (hattempt _ _ _).1 (hattempt _ _ _).2 hstep)
    | none => exact .inl (hworks rfl rfl rfl rfl hstep)
  | markingProcessed attempt =>
    cases error with
    | some message => exact .inl (hworks rfl rfl (hattempt _ _ _).1 (hattempt _ _ _).2 hstep)
    | none =>
      obtain ⟨hmoved, hrow, hother⟩ := hwrites hstep
      by_cases hn : n = c.name
      · subst hn
        refine .inl (.settle call ⟨?_, ?_⟩ ?_ (hmoved.only _) ?_)
        · simp only [EventState.register, hphase, Option.bind_some]
          rfl
        · simp only [EventState.register, hphase, Option.bind_some]
          exact fun h => nomatch h
        · simp only [EventState.register, hrow, slotOf]
        · simp only [EventState.register, hmoved.self, Option.bind_some]
          rfl
      · exact .inl (hmoved.elsewhere hn (hother hn))
  | clearingDeadLetter attempt =>
    cases error with
    | none =>
      exact .inl (hnext (u := { s with
        deadLetters := setAt s.deadLetters c.name
          ((s.deadLetters c.name).map clearDeadLetter) }) rfl rfl hstep)
    | some message =>
      cases hstep
      have hmoved := moved_of (s := s)
        (t := s.move call d (.delivering c (attemptFrom c (attempt + 1) message) rest))
        (d := some
          { d with phase := .delivering c (attemptFrom c (attempt + 1) message) rest }) rfl
      by_cases hn : n = c.name
      · subst hn
        refine .inr ⟨rfl, ?_, ?_, rfl, hmoved.only _, ?_, ?_⟩
        · simp only [hphase, Option.bind_some]
          rfl
        · simp only [EventState.register, hphase, Option.bind_some]
          rfl
        · simp only [EventState.register, hmoved.self, Option.map_some, Option.bind_some]
          exact (hattempt _ _ _).1
        · simp only [EventState.register, hmoved.self, Option.map_some, Option.bind_some]
          rw [(hattempt _ _ _).2]
          exact fun h => nomatch h
      · exact .inl (hmoved.elsewhere hn rfl)
  | markingFailed message =>
    cases error with
    | some message => exact .inl (hnext rfl rfl hstep)
    | none =>
      obtain ⟨hmoved, hrow, hother⟩ := hwrites hstep
      by_cases hn : n = c.name
      · subst hn
        refine .inl (.release call ⟨?_, ?_⟩ ?_ (hmoved.only _) ?_)
        · simp only [EventState.register, hphase, Option.bind_some]
          rfl
        · simp only [EventState.register, hphase, Option.bind_some]
          exact fun h => nomatch h
        · simp only [EventState.register, hrow, slotOf]
        · simp only [EventState.register, hmoved.self, Option.bind_some]
          exact fun h => nomatch h
      · exact .inl (hmoved.elsewhere hn (hother hn))
  | deadLettering message =>
    cases error with
    | none =>
      exact .inl (hnext (u := { s with
        deadLetters := setAt s.deadLetters c.name (some ⟨.dead, c.maxAttempts, message⟩) })
        rfl rfl hstep)
    | some message => exact .inl (hnext rfl rfl hstep)

/-- Every step is a move of every slot, but for a start, which may reset
it, and a `clearDeadLetter` that throws, after which the handler runs
again. -/
theorem eventStep_moves (hstep : eventStep consumers s a = some t) (n : String) :
    Move (s.register n) (t.register n) ∨
      (∃ process, a = .start process ∧ Reset (s.register n) (t.register n)) ∨
      ∃ call error, a = .advance call (some error) ∧
        (s.phase call).bind DispatchPhase.clears? = some n ∧
        Resume (s.register n) (t.register n) call := by
  cases a with
  | start process =>
    simp only [eventStep] at hstep
    split at hstep <;> cases hstep
    by_cases hheld : (s.register n).slot = .held
    · refine .inr (.inl ⟨process, rfl, hheld, ?_, fun _ hj => hj, fun _ _ => Iff.rfl⟩)
      revert hheld
      simp only [EventState.register]
      cases s.consumptions n with
      | none => exact fun h => nomatch h
      | some row =>
        obtain ⟨status, attempts⟩ := row
        cases status <;> simp [slotOf]
    · refine .inl (.keep ?_ ⟨fun _ hj => hj, fun _ _ => Iff.rfl⟩)
      revert hheld
      simp only [EventState.register]
      cases s.consumptions n with
      | none => exact fun _ => rfl
      | some row =>
        obtain ⟨status, attempts⟩ := row
        cases status <;> simp [slotOf]
  | stop process =>
    cases hstep
    -- a dispatch either stays as it is or is gone
    have hphase : ∀ j, (EventState.phase { s with
        running := setAt s.running process false
        dispatches := fun call =>
          (s.dispatches call).filter fun d => d.process != process } j) = s.phase j ∨
        (EventState.phase { s with
          running := setAt s.running process false
          dispatches := fun call =>
            (s.dispatches call).filter fun d => d.process != process } j) = none := by
      intro j
      simp only [EventState.phase]
      cases s.dispatches j with
      | none => exact .inl rfl
      | some d =>
        by_cases hd : (d.process != process) = true
        · exact .inl (by simp [Option.filter, hd])
        · exact .inr (by simp [Option.filter, hd])
    refine .inl (.keep rfl ⟨fun j hj => ?_, fun j hj => ?_⟩)
    · rcases hphase j with hsame | hgone
      · simpa only [EventState.register, hsame] using hj
      · simp only [EventState.register, hgone] at hj
        cases hj
    · rcases hphase j with hsame | hgone
      · simp only [EventState.register, hsame]
      · simp only [EventState.register, hgone] at hj
        cases hj
  | dispatch call process =>
    simp only [eventStep] at hstep
    split at hstep <;> cases hstep
    exact .inl ((moved_of (d := some ⟨process, nextConsumer consumers⟩) rfl).keep rfl
      (lowers_next _ consumers n))
  | advance call error =>
    simp only [eventStep, advanceStep] at hstep
    split at hstep
    · cases hstep
    rename_i d hcall
    have hphase : s.phase call = some d.phase := by rw [EventState.phase, hcall]; rfl
    split at hstep
    · rename_i c phase rest hd
      rw [hd] at hphase
      rcases deliverStep_moves hphase hstep n with hmove | ⟨herror, hclears, hresume⟩
      · exact .inl hmove
      · obtain ⟨message, rfl⟩ := Option.isSome_iff_exists.mp herror
        exact .inr (.inr ⟨call, message, rfl, hclears, hresume⟩)
    · cases error with
      | none =>
        cases hstep
        exact .inl ((moved_of (d := none) rfl).keep rfl fun h => nomatch h)
      | some message =>
        cases hstep
        exact .inl ((moved_of (d := some { d with phase := .unsettled message }) rfl).keep
          rfl fun h => nomatch h)
    · cases error with
      | none =>
        cases hstep
        exact .inl ((moved_of (d := none) rfl).keep rfl fun h => nomatch h)
      | some message =>
        cases hstep
        exact .inl ((moved_of (d := none) rfl).keep rfl fun h => nomatch h)
  | subscriberThrows call error =>
    simp only [eventStep] at hstep
    split at hstep <;> cases hstep
    · exact .inl ((moved_of (d := some ⟨_, .unsettled error⟩) rfl).keep rfl
        fun h => nomatch h)
    · exact .inl ((moved_of (d := some ⟨_, .unsettled error⟩) rfl).keep rfl
        fun h => nomatch h)

/-! ## Runs -/

/-- No dispatch is between its claim and its outcome. -/
def NoneClaimed (s : EventState) : Prop :=
  ∀ n, (s.register n).slot = .held → ∀ i, ¬ (s.register n).holds i

/-- A process starts only when no dispatch is between its claim and its
outcome, and the statement behind `markProcessed` does not throw. -/
def RunsOnce (s : EventState) : EventAction → Prop
  | .start _ => NoneClaimed s
  | .advance call (some _) => ∀ n, (s.phase call).bind DispatchPhase.clears? ≠ some n
  | _ => True

theorem exclusive_step (hstart : ∀ process, a = .start process → NoneClaimed s)
    (hstep : eventStep consumers s a = some t) (h : Exclusive (s.register n)) :
    Exclusive (t.register n) := by
  rcases eventStep_moves hstep n with hmove | ⟨process, ha, hreset⟩ | ⟨call, _, -, -, hresume⟩
  · exact h.move hmove
  · exact Exclusive.reset hreset (hstart process ha n hreset.held)
  · exact h.resume hresume

/-- What the condition keeps of every consumer's row. -/
def Disciplined (s : EventState) : Prop :=
  ∀ n, Exclusive (s.register n) ∧ Honest (s.register n)

theorem disciplined_committed : Disciplined committed := by
  intro n
  exact ⟨Exclusive.of_none fun _ h => (nomatch h), fun _ h => (nomatch h.1)⟩

theorem Disciplined.step (h : Disciplined s) (honce : RunsOnce s a)
    (hstep : eventStep consumers s a = some t) : Disciplined t := by
  intro n
  have hstart : ∀ process, a = .start process → NoneClaimed s := by
    intro process ha
    rw [ha] at honce
    exact honce
  refine ⟨exclusive_step hstart hstep (h n).1, ?_⟩
  rcases eventStep_moves hstep n with hmove | ⟨process, ha, hreset⟩ |
    ⟨call, error, ha, hclears, -⟩
  · exact (h n).2.move (h n).1 hmove
  · exact Honest.reset hreset (hstart process ha n hreset.held)
  · rw [ha] at honce
    exact absurd hclears (honce n)

theorem Disciplined.processed_step (h : Disciplined s)
    (honce : RunsOnce s a) (hstep : eventStep consumers s a = some t)
    (hsettled : (s.register n).slot = .settled) : (t.register n).slot = .settled := by
  rcases eventStep_moves hstep n with hmove | ⟨-, -, hreset⟩ | ⟨call, error, ha, hclears, -⟩
  · exact (h n).2.settled_move hmove hsettled
  · have hheld := hreset.held
    rw [hsettled] at hheld
    cases hheld
  · rw [ha] at honce
    exact absurd hclears (honce n)

/-- The dispatch is executing the handler of the consumer. -/
def Handling (s : EventState) (call : Nat) (consumer : String) : Prop :=
  ∃ c attempt rest, c.name = consumer ∧
    s.phase call = some (.delivering c (.handling attempt) rest)

def Processed (s : EventState) (consumer : String) : Prop :=
  ∃ attempts, s.consumptions consumer = some ⟨.processed, attempts⟩

theorem Handling.working (h : Handling s call n) : (s.register n).Working call := by
  obtain ⟨c, attempt, rest, rfl, hphase⟩ := h
  simp only [ClaimRegister.Working, EventState.register, hphase, Option.bind_some]
  exact ⟨rfl, fun h => nomatch h⟩

theorem settled_iff : (s.register n).slot = .settled ↔ Processed s n := by
  simp only [EventState.register, Processed]
  cases s.consumptions n with
  | none => simp [slotOf]
  | some row =>
    obtain ⟨status, attempts⟩ := row
    cases status <;> simp [slotOf]

/-- **One handler run for a consumer and an event**, in every run whose
steps meet the condition: two dispatches never execute the same consumer's
handler at a time, and none executes it in any state that follows one in
which the consumer is marked processed. -/
theorem one_handler_run (consumers : List ConsumerDefinition) (as : List EventAction)
    (s : EventState) (honce : (delivery consumers).Along RunsOnce committed as)
    (hrun : (delivery consumers).run committed as = some s) :
    (∀ i j n, Handling s i n → Handling s j n → i = j) ∧
    (∀ n, Processed s n → ∀ bs t, (delivery consumers).Along RunsOnce s bs →
      (delivery consumers).run s bs = some t → ∀ i, ¬ Handling t i n) := by
  have hinv : Disciplined s := (delivery consumers).along_invariant (P := Disciplined)
    (fun h honce hstep => h.step honce hstep) disciplined_committed honce hrun
  refine ⟨fun i j n hi hj => ?_, fun n hprocessed bs t hbs hbrun i hi => ?_⟩
  · exact (hinv n).1.unique i j hi.working.1 hj.working.1
  · have hlater : Disciplined t ∧ (t.register n).slot = .settled :=
      (delivery consumers).along_invariant
        (P := fun u => Disciplined u ∧ (u.register n).slot = .settled)
        (fun h honce hstep =>
          ⟨h.1.step honce hstep, h.1.processed_step honce hstep h.2⟩)
        ⟨hinv, settled_iff.mpr hprocessed⟩ hbs hbrun
    exact (hlater.1 n).2.idle hlater.2 i hi.working

def oneConsumer : List ConsumerDefinition := [⟨"connector-state-propagation", 3⟩]

/-- Process 0 delivers the event; the first attempt fails, the second is
marked processed. -/
def deliverOnce : List EventAction :=
  [.start 0, .dispatch 0 0, .advance 0 none, .advance 0 none, .advance 0 (some "busy"),
   .advance 0 none, .advance 0 none, .advance 0 none]

theorem one_handler_run_retried :
    ∃ s, (delivery oneConsumer).run committed deliverOnce = some s ∧
      Processed s "connector-state-propagation" ∧
      ∀ i, ¬ Handling s i "connector-state-propagation" := by
  refine ⟨_, rfl, ⟨2, rfl⟩, ?_⟩
  refine (one_handler_run oneConsumer deliverOnce _ ?_ rfl).2 "connector-state-propagation"
    ⟨2, rfl⟩ [] _ trivial rfl
  refine System.along_cons _ rfl (fun n hheld => nomatch hheld) ?_
  refine System.along_cons _ rfl trivial (System.along_cons _ rfl trivial ?_)
  refine System.along_cons _ rfl trivial
    (System.along_cons _ rfl (fun n h => nomatch h) ?_)
  refine System.along_cons _ rfl trivial (System.along_cons _ rfl trivial ?_)
  exact System.along_cons _ rfl trivial trivial

/-- Process 1 starts while process 0 executes the handler, takes the claim
for abandoned, and executes the handler beside it. -/
theorem start_overlaps_handler :
    ∃ s, (delivery oneConsumer).run committed
        [.start 0, .dispatch 0 0, .advance 0 none, .advance 0 none, .start 1, .dispatch 1 1,
         .advance 1 none, .advance 1 none] = some s ∧
      Handling s 0 "connector-state-propagation" ∧
      Handling s 1 "connector-state-propagation" :=
  ⟨_, rfl, ⟨_, 1, [], rfl, rfl⟩, ⟨_, 1, [], rfl, rfl⟩⟩

end Cadena.Events
