import Cadena.Base.Transition

/-!
# The concurrency gate of one target

`acquireConcurrency` and the release that it hands out. A release wakes the
first waiter and frees its slot; the waiter takes a slot when it resumes, without
looking at the limit again, and callers may come in between.
-/

namespace Cadena.Connectors

open Cadena.Base

/-- A `maxConcurrent` that `validateRateGovernance` lets pass. -/
structure ConcurrencyLimit where
  value : Nat
  positive : 1 ≤ value

structure ConcurrencyGate where
  inFlight : Nat
  queued : Nat
  limit : Nat
  waiters : List Nat

/-- The gate of one key, the calls that are woken and have not resumed, and the
calls that hold a slot. `carried` is the number in flight when the limit was
last lowered. -/
structure GateState where
  gate : Option ConcurrencyGate
  woken : List Nat
  holding : List Nat
  carried : Nat

inductive GateAction where
  | acquire (call : Nat) (limit : ConcurrencyLimit)
  | resume (call : Nat)
  | release (call : Nat)

/-- `this.gates.get(key) || { … }`, with the smaller limit. -/
def gateFor (gate : Option ConcurrencyGate) (limit : Nat) : ConcurrencyGate :=
  match gate with
  | some gate => { gate with limit := min gate.limit limit }
  | none => ⟨0, 0, limit, []⟩

def carriedAfter (s : GateState) (limit : Nat) : Nat :=
  match s.gate with
  | some gate => if limit < gate.limit then gate.inFlight else s.carried
  | none => s.carried

def gateCalls (s : GateState) : List Nat :=
  (s.gate.map (·.waiters)).getD [] ++ s.woken ++ s.holding

def acquireConcurrency (s : GateState) (call limit : Nat) : GateState :=
  let gate := gateFor s.gate limit
  let carried := carriedAfter s limit
  if gate.inFlight ≥ gate.limit then
    { s with
      gate := some { gate with queued := gate.queued + 1, waiters := gate.waiters ++ [call] }
      carried := carried }
  else
    { s with
      gate := some { gate with inFlight := gate.inFlight + 1 }
      holding := s.holding ++ [call]
      carried := carried }

/-- The waiter goes on behind its `await`. -/
def resumeWaiter (s : GateState) (gate : ConcurrencyGate) (call : Nat) : GateState :=
  { s with
    gate := some { gate with queued := gate.queued - 1, inFlight := gate.inFlight + 1 }
    woken := s.woken.erase call
    holding := s.holding ++ [call] }

def releaseSlot (s : GateState) (gate : ConcurrencyGate) (call : Nat) : GateState :=
  let inFlight := gate.inFlight - 1
  match gate.waiters with
  | next :: waiters =>
    if inFlight < gate.limit then
      { s with
        gate := some { gate with inFlight := inFlight, waiters := waiters }
        woken := s.woken ++ [next]
        holding := s.holding.erase call }
    else { s with gate := some { gate with inFlight := inFlight }, holding := s.holding.erase call }
  | [] => { s with gate := some { gate with inFlight := inFlight }, holding := s.holding.erase call }

def gateStep (s : GateState) : GateAction → Option GateState
  | .acquire call limit => if call ∈ gateCalls s then none else some (acquireConcurrency s call limit.value)
  | .resume call =>
    match s.gate with
    | some gate => if call ∈ s.woken then some (resumeWaiter s gate call) else none
    | none => none
  | .release call =>
    match s.gate with
    | some gate => if call ∈ s.holding then some (releaseSlot s gate call) else none
    | none => none

def concurrencyGate : System GateState GateAction := ⟨gateStep⟩

def openGate : GateState := ⟨none, [], [], 0⟩

/-! ## The statements -/

/-- No more calls are in flight than the smallest limit and those that were when
it was lowered, and where calls wait, another one is in flight or about to
resume. -/
def GateKept (s : GateState) : Prop :=
  ∀ gate, s.gate = some gate →
    gate.inFlight ≤ gate.limit + s.carried ∧ (gate.waiters ≠ [] → s.holding ≠ [] ∨ s.woken ≠ [])

def FindsSlot (s : GateState) : GateAction → Prop
  | .resume _ => ∀ gate, s.gate = some gate → gate.inFlight < gate.limit + s.carried
  | _ => True

/-- The gate counts the calls that hold a slot, and those that hold one or are
woken fill it while others wait. -/
structure GateInv (s : GateState) : Prop where
  idle : s.gate = none → s.woken = [] ∧ s.holding = []
  positive : ∀ gate, s.gate = some gate → 1 ≤ gate.limit
  counts : ∀ gate, s.gate = some gate → gate.inFlight = s.holding.length
  full : ∀ gate, s.gate = some gate → gate.waiters ≠ [] → gate.limit ≤ gate.inFlight + s.woken.length

section
variable {s t : GateState}

theorem GateInv.gateFor (h : GateInv s) (limit : ConcurrencyLimit) :
    1 ≤ (gateFor s.gate limit.value).limit ∧ (gateFor s.gate limit.value).inFlight = s.holding.length ∧
      ((gateFor s.gate limit.value).waiters ≠ [] →
        (gateFor s.gate limit.value).limit ≤ (gateFor s.gate limit.value).inFlight + s.woken.length) := by
  cases hgate : s.gate with
  | none =>
    refine ⟨limit.positive, ?_, nofun⟩
    rw [(h.idle hgate).2]
    rfl
  | some gate =>
    refine ⟨Nat.le_min.mpr ⟨h.positive gate hgate, limit.positive⟩, h.counts gate hgate, fun hwait => ?_⟩
    exact Nat.le_trans (Nat.min_le_left _ _) (h.full gate hgate hwait)

theorem GateInv.acquire (h : GateInv s) (call : Nat) (limit : ConcurrencyLimit) :
    GateInv (acquireConcurrency s call limit.value) := by
  obtain ⟨hpositive, hcounts, hfull⟩ := h.gateFor limit
  unfold acquireConcurrency
  simp only
  split
  · rename_i hbusy
    refine ⟨nofun, ?_, ?_, ?_⟩
    · rintro gate ⟨⟩
      exact hpositive
    · rintro gate ⟨⟩
      exact hcounts
    · rintro gate ⟨⟩ -
      show (Connectors.gateFor s.gate limit.value).limit ≤
        (Connectors.gateFor s.gate limit.value).inFlight + s.woken.length
      omega
  · refine ⟨nofun, ?_, ?_, ?_⟩
    · rintro gate ⟨⟩
      exact hpositive
    · rintro gate ⟨⟩
      simp only [List.length_append, List.length_singleton, hcounts]
    · rintro gate ⟨⟩ hwait
      have hheld := hfull hwait
      show (Connectors.gateFor s.gate limit.value).limit ≤
        (Connectors.gateFor s.gate limit.value).inFlight + 1 + s.woken.length
      omega

theorem GateInv.resume (h : GateInv s) {gate : ConcurrencyGate} {call : Nat} (hgate : s.gate = some gate)
    (hcall : call ∈ s.woken) : GateInv (resumeWaiter s gate call) := by
  have hlength : (s.woken.erase call).length + 1 = s.woken.length := by
    rw [List.length_erase_of_mem hcall]
    have hpos := List.length_pos_of_mem hcall
    omega
  refine ⟨nofun, ?_, ?_, ?_⟩
  · rintro gate' ⟨⟩
    exact h.positive gate hgate
  · rintro gate' ⟨⟩
    simp only [resumeWaiter, List.length_append, List.length_singleton, h.counts gate hgate]
  · rintro gate' ⟨⟩ hwait
    have hfull := h.full gate hgate hwait
    show gate.limit ≤ gate.inFlight + 1 + (s.woken.erase call).length
    omega

theorem GateInv.release (h : GateInv s) {gate : ConcurrencyGate} {call : Nat} (hgate : s.gate = some gate)
    (hcall : call ∈ s.holding) : GateInv (releaseSlot s gate call) := by
  have hcounts := h.counts gate hgate
  have hpos := List.length_pos_of_mem hcall
  have hlength : (s.holding.erase call).length = gate.inFlight - 1 := by
    rw [List.length_erase_of_mem hcall, hcounts]
  unfold releaseSlot
  simp only
  split
  · rename_i next waiters hwaiters
    have hfull := h.full gate hgate (by rw [hwaiters]; exact List.cons_ne_nil _ _)
    split
    · refine ⟨nofun, ?_, ?_, ?_⟩
      · rintro gate' ⟨⟩
        exact h.positive gate hgate
      · rintro gate' ⟨⟩
        exact hlength.symm
      · rintro gate' ⟨⟩ -
        simp only [List.length_append, List.length_singleton]
        omega
    · refine ⟨nofun, ?_, ?_, ?_⟩
      · rintro gate' ⟨⟩
        exact h.positive gate hgate
      · rintro gate' ⟨⟩
        exact hlength.symm
      · rintro gate' ⟨⟩ -
        show gate.limit ≤ gate.inFlight - 1 + s.woken.length
        omega
  · rename_i hwaiters
    refine ⟨nofun, ?_, ?_, ?_⟩
    · rintro gate' ⟨⟩
      exact h.positive gate hgate
    · rintro gate' ⟨⟩
      exact hlength.symm
    · rintro gate' ⟨⟩ hwait
      exact absurd hwaiters hwait

end

/-! ## Runs -/

section
variable {s t : GateState}

theorem GateInv.step (h : GateInv s) {a : GateAction} (hstep : gateStep s a = some t) : GateInv t := by
  cases a with
  | acquire call limit =>
    simp only [gateStep] at hstep
    split at hstep
    · cases hstep
    · cases hstep
      exact h.acquire call limit
  | resume call =>
    simp only [gateStep] at hstep
    split at hstep
    · rename_i gate hgate
      split at hstep
      · rename_i hcall
        cases hstep
        exact h.resume hgate hcall
      · cases hstep
    · cases hstep
  | release call =>
    simp only [gateStep] at hstep
    split at hstep
    · rename_i gate hgate
      split at hstep
      · rename_i hcall
        cases hstep
        exact h.release hgate hcall
      · cases hstep
    · cases hstep

/-- No waiter is stranded, whatever has happened to the slots. -/
theorem GateInv.kept_iff (h : GateInv s) :
    GateKept s ↔ ∀ gate, s.gate = some gate → gate.inFlight ≤ gate.limit + s.carried := by
  refine ⟨fun hkept gate hgate => (hkept gate hgate).1, fun hbound gate hgate => ⟨hbound gate hgate, fun hwait => ?_⟩⟩
  have hfull := h.full gate hgate hwait
  have hpositive := h.positive gate hgate
  rw [h.counts gate hgate] at hfull
  by_contra hnone
  rw [not_or, not_not, not_not] at hnone
  rw [hnone.1, hnone.2] at hfull
  simp only [List.length_nil] at hfull
  omega

theorem acquire_bounded (call limit : Nat)
    (h : ∀ gate, s.gate = some gate → gate.inFlight ≤ gate.limit + s.carried) :
    ∀ gate, (acquireConcurrency s call limit).gate = some gate →
      gate.inFlight ≤ gate.limit + (acquireConcurrency s call limit).carried := by
  have hfor : (gateFor s.gate limit).inFlight ≤ (gateFor s.gate limit).limit + carriedAfter s limit := by
    unfold carriedAfter
    cases hgate : s.gate with
    | none => exact Nat.zero_le _
    | some gate =>
      have hbound := h gate hgate
      simp only [gateFor]
      split <;> omega
  unfold acquireConcurrency
  simp only
  split
  · rintro gate ⟨⟩
    exact hfor
  · rename_i hroom
    rintro gate ⟨⟩
    show (gateFor s.gate limit).inFlight + 1 ≤ (gateFor s.gate limit).limit + carriedAfter s limit
    omega

theorem release_bounded {gate : ConcurrencyGate} (call : Nat) (h : gate.inFlight ≤ gate.limit + s.carried) :
    ∀ gate', (releaseSlot s gate call).gate = some gate' →
      gate'.inFlight ≤ gate'.limit + (releaseSlot s gate call).carried := by
  unfold releaseSlot
  simp only
  split
  · split <;> rintro gate' ⟨⟩ <;> simp only <;> omega
  · rintro gate' ⟨⟩
    simp only
    omega

/-- Only a waiter that resumes can take one slot too many. -/
theorem gateKept_step (h : GateInv s) (hkept : GateKept s) {a : GateAction} (hstep : gateStep s a = some t) :
    GateKept t ↔ FindsSlot s a := by
  rw [(h.step hstep).kept_iff]
  have hbound := h.kept_iff.mp hkept
  cases a with
  | acquire call limit =>
    simp only [gateStep] at hstep
    split at hstep
    · cases hstep
    · cases hstep
      exact ⟨fun _ => trivial, fun _ => acquire_bounded call limit.value hbound⟩
  | resume call =>
    simp only [gateStep] at hstep
    split at hstep
    · rename_i gate hgate
      split at hstep
      · cases hstep
        constructor
        · intro hafter gate' hgate'
          obtain rfl := Option.some.inj (hgate.symm.trans hgate')
          exact hafter _ rfl
        · rintro hfinds gate' ⟨⟩
          exact hfinds gate hgate
      · cases hstep
    · cases hstep
  | release call =>
    simp only [gateStep] at hstep
    split at hstep
    · rename_i gate hgate
      split at hstep
      · cases hstep
        exact ⟨fun _ => trivial, fun _ => release_bounded call (hbound gate hgate)⟩
      · cases hstep
    · cases hstep

theorem gateInv_open : GateInv openGate where
  idle _ := ⟨rfl, rfl⟩
  positive _ h := by cases h
  counts _ h := by cases h
  full _ h := by cases h

/-- **The gate keeps its limit and strands no waiter** in every state of a run
exactly if each woken waiter finds a slot when it resumes. -/
theorem gate_kept_iff {acts : List GateAction} (hrun : concurrencyGate.run openGate acts = some t) :
    concurrencyGate.Throughout GateKept openGate acts ↔ concurrencyGate.Along FindsSlot openGate acts :=
  concurrencyGate.throughout_iff (fun h hstep => h.step hstep) (fun h hkept hstep => gateKept_step h hkept hstep)
    gateInv_open (fun _ h => by cases h) hrun

end

/-! ## A slot taken twice -/

def oneAtATime : ConcurrencyLimit := ⟨1, Nat.le_refl 1⟩

/-- A caller comes between the release and the waiter that it has woken. -/
def slotTaken : List GateAction :=
  [.acquire 0 oneAtATime, .acquire 1 oneAtATime, .release 0, .acquire 2 oneAtATime, .resume 1]

theorem gate_exceeds_limit :
    ¬ ∀ (acts : List GateAction) (t : GateState), concurrencyGate.run openGate acts = some t →
      concurrencyGate.Throughout GateKept openGate acts := by
  intro h
  have hend : ((concurrencyGate.run openGate slotTaken).bind (·.gate)).map
      (fun gate => (gate.inFlight, gate.limit)) = some (2, 1) ∧
      (concurrencyGate.run openGate slotTaken).map (·.carried) = some 0 := by decide
  obtain ⟨hgates, hcarried⟩ := hend
  obtain ⟨t, ht, hzero⟩ := Option.map_eq_some_iff.mp hcarried
  rw [ht, Option.bind_some] at hgates
  obtain ⟨gate, hgate, hcounts⟩ := Option.map_eq_some_iff.mp hgates
  obtain ⟨hflight, hlimit⟩ := Prod.mk.inj hcounts
  have hkept := (concurrencyGate.throughout_end (h slotTaken t ht) ht gate hgate).1
  omega

/-- The waiter resumes at once, and the next caller waits in its turn. -/
def inTurn : List GateAction :=
  [.acquire 0 oneAtATime, .acquire 1 oneAtATime, .release 0, .resume 1, .acquire 2 oneAtATime, .release 1, .resume 2]

def findsSlot (s : GateState) : GateAction → Bool
  | .resume _ => s.gate.all fun gate => gate.inFlight < gate.limit + s.carried
  | _ => true

theorem findsSlot_of_check (s : GateState) (a : GateAction) (h : findsSlot s a = true) : FindsSlot s a := by
  cases a with
  | resume call =>
    intro gate hgate
    simpa [findsSlot, hgate] using h
  | acquire | release => trivial

theorem gate_kept_in_turn :
    concurrencyGate.Throughout GateKept openGate inTurn ∧
      (concurrencyGate.run openGate inTurn).map (·.holding) = some [2] := by
  have hend : (concurrencyGate.run openGate inTurn).map (·.holding) = some [2] := by decide
  obtain ⟨t, ht, -⟩ := Option.map_eq_some_iff.mp hend
  exact ⟨(gate_kept_iff ht).mpr (concurrencyGate.along_of_checks findsSlot_of_check (by decide)), hend⟩

/-! ## Every call in one place -/

/-- The calls that have asked for a slot. -/
def acquired (acts : List GateAction) : List Nat :=
  acts.filterMap fun
    | .acquire call _ => some call
    | _ => none

/-- The calls that have given a slot back. -/
def released (acts : List GateAction) : List Nat :=
  acts.filterMap fun
    | .release call => some call
    | _ => none

section
variable {s t : GateState} {gate : ConcurrencyGate} {call : Nat}

theorem acquireConcurrency_calls (limit : Nat) :
    (gateCalls (acquireConcurrency s call limit)).Perm (gateCalls s ++ [call]) := by
  have hwaiters : (gateFor s.gate limit).waiters = (s.gate.map (·.waiters)).getD [] := by
    cases s.gate <;> rfl
  rw [acquireConcurrency]
  split
  · rw [List.perm_iff_count]
    intro x
    simp only [gateCalls, hwaiters, Option.map_some, Option.getD_some, List.count_append]
    omega
  · simp only [gateCalls, hwaiters, Option.map_some, Option.getD_some, List.append_assoc, List.Perm.refl]

theorem resumeWaiter_calls (hgate : s.gate = some gate) (hcall : call ∈ s.woken) :
    (gateCalls (resumeWaiter s gate call)).Perm (gateCalls s) := by
  have hmove : (s.woken.erase call ++ (s.holding ++ [call])).Perm (s.woken ++ s.holding) :=
    ((List.perm_append_comm.append_left _).trans List.perm_middle).trans
      ((List.perm_cons_erase hcall).symm.append_right s.holding)
  simpa only [gateCalls, resumeWaiter, hgate, Option.map_some, Option.getD_some, List.append_assoc] using
    hmove.append_left gate.waiters

theorem releaseSlot_calls (hgate : s.gate = some gate) (hcall : call ∈ s.holding) :
    (call :: gateCalls (releaseSlot s gate call)).Perm (gateCalls s) := by
  have hholding := (List.perm_cons_erase hcall).symm
  rw [List.perm_iff_count] at hholding ⊢
  intro x
  have hx := hholding x
  rw [releaseSlot]
  split
  · rename_i next waiters hwaiters
    split <;>
    · simp only [gateCalls, hgate, hwaiters, Option.map_some, Option.getD_some, List.count_append,
        List.count_cons, List.count_nil] at hx ⊢
      omega
  · simp only [gateCalls, hgate, Option.map_some, Option.getD_some, List.count_append,
      List.count_cons] at hx ⊢
    omega

theorem gateCalls_step {a : GateAction} (hstep : gateStep s a = some t) :
    (released [a] ++ gateCalls t).Perm (gateCalls s ++ acquired [a]) := by
  cases a with
  | acquire call limit =>
    simp only [gateStep] at hstep
    split at hstep <;> cases hstep
    exact acquireConcurrency_calls limit.value
  | resume call =>
    simp only [gateStep] at hstep
    split at hstep
    · split at hstep <;> cases hstep
      exact (List.append_nil (gateCalls s)).symm ▸ resumeWaiter_calls ‹_› ‹_›
    · cases hstep
  | release call =>
    simp only [gateStep] at hstep
    split at hstep
    · split at hstep <;> cases hstep
      exact (List.append_nil (gateCalls s)).symm ▸ releaseSlot_calls ‹_› ‹_›
    · cases hstep

theorem gateCalls_run {acts : List GateAction} (hrun : concurrencyGate.run s acts = some t) :
    (released acts ++ gateCalls t).Perm (gateCalls s ++ acquired acts) := by
  induction acts generalizing s with
  | nil =>
    obtain rfl := Option.some.inj hrun
    exact (List.append_nil (gateCalls s)).symm ▸ .refl _
  | cons a acts ih =>
    obtain ⟨u, hu, hrest⟩ := concurrencyGate.run_cons.mp hrun
    have hstep := gateCalls_step hu
    have hacts := ih hrest
    have hreleased : released (a :: acts) = released [a] ++ released acts :=
      List.filterMap_append (l := [a])
    have hacquired : acquired (a :: acts) = acquired [a] ++ acquired acts :=
      List.filterMap_append (l := [a])
    rw [hreleased, hacquired, List.append_assoc, ← List.append_assoc (gateCalls s)]
    exact (hacts.append_left _).trans (by
      rw [← List.append_assoc]
      exact hstep.append_right _)

/-- **The gate loses no call.** In every run, whatever limits are asked for, the
calls that wait, are woken or hold a slot are those that have asked for one and
not given it back; the holders are counted, and no slot is idle while calls wait. -/
theorem gate_loses_no_call {acts : List GateAction} (hrun : concurrencyGate.run openGate acts = some t) :
    (released acts ++ gateCalls t).Perm (acquired acts) ∧
      ∀ gate, t.gate = some gate → gate.inFlight = t.holding.length ∧
        (gate.waiters ≠ [] → gate.limit ≤ gate.inFlight + t.woken.length) := by
  have hinv : GateInv t := concurrencyGate.run_invariant (fun h hs => h.step hs) gateInv_open hrun
  exact ⟨gateCalls_run hrun, fun gate hgate => ⟨hinv.counts gate hgate, hinv.full gate hgate⟩⟩

end

theorem gate_loses_no_call_taken : ∃ t, concurrencyGate.run openGate slotTaken = some t ∧
    t.holding = [2, 1] ∧ (released slotTaken ++ gateCalls t).Perm [0, 1, 2] := by
  have hend : (concurrencyGate.run openGate slotTaken).map (·.holding) = some [2, 1] := by decide
  obtain ⟨t, ht, hholding⟩ := Option.map_eq_some_iff.mp hend
  exact ⟨t, ht, hholding, (gate_loses_no_call ht).1⟩

end Cadena.Connectors
