import Cadena.Connectors.CommentSync

/-!
# What a step of the comment synchronization can do

`Change` has one constructor for each way a step changes the state, with
all that its guards have tested. Every step is one (`Change.of_step`).
-/

namespace Cadena.Connectors.Comments

open Cadena.Base

section
variable (P : Platform) (E : Side → Endpoint) (s : CommentState) (a : CommentAction)

/-- A move of one sync that writes nothing. -/
inductive SyncMove (k : Nat) : CommentSync → Prop where
  | stopped : SyncMove k { s.syncs k with phase := .stopped }
  | fetched {twin : Side} : a = .fetch k twin → SyncMove k ⟨twin, commentsOf s twin,
      .checking (fetchPublicComments (E twin).provider (commentsOf s twin))⟩
  | dropped {c : ExternalPublicComment} {rest : List ExternalPublicComment} :
      a = .check k → (s.syncs k).phase = .checking (c :: rest) →
      permitted P E (s.syncs k).twin c = false ∨ isEcho s (s.syncs k).twin c = true →
      SyncMove k { s.syncs k with phase := .checking rest }
  | passed {c : ExternalPublicComment} {rest : List ExternalPublicComment} :
      a = .check k → (s.syncs k).phase = .checking (c :: rest) →
      permitted P E (s.syncs k).twin c = true → isEcho s (s.syncs k).twin c = false →
      SyncMove k { s.syncs k with phase := .storing c rest }
  | found {c : ExternalPublicComment} {rest : List ExternalPublicComment} {row : PublicComment} :
      (s.syncs k).phase = .storing c rest → row ∈ s.comments →
      storedAs E (s.syncs k).twin c.externalId row = true →
      SyncMove k { s.syncs k with phase := .ensuring row.id rest }

/-- A move of one worker that writes nothing. -/
inductive CallMove (c : Nat) : DeliveryCall → Prop where
  | found {id : Uuid} {d : CommentDelivery} {r : PublicComment} {x : ExternalPublicComment} :
      s.calls c = .claimed id → deliveryRow s id = some (d, r) →
      CallMove c (.pushed id x.externalId)
  | missed {id : Uuid} {d : CommentDelivery} {r : PublicComment} :
      a = .look c → s.calls c = .claimed id → deliveryRow s id = some (d, r) →
      findMarker (fetchPublicComments (E d.targetTwin).provider (commentsOf s d.targetTwin))
        d.marker = none →
      CallMove c (.looked id)
  | threw {id : Uuid} : (s.calls c).holds = some id → CallMove c (.errored id)
  | crashed : CallMove c .crashed

/-- The deliveries after `ensureCommentDeliveries`. -/
inductive Ensured : List CommentDelivery → Prop where
  | kept : Ensured s.deliveries
  | added {id commentId : Uuid} {target : Side} :
      (∀ d ∈ s.deliveries, d.id ≠ id) →
      (∀ d ∈ s.deliveries, ¬ (d.commentId = commentId ∧ d.targetTwin = target)) →
      Ensured (s.deliveries ++ [pendingDelivery id commentId target])

/-- A statement that leaves the columns set by the insert. -/
structure KeepsIdentity (f : CommentDelivery → CommentDelivery) : Prop where
  id : ∀ d, (f d).id = d.id
  commentId : ∀ d, (f d).commentId = d.commentId
  targetTwin : ∀ d, (f d).targetTwin = d.targetTwin
  marker : ∀ d, (f d).marker = d.marker

inductive Change : CommentState → Prop where
  | posted {c : ProviderComment} : c.writtenBy = none → idTaken E s c.twin c.id = false →
      Change { s with provider := s.provider ++ [c] }
  | pushed {c : Nat} {id : Uuid} {d : CommentDelivery} {r : PublicComment} {receipt : Receipt}
      {next : DeliveryCall} : s.calls c = .looked id → deliveryRow s id = some (d, r) →
      idTaken E s d.targetTwin receipt.id = false →
      (next.holds = some id ∧ ∀ x, next ≠ .looked x) →
      Change { s.setCall c next with provider := s.provider ++ [writtenComment E d r receipt] }
  | synced {k : Nat} {sync : CommentSync} : SyncMove P E s a k sync →
      Change { s with syncs := setAt s.syncs k sync }
  | stored {k : Nat} {c : ExternalPublicComment} {rest : List ExternalPublicComment} {id : Uuid} :
      (s.syncs k).phase = .storing c rest →
      (∀ r ∈ s.comments, storedAs E (s.syncs k).twin c.externalId r = false) →
      (∀ r ∈ s.comments, r.id ≠ id) →
      Change { s.setSync k (.ensuring id rest) with
        comments := s.comments ++ [insertedComment E (s.syncs k).twin id c] }
  | ensured {k : Nat} {commentId : Uuid} {rest : List ExternalPublicComment}
      {deliveries : List CommentDelivery} :
      (s.syncs k).phase = .ensuring commentId rest → Ensured s deliveries →
      Change { s.setSync k (.checking rest) with deliveries := deliveries }
  | caughtUp {deliveries : List CommentDelivery} : Ensured s deliveries →
      Change { s with deliveries := deliveries }
  | claimed {c : Nat} {id : Uuid} {d : CommentDelivery} {r : PublicComment} :
      s.calls c = .idle → deliveryRow s id = some (d, r) → claimable s d = true →
      Change { s.setCall c (.claimed id) with
        deliveries := Table.update (·.id == id) (·.claim c) s.deliveries }
  | skipped {id : Uuid} :
      Change { s with
        deliveries := Table.update (·.id == id) ({ · with status := .skipped }) s.deliveries }
  | called {c : Nat} {call : DeliveryCall} : CallMove E s a c call → Change (s.setCall c call)
  | released {c : Nat} {id : Uuid} {f : CommentDelivery → CommentDelivery} :
      (s.calls c).holds = some id → KeepsIdentity f →
      Change { s.setCall c .finished with
        deliveries := Table.update (heldBy id c) f s.deliveries }

end

section
variable {P : Platform} {E : Side → Endpoint} {s t : CommentState} {a : CommentAction}

theorem claim_keeps (c : Nat) : KeepsIdentity (·.claim c) :=
  ⟨fun _ => rfl, fun _ => rfl, fun _ => rfl, fun _ => rfl⟩

theorem skip_keeps : KeepsIdentity ({ · with status := .skipped }) :=
  ⟨fun _ => rfl, fun _ => rfl, fun _ => rfl, fun _ => rfl⟩

theorem execute_keeps (externalId : Text) : KeepsIdentity (·.execute externalId) :=
  ⟨fun _ => rfl, fun _ => rfl, fun _ => rfl, fun _ => rfl⟩

theorem fail_keeps (retryable : Bool) : KeepsIdentity (·.fail retryable) :=
  ⟨fun _ => rfl, fun _ => rfl, fun _ => rfl, fun _ => rfl⟩

theorem defer_keeps : KeepsIdentity CommentDelivery.defer :=
  ⟨fun _ => rfl, fun _ => rfl, fun _ => rfl, fun _ => rfl⟩

theorem Ensured.of_ensure {commentId id : Uuid} {source : Side}
    {deliveries : List CommentDelivery}
    (h : ensureCommentDeliveries E s.deliveries commentId source id = some deliveries) :
    Ensured s deliveries := by
  simp only [ensureCommentDeliveries] at h
  split at h
  · obtain rfl := Option.some.inj h
    exact .kept
  · rename_i hnew
    simp only [Bool.or_eq_true, not_or, List.any_eq_true, not_exists, not_and, Bool.and_eq_true,
      beq_iff_eq] at hnew
    split at h
    · cases h
    · rename_i hid
      obtain rfl := Option.some.inj h
      simp only [List.any_eq_true, beq_iff_eq, not_exists, not_and] at hid
      exact .added hid fun d hd hkey => hnew.2 d hd hkey.1 hkey.2

variable {c k : Nat}

theorem Change.of_check (h : checkStep P E s k = some t) : Change P E s (.check k) t := by
  unfold checkStep at h
  split at h
  · rename_i c rest hphase
    split at h
    · rename_i hdrop
      obtain rfl := Option.some.inj h
      rw [Bool.or_eq_true, Bool.not_eq_true'] at hdrop
      exact .synced (.dropped rfl hphase hdrop)
    · rename_i hpass
      obtain rfl := Option.some.inj h
      rw [Bool.or_eq_true, not_or, Bool.not_eq_true', Bool.not_eq_false, Bool.not_eq_true] at hpass
      exact .synced (.passed rfl hphase hpass.1 hpass.2)
  · cases h

theorem Change.of_store {id : Uuid} (h : storeStep E s k id = some t) : Change P E s a t := by
  unfold storeStep at h
  split at h
  · rename_i c rest hphase
    split at h
    · rename_i row hrow
      obtain rfl := Option.some.inj h
      exact .synced (.found hphase (List.mem_of_find?_eq_some hrow) (List.find?_some hrow))
    · rename_i hnone
      split at h
      · cases h
      · rename_i hid
        obtain rfl := Option.some.inj h
        refine .stored hphase (fun r hr => ?_) (fun r hr heq => hid ?_)
        · simpa using List.find?_eq_none.mp hnone r hr
        · exact List.any_eq_true.mpr ⟨r, hr, by simpa using heq⟩
  · cases h

theorem Change.of_fetch {twin : Side} (h : fetchStep E s k twin = some t) : Change P E s (.fetch k twin) t := by
  unfold fetchStep at h
  split at h
  · split at h <;> cases h
    exact .synced (.fetched rfl)
  · split at h <;> cases h
    exact .synced (.fetched rfl)
  · cases h

theorem Change.of_claim {id : Uuid} (h : claimStep P E s c id = some t) : Change P E s a t := by
  unfold claimStep at h
  split at h
  · rename_i d r hcall hrow
    split at h
    · rename_i hguard
      obtain rfl := Option.some.inj h
      rw [Bool.and_eq_true] at hguard
      exact .claimed hcall hrow hguard.2
    · cases h
  · cases h

theorem Change.of_look (h : lookStep E s c = some t) : Change P E s (.look c) t := by
  simp only [lookStep] at h
  split at h
  · rename_i id hcall
    split at h
    · rename_i d r hrow
      split at h
      · obtain rfl := Option.some.inj h
        exact .called (.found hcall hrow)
      · rename_i hnone
        obtain rfl := Option.some.inj h
        exact .called (.missed rfl hcall hrow hnone)
    · cases h
  · cases h

theorem Change.of_push {receipt : Receipt} {next : Uuid → DeliveryCall}
    (hnext : ∀ id, (next id).holds = some id ∧ ∀ x, next id ≠ .looked x)
    (h : pushStep E s c receipt next = some t) : Change P E s a t := by
  unfold pushStep at h
  split at h
  · rename_i id hcall
    split at h
    · rename_i d r hrow
      split at h
      · cases h
      · rename_i hfree
        obtain rfl := Option.some.inj h
        exact .pushed hcall hrow (by simpa using hfree) (hnext id)
    · cases h
  · cases h

theorem Change.of_handle {f : CommentDelivery → CommentDelivery} (hf : KeepsIdentity f)
    (h : handleStep s c f = some t) : Change P E s a t := by
  unfold handleStep at h
  split at h
  · rename_i id hcall
    obtain rfl := Option.some.inj h
    exact .released (by rw [hcall]; rfl) hf
  · cases h

theorem Change.of_step (h : commentStep P E s a = some t) :
    Change P E s a t := by
  cases a with
  | post c =>
    simp only [commentStep, postStep] at h
    split at h
    · cases h
    · rename_i hguard
      obtain rfl := Option.some.inj h
      simp only [Bool.or_eq_true, not_or, Bool.not_eq_true, Option.isSome_eq_false_iff,
        Option.isNone_iff_eq_none] at hguard
      exact .posted hguard.1 hguard.2
  | fetch k twin => exact Change.of_fetch h
  | check k => exact Change.of_check h
  | store k id => exact Change.of_store h
  | ensure k id =>
    simp only [commentStep, ensureStep] at h
    split at h
    · rename_i hphase
      obtain ⟨D, hD, rfl⟩ := Option.map_eq_some_iff.mp h
      exact .ensured hphase (.of_ensure hD)
    · cases h
  | stop k =>
    obtain rfl := Option.some.inj h
    exact .synced .stopped
  | catchUp commentId id =>
    simp only [commentStep, catchUpStep] at h
    split at h
    · obtain ⟨D, hD, rfl⟩ := Option.map_eq_some_iff.mp h
      exact .caughtUp (.of_ensure hD)
    · cases h
  | claim c id => exact Change.of_claim h
  | skip id =>
    simp only [commentStep, skipStep] at h
    split at h
    · split at h <;> cases h
      exact .skipped
    · cases h
  | look c => exact Change.of_look h
  | push c receipt answered => exact Change.of_push (fun _ => ⟨rfl, fun _ hcall => by cases hcall⟩) h
  | pushLost c receipt => exact Change.of_push (fun _ => ⟨rfl, fun _ hcall => by cases hcall⟩) h
  | throw c =>
    simp only [commentStep, throwStep] at h
    split at h
    · rename_i hcall
      obtain rfl := Option.some.inj h
      exact .called (.threw (by rw [hcall]; rfl))
    · rename_i hcall
      obtain rfl := Option.some.inj h
      exact .called (.threw (by rw [hcall]; rfl))
    · rename_i hcall
      obtain rfl := Option.some.inj h
      exact .called (.threw (by rw [hcall]; rfl))
    · cases h
  | settle c =>
    simp only [commentStep, settleStep] at h
    split at h
    · rename_i hcall
      obtain rfl := Option.some.inj h
      exact .released (by rw [hcall]; rfl) (execute_keeps _)
    · cases h
  | fail c retryable => exact Change.of_handle (fail_keeps retryable) h
  | defer c => exact Change.of_handle defer_keeps h
  | crash c =>
    simp only [commentStep, crashStep] at h
    split at h <;> cases h
    exact .called .crashed

end

end Cadena.Connectors.Comments
