import Cadena.Connectors.CommentSteps

/-!
# Comments neither bounce nor get lost

Recognition of a returning copy and recovery after a crash both rest on
`commentMarker`, which takes the first marker in the text, while the marker
of a delivery stands last. Under the condition that no read misses a comment
and that no marker in what people wrote is taken for that of a delivery
(`Unquoted`), every run keeps the two tables and the two twins in step.
-/

namespace Cadena.Connectors.Comments

open Cadena.Base

section
variable (P : Platform) (E : Side → Endpoint)

/-- No comment that Cadena wrote is stored as a new source comment. -/
def NoBounce (s : CommentState) : Prop :=
  ∀ r ∈ s.comments, ∀ c ∈ s.provider, storedAs E c.twin c.id r = true → c.writtenBy = none

def WrittenFor (s : CommentState) (r : PublicComment) (twin : Side) (c : ProviderComment) : Prop :=
  c.twin = twin ∧ ∃ d ∈ s.deliveries, d.commentId = r.id ∧ c.writtenBy = some d.id

def WrittenOnce (s : CommentState) : Prop :=
  ∀ r ∈ s.comments, ∀ twin,
    s.provider.Pairwise fun c c' => ¬ (WrittenFor s r twin c ∧ WrittenFor s r twin c')

/-- A comment as the adapter of its twin returns it. -/
def external (c : ProviderComment) : ExternalPublicComment := toExternal (E c.twin).provider c

/-- The comment is stored, with its text and author. -/
def Stored (s : CommentState) (c : ProviderComment) : Prop :=
  ∃ r ∈ s.comments, r = insertedComment E c.twin r.id (external E c)

structure Sendable (c : ProviderComment) : Prop where
  isPublic : c.isPublic = true
  person : c.writtenBy = none
  permitted : permitted P E c.twin (external E c) = true

/-- A sync that has come to its end has stored what it was to store. -/
def AllStored (s : CommentState) : Prop :=
  ∀ k, (s.syncs k).phase = .checking [] → ∀ c ∈ (s.syncs k).seen, Sendable P E c → Stored E s c

/-- The first marker in what people wrote of a comment. -/
def quotedMarker (r : PublicComment) : Option Text := commentMarker (attributedText r)

/-- The comment is among those that a read of its twin gets. -/
def WithinLimit (s : CommentState) (c : ProviderComment) : Prop :=
  c ∈ (listed (E c.twin).provider (commentsOf s c.twin)).take commentLimit

/-- A comment that is looked at for storing: a person's comment carries no
marker of a delivery to its own twin, and a copy carries no marker before
its own but one of these. -/
def UnquotedAt (s : CommentState) (twin : Side) (c : ExternalPublicComment) : Prop :=
  match c.writtenBy with
  | none => ∀ d ∈ s.deliveries, d.targetTwin = twin →
      c.originMarker.map lowerText ≠ some d.marker
  | some id => ∀ d r, deliveryRow s id = some (d, r) → ∀ m, quotedMarker r = some m →
      ∃ e ∈ s.deliveries, e.targetTwin = twin ∧ e.marker = m

/-- The copy of a delivery that is looked for again. -/
def Recoverable (s : CommentState) (d : CommentDelivery) (r : PublicComment) : Prop :=
  ∀ c ∈ s.provider, c.writtenBy = some d.id →
    WithinLimit E s c ∧ (quotedMarker r = none ∨ quotedMarker r = some d.marker)

/-- The reads get all that matters, and no quoted marker misleads. -/
def Unquoted (s : CommentState) : CommentAction → Prop
  | .fetch _ twin => ∀ c ∈ s.provider, c.twin = twin → Sendable P E c → WithinLimit E s c
  | .check k => ∀ c rest, (s.syncs k).phase = .checking (c :: rest) →
      permitted P E (s.syncs k).twin c = true → UnquotedAt s (s.syncs k).twin c
  | .look c => ∀ id d r, s.calls c = .claimed id → deliveryRow s id = some (d, r) →
      Recoverable E s d r
  | _ => True

end

section
variable {P : Platform} {E : Side → Endpoint} {s t : CommentState} {a : CommentAction}

/-! ## Rows and their keys -/

/-- The columns of a delivery that no statement changes. -/
def CommentDelivery.identity (d : CommentDelivery) : Uuid × Uuid × Side × Text :=
  (d.id, d.commentId, d.targetTwin, d.marker)

variable {f : CommentDelivery → CommentDelivery} {r : PublicComment} {d : CommentDelivery} {id : Uuid}
  {p : CommentDelivery → Bool} {deliveries : List CommentDelivery} {twin : Side} {c k : Nat}
  {x : ProviderComment}

theorem KeepsIdentity.identity (hf : KeepsIdentity f) (d : CommentDelivery) : (f d).identity = d.identity := by
  simp only [CommentDelivery.identity, hf.id, hf.commentId, hf.targetTwin, hf.marker]

theorem deliveryRow_some (h : deliveryRow s id = some (d, r)) :
    d ∈ s.deliveries ∧ d.id = id ∧ r ∈ s.comments ∧ r.id = d.commentId := by
  obtain ⟨d', hd, h⟩ := Option.bind_eq_some_iff.mp h
  obtain ⟨r', hr, heq⟩ := Option.map_eq_some_iff.mp h
  obtain ⟨rfl, rfl⟩ := Prod.mk.inj heq
  exact ⟨List.mem_of_find?_eq_some hd, by simpa using List.find?_some hd,
    List.mem_of_find?_eq_some hr, by simpa using List.find?_some hr⟩

structure TableInv (s : CommentState) : Prop where
  commentIds : (s.comments.map (·.id)).Nodup
  deliveryIds : (s.deliveries.map (·.id)).Nodup
  deliveryKeys : (s.deliveries.map fun d => (d.commentId, d.targetTwin)).Nodup
  markers : ∀ d ∈ s.deliveries, d.marker = uuidText d.id

theorem TableInv.deliveryRow (h : TableInv s)
    (hd : d ∈ s.deliveries) (hr : r ∈ s.comments) (hid : r.id = d.commentId) :
    deliveryRow s d.id = some (d, r) := by
  have hfind : s.deliveries.find? (·.id == d.id) = some d := by
    cases hf : s.deliveries.find? (·.id == d.id) with
    | none => simpa using List.find?_eq_none.mp hf d hd
    | some e =>
      have he : e.id = d.id := by simpa using List.find?_some hf
      rw [Table.eq_of_key h.deliveryIds (List.mem_of_find?_eq_some hf) hd he]
  have hcomment : s.comments.find? (·.id == d.commentId) = some r := by
    cases hf : s.comments.find? (·.id == d.commentId) with
    | none => simpa [hid] using List.find?_eq_none.mp hf r hr
    | some q =>
      have hq : q.id = r.id := by simpa [hid] using List.find?_some hf
      rw [Table.eq_of_key h.commentIds (List.mem_of_find?_eq_some hf) hr hq]
  rw [Comments.deliveryRow, hfind, Option.bind_some, hcomment, Option.map_some]

theorem TableInv.update (h : TableInv s) (hf : KeepsIdentity f)
    (hcomments : t.comments = s.comments) (hdeliveries : t.deliveries = Table.update p f s.deliveries) :
    TableInv t := by
  have hcol : ∀ {κ : Type} (g : Uuid × Uuid × Side × Text → κ),
      t.deliveries.map (fun d => g d.identity) = s.deliveries.map (fun d => g d.identity) :=
    fun g => by
      rw [hdeliveries]
      exact Table.update_column (fun d => g d.identity) (fun d => congrArg g (hf.identity d)) _
  refine ⟨hcomments ▸ h.commentIds, ?_, ?_, ?_⟩
  · exact (hcol (·.1)).symm ▸ h.deliveryIds
  · exact (hcol fun i => (i.2.1, i.2.2.1)).symm ▸ h.deliveryKeys
  · intro d hd
    rw [hdeliveries] at hd
    rcases Table.mem_update.mp hd with ⟨e, he, -, rfl⟩ | ⟨hd, -⟩
    · rw [hf.marker, hf.id]
      exact h.markers e he
    · exact h.markers d hd

theorem TableInv.ensured (h : TableInv s) (hE : Ensured s deliveries) (hcomments : t.comments = s.comments)
    (hdeliveries : t.deliveries = deliveries) : TableInv t := by
  subst hdeliveries
  generalize hD : t.deliveries = D at hE
  cases hE with
  | kept => exact ⟨hcomments ▸ h.commentIds, hD ▸ h.deliveryIds, hD ▸ h.deliveryKeys, hD ▸ h.markers⟩
  | added hid hkey =>
    refine ⟨hcomments ▸ h.commentIds, ?_, ?_, ?_⟩
    · rw [hD]
      exact Table.nodup_insert h.deliveryIds hid
    · rw [hD]
      exact Table.nodup_insert h.deliveryKeys fun d hd heq =>
        hkey d hd (Prod.mk.inj heq)
    · rw [hD]
      intro d hd
      rcases List.mem_append.mp hd with hd | hd
      · exact h.markers d hd
      · rw [List.mem_singleton.mp hd]
        rfl

theorem TableInv.step (h : TableInv s) (hstep : Change P E s a t) : TableInv t := by
  cases hstep with
  | posted | pushed | synced | called => exact ⟨h.1, h.2, h.3, h.4⟩
  | stored _ _ hid => exact ⟨Table.nodup_insert h.commentIds hid, h.2, h.3, h.4⟩
  | ensured _ hE => exact h.ensured hE rfl rfl
  | caughtUp hE => exact h.ensured hE rfl rfl
  | claimed => exact h.update (claim_keeps _) rfl rfl
  | skipped => exact h.update skip_keeps rfl rfl
  | released _ hf => exact h.update hf rfl rfl

structure Grows (s t : CommentState) : Prop where
  provider : ∀ c ∈ s.provider, c ∈ t.provider
  comments : ∀ r ∈ s.comments, r ∈ t.comments
  deliveries : ∀ d ∈ s.deliveries, ∃ e ∈ t.deliveries, e.identity = d.identity

theorem updated_identity (hf : KeepsIdentity f)
    (hd : d ∈ deliveries) : ∃ e ∈ Table.update p f deliveries, e.identity = d.identity := by
  by_cases hp : p d = true
  · exact ⟨f d, Table.mem_update.mpr (.inl ⟨d, hd, hp, rfl⟩), hf.identity d⟩
  · exact ⟨d, Table.mem_update_of_not hd (by simpa using hp), rfl⟩

theorem Ensured.grows (hE : Ensured s deliveries) (hd : d ∈ s.deliveries) : d ∈ deliveries := by
  cases hE with
  | kept => exact hd
  | added => exact List.mem_append_left _ hd

theorem Grows.step (hstep : Change P E s a t) : Grows s t := by
  have hsame : ∀ d ∈ s.deliveries, ∃ e ∈ s.deliveries, e.identity = d.identity :=
    fun d hd => ⟨d, hd, rfl⟩
  cases hstep with
  | posted => exact ⟨fun c hc => List.mem_append_left _ hc, fun r hr => hr, hsame⟩
  | pushed => exact ⟨fun c hc => List.mem_append_left _ hc, fun r hr => hr, hsame⟩
  | synced => exact ⟨fun c hc => hc, fun r hr => hr, hsame⟩
  | called => exact ⟨fun c hc => hc, fun r hr => hr, hsame⟩
  | stored => exact ⟨fun c hc => hc, fun r hr => List.mem_append_left _ hr, hsame⟩
  | ensured _ hE => exact ⟨fun c hc => hc, fun r hr => hr, fun d hd => ⟨d, hE.grows hd, rfl⟩⟩
  | caughtUp hE => exact ⟨fun c hc => hc, fun r hr => hr, fun d hd => ⟨d, hE.grows hd, rfl⟩⟩
  | claimed =>
    exact ⟨fun c hc => hc, fun r hr => hr, fun d hd => updated_identity (claim_keeps _) hd⟩
  | skipped => exact ⟨fun c hc => hc, fun r hr => hr, fun d hd => updated_identity skip_keeps hd⟩
  | released _ hf => exact ⟨fun c hc => hc, fun r hr => hr, fun d hd => updated_identity hf hd⟩

theorem Stored.grow {c : ProviderComment} (h : Stored E s c) (hst : Grows s t) : Stored E t c := by
  obtain ⟨r, hr, heq⟩ := h
  exact ⟨r, hst.comments r hr, heq⟩

def CopyOf (E : Side → Endpoint) (s : CommentState) (id : Uuid) (c : ProviderComment) : Prop :=
  ∃ d ∈ s.deliveries, d.id = id ∧ ∃ r ∈ s.comments, r.id = d.commentId ∧
    ∃ receipt, c = writtenComment E d r receipt

theorem writtenComment_identity {e : CommentDelivery} (h : e.identity = d.identity)
    (r : PublicComment) (receipt : Receipt) :
    writtenComment E e r receipt = writtenComment E d r receipt := by
  simp only [CommentDelivery.identity, Prod.mk.injEq] at h
  simp only [writtenComment, h.1, h.2.2.1, h.2.2.2]

theorem CopyOf.grow {c : ProviderComment} (h : CopyOf E s id c) (hst : Grows s t) : CopyOf E t id c := by
  obtain ⟨d, hd, hid, r, hr, hcomment, receipt, rfl⟩ := h
  obtain ⟨e, he, hident⟩ := hst.deliveries d hd
  have hcols := hident
  simp only [CommentDelivery.identity, Prod.mk.injEq] at hcols
  exact ⟨e, he, hcols.1.trans hid, r, hst.comments r hr, hcomment.trans hcols.2.1.symm, receipt,
    (writtenComment_identity hident r receipt).symm⟩

/-- The comments of a connector are known by their ids; the rows are those
of people's comments, and every other comment is the copy of a delivery. -/
structure ProviderInv (E : Side → Endpoint) (s : CommentState) : Prop where
  ids : (s.provider.map fun c => ((E c.twin).connectorId, c.id)).Nodup
  rows : ∀ r ∈ s.comments, ∃ c ∈ s.provider, c.writtenBy = none ∧
    r = insertedComment E c.twin r.id (external E c)
  copies : ∀ c ∈ s.provider, ∀ id, c.writtenBy = some id → CopyOf E s id c

theorem not_taken {id : Text} (h : idTaken E s twin id = false) :
    ∀ c ∈ s.provider, ((E c.twin).connectorId, c.id) ≠ ((E twin).connectorId, id) := by
  intro c hc heq
  obtain ⟨hconn, hid⟩ := Prod.mk.inj heq
  simp only [idTaken, List.any_eq_false, Bool.and_eq_true, beq_iff_eq] at h
  exact h c hc ⟨hconn, hid⟩

theorem ProviderInv.row_of_key (h : ProviderInv E s) (hr : r ∈ s.comments)
    {c : ProviderComment} (hc : c ∈ s.provider) (htwin : c.twin = twin)
    (hkey : storedAs E twin c.id r = true) :
    c.writtenBy = none ∧ r = insertedComment E c.twin r.id (external E c) := by
  obtain ⟨c', hc', hperson, hrow⟩ := h.rows r hr
  rw [storedAs, Bool.and_eq_true, beq_iff_eq, beq_iff_eq, hrow] at hkey
  have hsame : c' = c := Table.eq_of_key h.ids hc' hc
    (Prod.ext (hkey.1.trans (congrArg (fun k => (E k).connectorId) htwin.symm)) hkey.2)
  subst hsame
  exact ⟨hperson, hrow⟩

theorem ProviderInv.noBounce (h : ProviderInv E s) : NoBounce E s :=
  fun _ hr _ hc hkey => (h.row_of_key hr hc rfl hkey).1

theorem ProviderInv.append (h : ProviderInv E s) {c : ProviderComment}
    (hfree : idTaken E s c.twin c.id = false) (hcomments : t.comments = s.comments)
    (hprovider : t.provider = s.provider ++ [c]) (hst : Grows s t)
    (hcopy : ∀ id, c.writtenBy = some id → CopyOf E t id c) : ProviderInv E t := by
  refine ⟨?_, ?_, ?_⟩
  · rw [hprovider]
    exact Table.nodup_insert h.ids (not_taken hfree)
  · intro r hr
    obtain ⟨c', hc', hrow⟩ := h.rows r (hcomments ▸ hr)
    exact ⟨c', hst.provider c' hc', hrow⟩
  · intro c' hc' id hid
    rw [hprovider, List.mem_append, List.mem_singleton] at hc'
    rcases hc' with hc' | rfl
    · exact (h.copies c' hc' id hid).grow hst
    · exact hcopy id hid

theorem ProviderInv.same (h : ProviderInv E s) (hprovider : t.provider = s.provider)
    (hcomments : t.comments = s.comments) (hst : Grows s t) : ProviderInv E t := by
  refine ⟨hprovider ▸ h.ids, ?_, ?_⟩
  · intro r hr
    obtain ⟨c, hc, hrow⟩ := h.rows r (hcomments ▸ hr)
    exact ⟨c, hst.provider c hc, hrow⟩
  · intro c hc id hid
    exact (h.copies c (hprovider ▸ hc) id hid).grow hst

theorem originMarker_writtenComment (hd : d.marker = uuidText d.id) (r : PublicComment) (receipt : Receipt) :
    (external E (writtenComment E d r receipt)).originMarker =
      (quotedMarker r).or (some d.marker) := by
  have hmarker : lowerText d.marker = uuidText d.id := by rw [hd, lowerText_uuidText]
  calc (external E (writtenComment E d r receipt)).originMarker
      = commentMarker (readBody (writeBody (E d.targetTwin).provider
          (transferredCommentBody r.body r.originalAuthorId r.originalAuthorName r.sourceSystem
            (uuidText d.id)))) := by rw [← hmarker]; rfl
    _ = (quotedMarker r).or (some d.marker) := by
        rw [commentMarker_readBody, commentMarker_transferred, ← hd]
        rfl

theorem isEcho_of_marker (h : TableInv s) {c : ExternalPublicComment}
    (hd : d ∈ s.deliveries) (htwin : d.targetTwin = twin)
    (hmarker : c.originMarker = some d.marker) : isEcho s twin c = true := by
  have hlower : lowerText d.marker = d.marker := by rw [h.markers d hd, lowerText_uuidText]
  rw [isEcho, hmarker]
  exact List.any_eq_true.mpr ⟨d, hd, by simp [htwin, hlower]⟩

theorem isEcho_copy (h : TableInv s) {c : ProviderComment} (hcopy : CopyOf E s id c)
    (hwritten : c.writtenBy = some id) (hcond : UnquotedAt s c.twin (external E c)) :
    isEcho s c.twin (external E c) = true := by
  obtain ⟨d, hd, rfl, r, hr, hcomment, receipt, rfl⟩ := hcopy
  have hmarker := originMarker_writtenComment (E := E) (h.markers d hd) r receipt
  cases hq : quotedMarker r with
  | none =>
    rw [hq, Option.none_or] at hmarker
    exact isEcho_of_marker h hd rfl hmarker
  | some m =>
    rw [hq, Option.some_or] at hmarker
    have hcond : ∀ d' r', deliveryRow s d.id = some (d', r') → ∀ m, quotedMarker r' = some m →
        ∃ e ∈ s.deliveries, e.targetTwin = d.targetTwin ∧ e.marker = m := hcond
    obtain ⟨e, he, htwin, rfl⟩ := hcond d r (h.deliveryRow hd hr hcomment) m hq
    exact isEcho_of_marker h he htwin hmarker

theorem not_isEcho_person {c : ExternalPublicComment}
    (hperson : c.writtenBy = none) (hcond : UnquotedAt s twin c) : isEcho s twin c = false := by
  rw [UnquotedAt, hperson] at hcond
  cases hm : c.originMarker with
  | none => rw [isEcho, hm]
  | some m =>
    rw [isEcho, hm, List.any_eq_false]
    intro d hd hmatch
    rw [Bool.and_eq_true, beq_iff_eq, beq_iff_eq] at hmatch
    refine hcond d hd hmatch.1 ?_
    rw [hm, Option.map_some, hmatch.2]

/-! ## The syncs -/

def SyncPhase.waiting : SyncPhase → List ExternalPublicComment
  | .stopped => []
  | .checking rest => rest
  | .storing c rest => c :: rest
  | .ensuring _ rest => rest

/-- What a sync has read is at its twin, what it stores is a person's, and
what it has passed over is stored. -/
structure SyncInv (P : Platform) (E : Side → Endpoint) (s : CommentState) (sync : CommentSync) :
    Prop where
  seen : ∀ c ∈ sync.seen, c ∈ s.provider ∧ c.twin = sync.twin
  read : ∀ x ∈ sync.phase.waiting, ∃ c ∈ s.provider, c.twin = sync.twin ∧ x = external E c
  person : ∀ x rest, sync.phase = .storing x rest → x.writtenBy = none
  stored : sync.phase ≠ .stopped → ∀ c ∈ sync.seen, Sendable P E c →
    Stored E s c ∨ external E c ∈ sync.phase.waiting

theorem SyncInv.grow {sync : CommentSync} (h : SyncInv P E s sync) (hst : Grows s t) :
    SyncInv P E t sync := by
  refine ⟨?_, ?_, h.person, ?_⟩
  · intro c hc
    exact ⟨hst.provider c (h.seen c hc).1, (h.seen c hc).2⟩
  · intro x hx
    obtain ⟨c, hc, hx⟩ := h.read x hx
    exact ⟨c, hst.provider c hc, hx⟩
  · intro hphase c hc hsend
    exact (h.stored hphase c hc hsend).imp_left (·.grow hst)

theorem SyncInv.advance {sync : CommentSync} (h : SyncInv P E s sync) {phase : SyncPhase}
    (hperson : ∀ x rest, phase ≠ .storing x rest) (hstarted : sync.phase ≠ .stopped)
    (hwaiting : ∀ x ∈ phase.waiting, x ∈ sync.phase.waiting)
    (hdone : ∀ c ∈ sync.seen, Sendable P E c → external E c ∈ sync.phase.waiting →
      Stored E s c ∨ external E c ∈ phase.waiting) :
    SyncInv P E s { sync with phase := phase } := by
  refine ⟨h.seen, fun x hx => h.read x (hwaiting x hx), ?_, ?_⟩
  · intro x rest hphase
    exact absurd hphase (hperson x rest)
  · intro _ c hc hsend
    rcases h.stored hstarted c hc hsend with hstored | hwait
    · exact .inl hstored
    · exact hdone c hc hsend hwait

theorem mem_fetchPublicComments {provider : Provider} {comments : List ProviderComment}
    {x : ExternalPublicComment} (h : x ∈ fetchPublicComments provider comments) :
    ∃ c ∈ comments, c.isPublic = true ∧ x = toExternal provider c := by
  obtain ⟨c, hc, rfl⟩ := List.mem_map.mp h
  obtain ⟨hc, hpublic⟩ := List.mem_filter.mp hc
  refine ⟨c, ?_, hpublic, rfl⟩
  have hlisted := List.mem_of_mem_take hc
  cases provider with
  | jira => exact hlisted
  | servicenow => exact List.mem_of_mem_filter hlisted

theorem mem_commentsOf {c : ProviderComment} : c ∈ commentsOf s twin ↔ c ∈ s.provider ∧ c.twin = twin := by
  rw [commentsOf, List.mem_filter, beq_iff_eq]

theorem withinLimit_of_length (h : s.provider.length ≤ commentLimit) {c : ProviderComment}
    (hc : c ∈ s.provider) (hpublic : c.isPublic = true) : WithinLimit E s c := by
  have hof : (commentsOf s c.twin).length ≤ commentLimit :=
    (List.length_filter_le _ _).trans h
  have hmem : c ∈ commentsOf s c.twin := mem_commentsOf.mpr ⟨hc, rfl⟩
  rw [WithinLimit]
  cases (E c.twin).provider with
  | jira =>
    rw [listed, List.take_of_length_le hof]
    exact hmem
  | servicenow =>
    rw [listed, List.take_of_length_le ((List.length_filter_le _ _).trans hof)]
    exact List.mem_filter.mpr ⟨hmem, hpublic⟩

theorem SyncInv.fetched (hcond : Unquoted P E s (.fetch k twin)) : SyncInv P E s ⟨twin, commentsOf s twin,
      .checking (fetchPublicComments (E twin).provider (commentsOf s twin))⟩ := by
  refine ⟨fun c hc => mem_commentsOf.mp hc, ?_, nofun, ?_⟩
  · intro x hx
    obtain ⟨c, hc, -, rfl⟩ := mem_fetchPublicComments hx
    obtain ⟨hmem, rfl⟩ := mem_commentsOf.mp hc
    exact ⟨c, hmem, rfl, rfl⟩
  · intro _ c hc hsend
    obtain ⟨hmem, rfl⟩ := mem_commentsOf.mp hc
    have hlimit : WithinLimit E s c := hcond c hmem rfl hsend
    exact .inr (List.mem_map.mpr ⟨c, List.mem_filter.mpr ⟨hlimit, hsend.isPublic⟩, rfl⟩)

theorem SyncInv.move {sync : CommentSync} (h : SyncInv P E s (s.syncs k))
    (htables : TableInv s) (htwins : ProviderInv E s) (hcond : Unquoted P E s a)
    (hmove : SyncMove P E s a k sync) : SyncInv P E s sync := by
  cases hmove with
  | stopped => exact ⟨h.seen, nofun, nofun, fun hphase => absurd rfl hphase⟩
  | fetched ha =>
    subst ha
    exact SyncInv.fetched hcond
  | @dropped x rest ha hphase hdrop =>
    subst ha
    refine h.advance nofun (by rw [hphase]; nofun) ?_ ?_
    · intro y hy
      rw [hphase]
      exact List.mem_cons_of_mem x hy
    · intro c hc hsend hwait
      rw [hphase] at hwait
      rcases List.mem_cons.mp hwait with rfl | hwait
      · -- a person's comment that is permitted is not passed over
        obtain ⟨_, htwin⟩ := h.seen c hc
        have hpermitted := htwin ▸ hsend.permitted
        have hquiet := hcond _ rest hphase hpermitted
        rw [hpermitted, not_isEcho_person hsend.person hquiet] at hdrop
        simp at hdrop
      · exact .inr hwait
  | @passed x rest ha hphase hpermitted hnew =>
    subst ha
    refine ⟨h.seen, fun y hy => h.read y (by rw [hphase]; exact hy), ?_, ?_⟩
    · rintro y rest' heq
      obtain ⟨rfl, rfl⟩ := SyncPhase.storing.inj heq
      cases hwritten : x.writtenBy with
      | none => rfl
      | some id =>
        -- a copy would have been recognized
        obtain ⟨c, hc, htwin, rfl⟩ := h.read x (by rw [hphase]; exact List.mem_cons_self)
        have hcond : UnquotedAt s c.twin (external E c) :=
          htwin ▸ hcond _ rest hphase hpermitted
        rw [← htwin, isEcho_copy htables (htwins.copies c hc id hwritten) hwritten hcond] at hnew
        cases hnew
    · intro _ c hc hsend
      have hstored := h.stored (by rw [hphase]; nofun) c hc hsend
      rwa [hphase] at hstored
  | @found x rest row hphase hrow hkey =>
    refine h.advance nofun (by rw [hphase]; nofun) ?_ ?_
    · intro y hy
      rw [hphase]
      exact List.mem_cons_of_mem x hy
    · intro c hc _ hwait
      rw [hphase] at hwait
      rcases List.mem_cons.mp hwait with rfl | hwait
      · obtain ⟨hmem, htwin⟩ := h.seen c hc
        exact .inl ⟨row, hrow, (htwins.row_of_key hrow hmem htwin hkey).2⟩
      · exact .inr hwait

theorem SyncInv.inserted {x : ExternalPublicComment} {rest : List ExternalPublicComment}
    (h : SyncInv P E s (s.syncs k)) (hphase : (s.syncs k).phase = .storing x rest)
    (hst : Grows s t) (hrow : insertedComment E (s.syncs k).twin id x ∈ t.comments) :
    SyncInv P E t { s.syncs k with phase := .ensuring id rest } := by
  refine (h.grow hst).advance nofun (by rw [hphase]; nofun) ?_ ?_
  · intro y hy
    rw [hphase]
    exact List.mem_cons_of_mem x hy
  · intro c hc _ hwait
    rw [hphase] at hwait
    rcases List.mem_cons.mp hwait with rfl | hwait
    · rw [← (h.seen c hc).2] at hrow
      exact .inl ⟨_, hrow, rfl⟩
    · exact .inr hwait

theorem SyncInv.step (h : ∀ k, SyncInv P E s (s.syncs k)) (htables : TableInv s)
    (htwins : ProviderInv E s) (hcond : Unquoted P E s a) (hstep : Change P E s a t) :
    ∀ k, SyncInv P E t (t.syncs k) := by
  have hst := Grows.step hstep
  intro j
  cases hstep with
  | posted | pushed | caughtUp | claimed | skipped | called | released => exact (h j).grow hst
  | @synced k sync hmove =>
    by_cases hj : j = k
    · subst hj
      simp only [setAt_same]
      exact ((h j).move htables htwins hcond hmove).grow hst
    · simp only [setAt_other _ _ hj]
      exact (h j).grow hst
  | @stored k x rest id hphase =>
    by_cases hj : j = k
    · subst hj
      simp only [CommentState.setSync, setAt_same]
      exact (h j).inserted hphase hst (List.mem_append_right _ (List.mem_singleton_self _))
    · simp only [CommentState.setSync, setAt_other _ _ hj]
      exact (h j).grow hst
  | @ensured k commentId rest _ hphase =>
    by_cases hj : j = k
    · subst hj
      simp only [CommentState.setSync, setAt_same]
      refine ((h j).grow hst).advance (by rintro _ _ ⟨⟩) (by rw [hphase]; rintro ⟨⟩) ?_ ?_
      · intro y hy
        rw [hphase]
        exact hy
      · intro c _ _ hwait
        rw [hphase] at hwait
        exact .inr hwait
    · simp only [CommentState.setSync, setAt_other _ _ hj]
      exact (h j).grow hst

theorem ProviderInv.step (h : ProviderInv E s) (hsyncs : ∀ k, SyncInv P E s (s.syncs k))
    (hstep : Change P E s a t) : ProviderInv E t := by
  have hst := Grows.step hstep
  cases hstep with
  | posted hperson hfree =>
    refine h.append hfree rfl rfl hst ?_
    intro id hid
    rw [hperson] at hid
    cases hid
  | @pushed c id d r receipt next hcall hrow hfree =>
    obtain ⟨hd, rfl, hr, hcomment⟩ := deliveryRow_some hrow
    refine h.append hfree rfl rfl hst ?_
    intro id' hid
    obtain rfl : d.id = id' := Option.some.inj hid
    exact CopyOf.grow (s := s) ⟨d, hd, rfl, r, hr, hcomment, receipt, rfl⟩ hst
  | synced | ensured | caughtUp | claimed | skipped | called | released => exact h.same rfl rfl hst
  | @stored k x rest id hphase _ _ =>
    refine ⟨h.ids, ?_, fun c hc id' hid => (h.copies c hc id' hid).grow hst⟩
    intro r hr
    rcases List.mem_append.mp hr with hr | hr
    · exact h.rows r hr
    · rw [List.mem_singleton] at hr
      subst hr
      obtain ⟨c, hc, htwin, rfl⟩ := (hsyncs k).read x (by rw [hphase]; exact List.mem_cons_self)
      exact ⟨c, hc, (hsyncs k).person _ rest hphase, by rw [htwin]; rfl⟩

/-! ## The workers -/

/-- The claim of a running call is in its row. -/
def ClaimedBy (s : CommentState) (c : Nat) (id : Uuid) : Prop :=
  ∃ d ∈ s.deliveries, d.id = id ∧ d.claimedBy = some c ∧
    (d.status = .processing ∨ d.status = .skipped)

/-- A running call holds its delivery, no delivery has two copies, and a
call that is about to write one writes the first. -/
structure CallInv (s : CommentState) : Prop where
  held : ∀ c id, (s.calls c).holds = some id → ClaimedBy s c id
  once : s.provider.Pairwise fun x y => ∀ id, x.writtenBy = some id → y.writtenBy ≠ some id
  unwritten : ∀ c id, s.calls c = .looked id → ∀ x ∈ s.provider, x.writtenBy ≠ some id

theorem ClaimedBy.holder_eq (h : TableInv s) {c' : Nat} (hc : ClaimedBy s c id)
    (hc' : ClaimedBy s c' id) : c = c' := by
  obtain ⟨d, hd, hid, hclaim, -⟩ := hc
  obtain ⟨d', hd', hid', hclaim', -⟩ := hc'
  have hsame : d = d' := Table.eq_of_key h.deliveryIds hd hd' (hid.trans hid'.symm)
  rw [← hsame, hclaim] at hclaim'
  exact Option.some.inj hclaim'

theorem ClaimedBy.same (h : ClaimedBy s c id)
    (hdeliveries : ∀ d ∈ s.deliveries, d ∈ t.deliveries) : ClaimedBy t c id := by
  obtain ⟨d, hd, hrest⟩ := h
  exact ⟨d, hdeliveries d hd, hrest⟩

theorem ClaimedBy.update (h : ClaimedBy s c id)
    (hp : ∀ d ∈ s.deliveries, d.id = id → d.claimedBy = some c → p d = false)
    (ht : t.deliveries = Table.update p f s.deliveries) : ClaimedBy t c id := by
  obtain ⟨d, hd, hid, hclaim, hstatus⟩ := h
  exact ⟨d, ht ▸ Table.mem_update_of_not hd (hp d hd hid hclaim), hid, hclaim, hstatus⟩

theorem ClaimedBy.skipped {id' : Uuid} (h : ClaimedBy s c id) (ht : t.deliveries =
      Table.update (·.id == id') ({ · with status := .skipped }) s.deliveries) :
    ClaimedBy t c id := by
  obtain ⟨d, hd, hid, hclaim, hstatus⟩ := h
  by_cases hmatch : d.id = id'
  · exact ⟨{ d with status := .skipped },
      ht ▸ Table.mem_update.mpr (.inl ⟨d, hd, by simpa using hmatch, rfl⟩), hid, hclaim, .inr rfl⟩
  · exact ⟨d, ht ▸ Table.mem_update_of_not hd (by simpa using hmatch), hid, hclaim, hstatus⟩

theorem not_held_of_claimable (h : TableInv s)
    (hrow : deliveryRow s id = some (d, r)) (hclaim : claimable s d = true)
    (hheld : ClaimedBy s c id) (hruns : (s.calls c).holds = some id) : False := by
  obtain ⟨hd, hid, -, -⟩ := deliveryRow_some hrow
  obtain ⟨e, he, heid, hclaimed, hstatus⟩ := hheld
  have hsame : d = e := Table.eq_of_key h.deliveryIds hd he (hid.trans heid.symm)
  subst hsame
  rcases hstatus with hstatus | hstatus
  · simp only [claimable, hstatus, hclaimed, hruns] at hclaim
    cases hclaim
  · simp only [claimable, hstatus] at hclaim
    cases hclaim

theorem findMarker_copy (h : TableInv s) (htwins : ProviderInv E s) (hrow : deliveryRow s id = some (d, r))
    (hcond : Recoverable E s d r) (hx : x ∈ s.provider)
    (hwritten : x.writtenBy = some id) :
    findMarker (fetchPublicComments (E d.targetTwin).provider (commentsOf s d.targetTwin))
      d.marker ≠ none := by
  obtain ⟨hd, rfl, hr, hcomment⟩ := deliveryRow_some hrow
  obtain ⟨d', hd', hid, r', hr', hcomment', receipt, rfl⟩ := htwins.copies x hx d.id hwritten
  obtain rfl : d' = d := Table.eq_of_key h.deliveryIds hd' hd hid
  obtain rfl : r' = r :=
    Table.eq_of_key h.commentIds hr' hr (hcomment'.trans hcomment.symm)
  obtain ⟨hlimit, hquoted⟩ := hcond _ hx hwritten
  have hmarker : (external E (writtenComment E d' r' receipt)).originMarker = some d'.marker := by
    rw [originMarker_writtenComment (h.markers d' hd)]
    rcases hquoted with hq | hq <;> rw [hq] <;> rfl
  have hfetched : external E (writtenComment E d' r' receipt) ∈
      fetchPublicComments (E d'.targetTwin).provider (commentsOf s d'.targetTwin) :=
    List.mem_map.mpr ⟨_, List.mem_filter.mpr ⟨hlimit, rfl⟩, rfl⟩
  intro hnone
  have hno := List.find?_eq_none.mp hnone _ hfetched
  rw [hmarker] at hno
  simp at hno

theorem CallInv.once_append (h : CallInv s)
    (hnew : ∀ y ∈ s.provider, ∀ id, y.writtenBy = some id → x.writtenBy ≠ some id) :
    (s.provider ++ [x]).Pairwise fun y z => ∀ id, y.writtenBy = some id → z.writtenBy ≠ some id := by
  rw [List.pairwise_append]
  refine ⟨h.once, List.pairwise_singleton _ _, ?_⟩
  intro y hy z hz
  rw [List.mem_singleton.mp hz]
  exact hnew y hy

theorem CallInv.posted (h : CallInv s) (hperson : x.writtenBy = none)
    (hcalls : t.calls = s.calls) (hdeliveries : t.deliveries = s.deliveries)
    (hprovider : t.provider = s.provider ++ [x]) : CallInv t := by
  refine ⟨?_, ?_, ?_⟩
  · intro c id hc
    rw [hcalls] at hc
    exact (h.held c id hc).same fun d hd => hdeliveries ▸ hd
  · rw [hprovider]
    exact h.once_append fun y _ id _ => by rw [hperson]; nofun
  · intro c id hc y hy
    rw [hcalls] at hc
    rw [hprovider, List.mem_append, List.mem_singleton] at hy
    rcases hy with hy | rfl
    · exact h.unwritten c id hc y hy
    · rw [hperson]
      nofun

theorem CallInv.pushed (h : CallInv s) (htables : TableInv s) {next : DeliveryCall} (hcall : s.calls c = .looked id)
    (hnext : next.holds = some id ∧ ∀ y, next ≠ .looked y) (hx : x.writtenBy = some id)
    (hcalls : t.calls = setAt s.calls c next) (hdeliveries : t.deliveries = s.deliveries)
    (hprovider : t.provider = s.provider ++ [x]) : CallInv t := by
  have hheld : (s.calls c).holds = some id := by rw [hcall]; rfl
  refine ⟨?_, ?_, ?_⟩
  · intro c' id' hc'
    have hbefore : (s.calls c').holds = some id' := by
      by_cases heq : c' = c
      · subst heq
        rw [hcalls, setAt_same, hnext.1] at hc'
        rw [hheld, hc']
      · rwa [hcalls, setAt_other _ _ heq] at hc'
    exact (h.held c' id' hbefore).same fun d hd => hdeliveries ▸ hd
  · rw [hprovider]
    refine h.once_append fun y hy id' hid' heq => ?_
    rw [hx] at heq
    exact h.unwritten c id hcall y hy (heq ▸ hid')
  · intro c' id' hc' y hy
    by_cases heq : c' = c
    · subst heq
      rw [hcalls, setAt_same] at hc'
      exact absurd hc' (hnext.2 id')
    · rw [hcalls, setAt_other _ _ heq] at hc'
      rw [hprovider, List.mem_append, List.mem_singleton] at hy
      rcases hy with hy | rfl
      · exact h.unwritten c' id' hc' y hy
      · -- no two running calls hold the same delivery
        rintro hid
        obtain rfl : id = id' := Option.some.inj (hx.symm.trans hid)
        exact heq ((h.held c' id (by rw [hc']; rfl)).holder_eq htables (h.held c id hheld))

theorem CallInv.kept (h : CallInv s) (hcalls : t.calls = s.calls)
    (hprovider : t.provider = s.provider)
    (hheld : ∀ c id, ClaimedBy s c id → ClaimedBy t c id) : CallInv t :=
  ⟨fun c id hc => hheld c id (h.held c id (hcalls ▸ hc)), hprovider ▸ h.once,
    fun c id hc x hx => h.unwritten c id (hcalls ▸ hc) x (hprovider ▸ hx)⟩

theorem CallInv.moved (h : CallInv s) {call : DeliveryCall}
    (hcalls : t.calls = setAt s.calls c call) (hprovider : t.provider = s.provider)
    (hheld : ∀ id, call.holds = some id → ClaimedBy t c id)
    (hothers : ∀ c' id, c' ≠ c → (s.calls c').holds = some id → ClaimedBy t c' id)
    (hlooked : ∀ id, call = .looked id → ∀ x ∈ s.provider, x.writtenBy ≠ some id) : CallInv t := by
  refine ⟨?_, hprovider ▸ h.once, ?_⟩
  · intro c' id hc'
    by_cases heq : c' = c
    · subst heq
      rw [hcalls, setAt_same] at hc'
      exact hheld id hc'
    · rw [hcalls, setAt_other _ _ heq] at hc'
      exact hothers c' id heq hc'
  · intro c' id hc' x hx
    rw [hprovider] at hx
    by_cases heq : c' = c
    · subst heq
      rw [hcalls, setAt_same] at hc'
      exact hlooked id hc' x hx
    · rw [hcalls, setAt_other _ _ heq] at hc'
      exact h.unwritten c' id hc' x hx

theorem CallInv.claimed (h : CallInv s) (htables : TableInv s) (hrow : deliveryRow s id = some (d, r))
    (hclaim : claimable s d = true) (hcalls : t.calls = setAt s.calls c (.claimed id))
    (hprovider : t.provider = s.provider)
    (hdeliveries : t.deliveries = Table.update (·.id == id) (·.claim c) s.deliveries) :
    CallInv t := by
  refine h.moved hcalls hprovider ?_ ?_ nofun
  · rintro id' hid
    obtain rfl : id = id' := Option.some.inj hid
    obtain ⟨hd, hdid, -, -⟩ := deliveryRow_some hrow
    exact ⟨d.claim c, hdeliveries ▸ Table.mem_update.mpr (.inl ⟨d, hd, by simpa using hdid, rfl⟩),
      hdid, rfl, .inl rfl⟩
  · intro c' id' _ hc'
    have hheld := h.held c' id' hc'
    refine hheld.update (fun e he heid _ => ?_) hdeliveries
    rw [beq_eq_false_iff_ne]
    rintro hmatch
    obtain rfl : id' = id := heid.symm.trans hmatch
    exact not_held_of_claimable htables hrow hclaim hheld hc'

theorem CallInv.called (h : CallInv s) (htables : TableInv s) (htwins : ProviderInv E s)
    (hcond : Unquoted P E s a) {call : DeliveryCall} (hmove : CallMove E s a c call) :
    CallInv (s.setCall c call) := by
  have hsame : ∀ c' id, ClaimedBy s c' id → ClaimedBy (s.setCall c call) c' id :=
    fun c' id hc' => hc'.same fun d hd => hd
  refine h.moved rfl rfl ?_ (fun c' id _ hc' => hsame c' id (h.held c' id hc')) ?_
  · intro id hid
    refine hsame c id (h.held c id ?_)
    cases hmove with
    | found hcall =>
      rw [hcall]
      exact hid
    | missed _ hcall =>
      rw [hcall]
      exact hid
    | threw hholds => exact hholds.trans hid
    | crashed => cases hid
  · intro id hlooked x hx hwritten
    cases hmove with
    | found => cases hlooked
    | @missed id' d r ha hcall hrow hnone =>
      subst ha
      obtain rfl := DeliveryCall.looked.inj hlooked
      exact findMarker_copy htables htwins hrow (hcond _ d r hcall hrow) hx hwritten hnone
    | threw => cases hlooked
    | crashed => cases hlooked

theorem CallInv.step (h : CallInv s) (htables : TableInv s) (htwins : ProviderInv E s)
    (hcond : Unquoted P E s a) (hstep : Change P E s a t) : CallInv t := by
  cases hstep with
  | posted hperson => exact h.posted hperson rfl rfl rfl
  | @pushed c id d r receipt next hcall hrow _ hnext =>
    have hid : d.id = id := (deliveryRow_some hrow).2.1
    exact h.pushed htables hcall hnext (congrArg some hid) rfl rfl rfl
  | synced | stored => exact h.kept rfl rfl fun c id hc => hc.same fun d hd => hd
  | ensured _ hE => exact h.kept rfl rfl fun c id hc => hc.same fun d hd => hE.grows hd
  | caughtUp hE => exact h.kept rfl rfl fun c id hc => hc.same fun d hd => hE.grows hd
  | claimed _ hrow hclaim => exact h.claimed htables hrow hclaim rfl rfl rfl
  | skipped => exact h.kept rfl rfl fun c id hc => hc.skipped rfl
  | called hmove => exact h.called htables htwins hcond hmove
  | @released c id f _ _ =>
    refine h.moved rfl rfl nofun ?_ nofun
    intro c' id' hne hc'
    refine (h.held c' id' hc').update (fun d _ _ hclaim => ?_) rfl
    -- the row is that of another holder
    rw [heldBy, hclaim]
    simp [hne]

structure ExchangeInv (P : Platform) (E : Side → Endpoint) (s : CommentState) : Prop where
  tables : TableInv s
  twins : ProviderInv E s
  syncs : ∀ k, SyncInv P E s (s.syncs k)
  calls : CallInv s

theorem ExchangeInv.start : ExchangeInv P E .start where
  tables := ⟨.nil, .nil, .nil, nofun⟩
  twins := ⟨.nil, nofun, nofun⟩
  syncs _ := ⟨nofun, nofun, nofun, fun hphase => absurd rfl hphase⟩
  calls := ⟨nofun, .nil, nofun⟩

theorem ExchangeInv.step (h : ExchangeInv P E s) (hcond : Unquoted P E s a)
    (hstep : commentStep P E s a = some t) : ExchangeInv P E t where
  tables := h.tables.step (.of_step hstep)
  twins := h.twins.step h.syncs (.of_step hstep)
  syncs := SyncInv.step h.syncs h.tables h.twins hcond (.of_step hstep)
  calls := h.calls.step h.tables h.twins hcond (.of_step hstep)

theorem ExchangeInv.writtenOnce (h : ExchangeInv P E s) : WrittenOnce s := by
  intro r _ twin
  refine h.calls.once.imp_of_mem fun {x y} hx hy hdiff => ?_
  rintro ⟨⟨hxtwin, d, hd, hdcomment, hxd⟩, hytwin, e, he, hecomment, hye⟩
  have htarget : ∀ {z : ProviderComment} {f : CommentDelivery}, z ∈ s.provider → z.twin = twin →
      f ∈ s.deliveries → z.writtenBy = some f.id → f.targetTwin = twin := by
    intro z f hz hztwin hf hzf
    obtain ⟨g, hg, hgid, _, _, _, _, rfl⟩ := h.twins.copies z hz f.id hzf
    rw [← Table.eq_of_key h.tables.deliveryIds hg hf hgid]
    exact hztwin
  have hsame : d = e := Table.eq_of_key h.tables.deliveryKeys hd he
    (Prod.ext (hdcomment.trans hecomment.symm)
      ((htarget hx hxtwin hd hxd).trans (htarget hy hytwin he hye).symm))
  exact hdiff d.id hxd (hsame ▸ hye)

theorem ExchangeInv.allStored (h : ExchangeInv P E s) : AllStored P E s := by
  intro k hphase c hc hsend
  have hstored := (h.syncs k).stored (by rw [hphase]; nofun) c hc hsend
  rw [hphase] at hstored
  exact hstored.resolve_right List.not_mem_nil

/-- In every run whose reads get all that matters and meet no misleading
marker, copies never become source comments, nothing is written twice, and
every permitted comment of a person is stored. -/
theorem comments_neither_bounce_nor_drop (as : List CommentAction)
    (hcond : (commentSystem P E).Along (Unquoted P E) .start as)
    (hrun : (commentSystem P E).run .start as = some t) :
    NoBounce E t ∧ WrittenOnce t ∧ AllStored P E t := by
  have hinv : ExchangeInv P E t :=
    (commentSystem P E).along_invariant (fun hs hC hstep => hs.step hC hstep) .start hcond hrun
  exact ⟨hinv.twins.noBounce, hinv.writtenOnce, hinv.allStored⟩

end

/-! ## Quoted markers -/

def openPolicy : CommentSyncPolicy := ⟨true, .bidirectional, [], []⟩

/-- A Jira issue and a ServiceNow incident, both read and written. -/
def issueAndIncident : Side → Endpoint
  | .left => ⟨1, .jira, openPolicy, "acct-sync".toList, "Cadena".toList⟩
  | .right => ⟨2, .servicenow, openPolicy, "svc.cadena".toList, "Cadena".toList⟩

/-- A person's comment on the issue. -/
def issueComment (body : Text) : ProviderComment :=
  ⟨.left, "10".toList, .document (.plain body), "acct-1".toList, "Jo".toList, some 0, true, none⟩

/-- A person's comment on the incident. -/
def incidentComment (body : Text) : ProviderComment :=
  ⟨.right, "j2".toList, .journal body, "ann".toList, "Ann".toList, some 0, true, none⟩

/-- The comment is stored as row 1 and written to the incident for delivery 2. -/
def transferRun (body : Text) : List CommentAction :=
  [.post (issueComment body), .fetch 0 .left, .check 0, .store 0 1, .ensure 0 2,
   .claim 0 2, .look 0, .push 0 ⟨"j1".toList, 0⟩ "j1".toList]

/-- A marker that no delivery has. -/
def imitatedMarker : Text := markerLine (uuidText 0)

/-- The copy of a comment with an imitated marker is stored as a comment of
the incident, and written again after a crash; a reply that quotes the copy
is not stored. -/
def SyncPhase.checksNothing : SyncPhase → Bool
  | .checking [] => true
  | _ => false

theorem quoted_markers_mislead :
    (¬ ∀ (P : Platform) (E : Side → Endpoint) as t,
        (commentSystem P E).run .start as = some t → NoBounce E t) ∧
      (¬ ∀ (P : Platform) (E : Side → Endpoint) as t,
        (commentSystem P E).run .start as = some t → WrittenOnce t) ∧
      ¬ ∀ (P : Platform) (E : Side → Endpoint) as t,
        (commentSystem P E).run .start as = some t → AllStored P E t := by
  refine ⟨fun hall => ?_, fun hall => ?_, fun hall => ?_⟩
  · have hstored : ((commentSystem .ascii issueAndIncident).run .start (transferRun imitatedMarker ++
          [.fetch 1 .right, .check 1, .store 1 3])).map (fun s => s.comments.any fun r =>
            s.provider.any fun c => storedAs issueAndIncident c.twin c.id r && c.writtenBy.isSome) =
        some true := by
      decide
    obtain ⟨t, hrun, ht⟩ := Option.map_eq_some_iff.mp hstored
    obtain ⟨r, hr, hc⟩ := List.any_eq_true.mp ht
    obtain ⟨c, hc, hmatch⟩ := List.any_eq_true.mp hc
    rw [Bool.and_eq_true] at hmatch
    rw [hall _ _ _ t hrun r hr c hc hmatch.1] at hmatch
    cases hmatch.2
  · have hwritten : ((commentSystem .ascii issueAndIncident).run .start (transferRun imitatedMarker ++
          [.crash 0, .claim 1 2, .look 1, .push 1 ⟨"j3".toList, 0⟩ "j3".toList])).map
          (fun s => (s.provider.map fun c => (c.twin, c.writtenBy), s.comments.map (·.id),
            s.deliveries.map fun d => (d.id, d.commentId))) =
        some ([(.left, none), (.right, some 2), (.right, some 2)], [1], [(2, 1)]) := by
      decide
    obtain ⟨t, hrun, ht⟩ := Option.map_eq_some_iff.mp hwritten
    simp only [Prod.mk.injEq] at ht
    obtain ⟨r, _, hcomments, hr, -⟩ := List.map_eq_cons_iff.mp ht.2.1
    obtain ⟨d, _, hdeliveries, hd, -⟩ := List.map_eq_cons_iff.mp ht.2.2
    have hfor : ∀ c : ProviderComment, (c.twin, c.writtenBy) = (Side.right, some (2 : Uuid)) →
        WrittenFor t r .right c := by
      intro c hc
      obtain ⟨htwin, hby⟩ := Prod.mk.inj hc
      obtain ⟨hid, hcomment⟩ := Prod.mk.inj hd
      exact ⟨htwin, d, by rw [hdeliveries]; exact List.mem_cons_self, hcomment.trans hr.symm,
        hby.trans (congrArg some hid.symm)⟩
    obtain ⟨x, _, hx, -, ht⟩ := List.map_eq_cons_iff.mp ht.1
    obtain ⟨y, _, hy, hyw, ht⟩ := List.map_eq_cons_iff.mp ht
    obtain ⟨z, _, hz, hzw, -⟩ := List.map_eq_cons_iff.mp ht
    have honce := hall _ _ _ t hrun r (by rw [hcomments]; exact List.mem_cons_self) .right
    rw [hx, hy, hz] at honce
    have hyz := (List.pairwise_cons.mp (List.pairwise_cons.mp honce).2).1 z List.mem_cons_self
    exact hyz ⟨hfor y hyw, hfor z hzw⟩
  · have hdropped : ((commentSystem .ascii issueAndIncident).run .start
          (transferRun "Fixed".toList ++ [.post (incidentComment (markerLine (uuidText 2))),
            .fetch 1 .right, .check 1, .check 1])).map (fun s =>
              (s.syncs 1).phase.checksNothing &&
              ((s.syncs 1).seen.any fun c => c.isPublic && c.writtenBy.isNone &&
                permitted .ascii issueAndIncident c.twin (external issueAndIncident c) &&
                s.comments.all fun r => r.providerCommentId != c.id)) = some true := by
      decide
    obtain ⟨t, hrun, ht⟩ := Option.map_eq_some_iff.mp hdropped
    rw [Bool.and_eq_true] at ht
    have hphase : ((t.syncs 1).phase) = .checking [] := by
      revert ht
      cases (t.syncs 1).phase with
      | checking rest => cases rest <;> simp [SyncPhase.checksNothing]
      | _ => simp [SyncPhase.checksNothing]
    obtain ⟨c, hc, hsend⟩ := List.any_eq_true.mp ht.2
    simp only [Bool.and_eq_true, List.all_eq_true, bne_iff_ne] at hsend
    obtain ⟨r, hr, hrow⟩ := hall _ _ _ t hrun 1 hphase c hc
      ⟨hsend.1.1.1, by simpa using hsend.1.1.2, hsend.1.2⟩
    exact hsend.2 r hr (by rw [hrow]; rfl)

/-- The transfer of a comment without a marker. -/
theorem comments_neither_bounce_nor_drop_fixed :
    ∃ t, (commentSystem .ascii issueAndIncident).run .start (transferRun "Fixed".toList) = some t ∧
      t.provider.map (·.writtenBy) = [none, some 2] ∧
      NoBounce issueAndIncident t ∧ WrittenOnce t ∧ AllStored .ascii issueAndIncident t := by
  have hwritten : ((commentSystem .ascii issueAndIncident).run .start
      (transferRun "Fixed".toList)).map (fun s => s.provider.map (·.writtenBy)) =
        some [none, some 2] := by
    decide
  obtain ⟨t, hrun, ht⟩ := Option.map_eq_some_iff.mp hwritten
  refine ⟨t, hrun, ht, comments_neither_bounce_nor_drop _ ?_ hrun⟩
  refine ⟨trivial, fun u₁ h₁ => ⟨?_, fun u₂ h₂ => ⟨?_, fun u₃ h₃ => ⟨trivial, fun u₄ h₄ =>
    ⟨trivial, fun u₅ h₅ => ⟨trivial, fun u₆ h₆ => ⟨?_, fun _ _ => ⟨trivial, fun _ _ => trivial⟩⟩⟩⟩⟩⟩⟩⟩
  · obtain rfl := Option.some.inj h₁
    intro c hc _ hsend
    exact withinLimit_of_length (by decide) hc hsend.isPublic
  · have hread : ((commentSystem .ascii issueAndIncident).run .start
        ((transferRun "Fixed".toList).take 2)).map (fun s =>
          ((s.syncs 0).phase.waiting.map (·.writtenBy), s.deliveries.length)) = some ([none], 0) := by
      decide
    have hbefore : (commentSystem .ascii issueAndIncident).run .start
        ((transferRun "Fixed".toList).take 2) = some u₂ :=
      (System.run_cons _).mpr ⟨u₁, h₁, (System.run_cons _).mpr ⟨u₂, h₂, rfl⟩⟩
    rw [hbefore, Option.map_some, Option.some.injEq, Prod.mk.injEq] at hread
    intro c rest hphase _
    rw [hphase] at hread
    have hperson : c.writtenBy = none := (List.cons.inj hread.1).1
    rw [UnquotedAt, hperson, List.length_eq_zero_iff.mp hread.2]
    nofun
  · have hread : ((commentSystem .ascii issueAndIncident).run .start
        ((transferRun "Fixed".toList).take 6)).map (fun s => s.provider.map (·.writtenBy)) =
          some [none] := by
      decide
    have hbefore : (commentSystem .ascii issueAndIncident).run .start
        ((transferRun "Fixed".toList).take 6) = some u₆ :=
      (System.run_cons _).mpr ⟨u₁, h₁, (System.run_cons _).mpr ⟨u₂, h₂, (System.run_cons _).mpr
        ⟨u₃, h₃, (System.run_cons _).mpr ⟨u₄, h₄, (System.run_cons _).mpr ⟨u₅, h₅,
          (System.run_cons _).mpr ⟨u₆, h₆, rfl⟩⟩⟩⟩⟩⟩
    rw [hbefore, Option.map_some, Option.some.injEq] at hread
    intro _ d r _ _ c hc hwritten
    have hmem := List.mem_map_of_mem (f := (·.writtenBy)) hc
    rw [hread, List.mem_singleton, hwritten] at hmem
    cases hmem

end Cadena.Connectors.Comments
