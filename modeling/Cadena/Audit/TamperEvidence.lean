import Cadena.Audit.BuiltChain

/-!
# Tamper evidence

What `verifyTenantAuditChain` accepts: the tenant's entries are one chain,
and the source row of every entry still has the recorded canonical form.
An entry that is kept pins down every entry before it, in the columns that
the proof covers; the copies of the event's type, work item and time that
an entry carries beside its canonical event are not among them.
-/

namespace Cadena.Audit

open Cadena.Base HashChain

/-! ## What the loop checks -/

def SourceHashes (P : Platform) (tables : SourceTables) (e : IntegrityEntry) : Prop :=
  ∃ current, currentInput tables e = some current ∧
    calculateAuditHash P (orNull e.previousHash) (canonicalAuditEvent current) = e.eventHash

variable {e : IntegrityEntry} {tables : SourceTables} {P : Platform} {orgId : Uuid}

theorem verifyEntry_iff {last : Option String} : verifyEntry P tables last e = true ↔
      (linkOf e).previous = last ∧ (linkOf e).hash = entryHash P (linkOf e).previous (linkOf e).body
        ∧ SourceHashes P tables e ∧ e.proofVersion = AUDIT_PROOF_VERSION := by
  have hhash : calculateAuditHash P (orNull e.previousHash) e.canonicalEvent
      = entryHash P (linkOf e).previous (linkOf e).body := by
    rw [calculateAuditHash_eq, orNull_orNull]
    rfl
  cases hc : currentInput tables e with
  | none => simp [verifyEntry, SourceHashes, hc]
  | some current =>
    simp only [verifyEntry, SourceHashes, hc, hhash, Bool.and_eq_true, beq_iff_eq, and_assoc,
      Option.some.injEq, exists_eq_left']
    exact and_congr Iff.rfl (and_congr eq_comm Iff.rfl)

theorem verifyLoop_valid {rows : List IntegrityEntry} {last : Option String} {valid : Bool} :
    (verifyLoop P tables last valid rows).2 = true ↔
      valid = true ∧ Chained (entryHash P) last (rows.map linkOf) ∧
        ∀ e ∈ rows, SourceHashes P tables e ∧ e.proofVersion = AUDIT_PROOF_VERSION := by
  induction rows generalizing last valid with
  | nil => simp [verifyLoop, Chained]
  | cons e rest ih =>
    show (verifyLoop P tables (some e.eventHash) _ rest).2 = true ↔ _
    rw [ih, Bool.and_eq_true, verifyEntry_iff]
    simp only [List.map_cons, Chained, List.forall_mem_cons]
    constructor
    · rintro ⟨⟨hv, hp, hh, hs, hpv⟩, hrest, hall⟩
      exact ⟨hv, ⟨hp, hh, hrest⟩, ⟨hs, hpv⟩, hall⟩
    · rintro ⟨hv, ⟨hp, hh, hrest⟩, ⟨hs, hpv⟩, hall⟩
      exact ⟨⟨hv, hp, hh, hs, hpv⟩, hrest, hall⟩

/-- The source row still exists, and its canonical form is the recorded one
up to the order of object keys. -/
def SourceUnchanged (tables : SourceTables) (e : IntegrityEntry) : Prop :=
  ∃ current, currentInput tables e = some current ∧
    canon (canonicalAuditEvent current) = canon e.canonicalEvent

theorem sourceHashes_iff (hP : Digest P)
    {rows : List IntegrityEntry} (h : Chained (entryHash P) none (rows.map linkOf))
    (he : e ∈ rows) : SourceHashes P tables e ↔ SourceUnchanged tables e := by
  have hmem : linkOf e ∈ rows.map linkOf := List.mem_map_of_mem he
  have hhash := h.hash_eq hmem
  have hprod := h.previous_produced hmem
  refine exists_congr fun current => and_congr Iff.rfl ?_
  rw [calculateAuditHash_eq, orNull_orNull]
  show entryHash P (linkOf e).previous _ = (linkOf e).hash ↔ _
  rw [hhash, ← stableStringify_inj]
  constructor
  · intro heq
    exact (hP.binding hprod hprod heq).2
  · intro heq
    exact congrArg _ heq

/-- **What verification accepts**, for any tables and any entries. -/
theorem chainVerified_iff (hP : Digest P) {entries : List IntegrityEntry} :
    (verifyTenantAuditChain P tables entries orgId).chainVerified = true ↔
      LinearChain P entries orgId ∧ ∀ e ∈ tenantEntries entries orgId,
        SourceUnchanged tables e ∧ e.proofVersion = AUDIT_PROOF_VERSION := by
  show (verifyLoop P tables none true (tenantEntries entries orgId)).2 = true ↔ _
  rw [verifyLoop_valid]
  constructor
  · rintro ⟨-, hchain, hall⟩
    refine ⟨hchain, fun e he => ⟨?_, (hall e he).2⟩⟩
    exact (sourceHashes_iff hP hchain he).mp (hall e he).1
  · rintro ⟨hchain, hall⟩
    refine ⟨rfl, hchain, fun e he => ⟨?_, (hall e he).2⟩⟩
    exact (sourceHashes_iff hP hchain he).mpr (hall e he).1

theorem Built.chainVerified_iff (hP : Digest P) {store : AuditStore} (h : Built P store) :
    (verifyTenantAuditChain P tables store.entries orgId).chainVerified = true ↔
      ∀ e ∈ store.entries, e.orgId = orgId → SourceUnchanged tables e := by
  have hs := h.sound hP
  rw [Audit.chainVerified_iff hP]
  constructor
  · rintro ⟨-, hall⟩ e he horg
    exact (hall e (mem_tenantEntries.mpr ⟨he, horg⟩)).1
  · intro hall
    refine ⟨(hs orgId).linear, fun e he => ?_⟩
    obtain ⟨hmem, horg⟩ := mem_tenantEntries.mp he
    obtain ⟨input, -, hrow⟩ := (hs orgId).rows e hmem horg
    refine ⟨hall e hmem horg, ?_⟩
    rw [hrow]
    rfl

/-! ## Changed entries -/

/-- Two rows with the same proof: the columns that verification reads, the
canonical event up to the order of object keys. -/
structure SameProof (e e' : IntegrityEntry) : Prop where
  source : e.source = e'.source
  eventId : e.eventId = e'.eventId
  previousHash : orNull e.previousHash = orNull e'.previousHash
  eventHash : e.eventHash = e'.eventHash
  canonicalEvent : canon e.canonicalEvent = canon e'.canonicalEvent
  proofVersion : e.proofVersion = e'.proofVersion

/-- Some entry is kept whose predecessors are no longer the original ones:
one of them was edited, removed, moved or put in. A change to a suffix of
the chain keeps no entry after it. -/
def AlteredBeforeKept (original changed : List IntegrityEntry) : Prop :=
  ∃ (p k : Nat) (e e₀ : IntegrityEntry), changed[p]? = some e ∧ original[k]? = some e₀ ∧
    SameProof e e₀ ∧
    ¬ (p = k ∧ ∀ i < p, ∃ f f₀, changed[i]? = some f ∧ original[i]? = some f₀ ∧ SameProof f f₀)

theorem currentInput_event {current : IntegrityEventInput} (h : currentInput tables e = some current) :
    current.source.text = e.source ∧ current.eventId = e.eventId := by
  unfold currentInput at h
  split at h
  · rename_i hs
    obtain ⟨row, hrow, rfl⟩ := Option.map_eq_some_iff.mp h
    have hid : row.eventId = e.eventId := by simpa using List.find?_some hrow
    exact ⟨hs.symm, hid⟩
  · split at h
    · rename_i hs
      obtain ⟨row, hrow, rfl⟩ := Option.map_eq_some_iff.mp h
      have hid : row.id = e.eventId := by simpa using List.find?_some hrow
      exact ⟨hs.symm, hid⟩
    · cases h

theorem sameProof_of_link {e₀ : IntegrityEntry} (hlink : linkOf e = linkOf e₀) (hsrc : SourceUnchanged tables e)
    (hpv : e.proofVersion = AUDIT_PROOF_VERSION)
    (hrow : ∃ input, input.orgId = some orgId ∧
      e₀ = entryRow P input orgId e₀.previousHash e₀.sequence) : SameProof e e₀ := by
  obtain ⟨current, hcur, hcanon⟩ := hsrc
  obtain ⟨input, -, hrow⟩ := hrow
  have hbody : canon e.canonicalEvent = canon e₀.canonicalEvent :=
    stableStringify_inj.mp (congrArg Link.body hlink)
  have hevent : canon (canonicalAuditEvent current) = canon (canonicalAuditEvent input) := by
    rw [hcanon, hbody, hrow]
    rfl
  obtain ⟨hs, hid⟩ := canonicalAuditEvent_event hevent
  obtain ⟨hcs, hcid⟩ := currentInput_event hcur
  constructor
  · rw [← hcs, hs, hrow]
    rfl
  · rw [← hcid, hid, hrow]
    rfl
  · exact congrArg Link.previous hlink
  · exact congrArg Link.hash hlink
  · exact hbody
  · rw [hpv, hrow]
    rfl

/-- An entry of a verified table with the hash of an appended one stands
where that one stood, after rows with the same proofs. -/
theorem verified_upto (hP : Digest P) {store : AuditStore} (h : Built P store) {changed : List IntegrityEntry}
    (hv : (verifyTenantAuditChain P tables changed orgId).chainVerified = true)
    {p k : Nat} {e₀ : IntegrityEntry} (hp : (tenantEntries changed orgId)[p]? = some e)
    (hk : (tenantEntries store.entries orgId)[k]? = some e₀) (hhash : e.eventHash = e₀.eventHash) :
    p = k ∧ ∀ i < p, ∃ f f₀, (tenantEntries changed orgId)[i]? = some f ∧
      (tenantEntries store.entries orgId)[i]? = some f₀ ∧ SameProof f f₀ := by
  obtain ⟨hchain, hall⟩ := (Audit.chainVerified_iff hP).mp hv
  have hs := h.sound hP
  obtain ⟨hpl, hpe⟩ := List.getElem?_eq_some_iff.mp hp
  obtain ⟨hkl, hke⟩ := List.getElem?_eq_some_iff.mp hk
  obtain ⟨heq, htake⟩ := Chained.agree hP.binding hchain (hs orgId).linear
    (i := p) (k := k) (by simpa using hpl) (by simpa using hkl)
    (by simpa [linkOf, hpe, hke] using hhash)
  subst heq
  refine ⟨rfl, fun i hi => ?_⟩
  have hil : i < (tenantEntries changed orgId).length := by omega
  have hil' : i < (tenantEntries store.entries orgId).length := by omega
  have hlink : linkOf (tenantEntries changed orgId)[i]
      = linkOf (tenantEntries store.entries orgId)[i] := by
    have hget := congrArg (fun ls => ls[i]?) htake
    simpa [List.getElem?_take, show i < p + 1 by omega, hil, hil'] using hget
  refine ⟨_, _, List.getElem?_eq_getElem hil, List.getElem?_eq_getElem hil', ?_⟩
  have hmem := List.getElem_mem hil
  obtain ⟨hmem', horg⟩ := mem_tenantEntries.mp (List.getElem_mem hil')
  exact sameProof_of_link hlink (hall _ hmem).1 (hall _ hmem).2 ((hs orgId).rows _ hmem' horg)

/-- **Tamper evidence.** The entries that appending built verify exactly when
every source row still exists and has the recorded canonical form, and
entries that were changed before one that is kept do not verify, whatever
the source rows. -/
theorem tamper_evidence {P : Platform} (hP : Digest P) {store : AuditStore} (h : Built P store)
    (orgId : Uuid) :
    (∀ tables, (verifyTenantAuditChain P tables store.entries orgId).chainVerified = true ↔
      ∀ e ∈ store.entries, e.orgId = orgId → SourceUnchanged tables e) ∧
    (∀ tables changed,
      AlteredBeforeKept (tenantEntries store.entries orgId) (tenantEntries changed orgId) →
      (verifyTenantAuditChain P tables changed orgId).chainVerified = false) := by
  constructor
  · intro tables
    exact h.chainVerified_iff hP
  · rintro tables changed ⟨p, k, e, e₀, hp, hk, hsame, hnot⟩
    rw [← Bool.not_eq_true]
    intro hv
    exact hnot (verified_upto hP h hv hp hk hsame.eventHash)

/-! ## The columns that verification does not read -/

/-- A change of the entries that leaves the columns the proof covers. -/
structure LeavesProof (f : IntegrityEntry → IntegrityEntry) : Prop where
  sequence : ∀ e, (f e).sequence = e.sequence
  orgId : ∀ e, (f e).orgId = e.orgId
  source : ∀ e, (f e).source = e.source
  eventId : ∀ e, (f e).eventId = e.eventId
  link : ∀ e, linkOf (f e) = linkOf e
  proofVersion : ∀ e, (f e).proofVersion = e.proofVersion

theorem LeavesProof.tenantEntries {f : IntegrityEntry → IntegrityEntry} (hf : LeavesProof f)
    (entries : List IntegrityEntry) (orgId : Uuid) :
    tenantEntries (entries.map f) orgId = (tenantEntries entries orgId).map f := by
  unfold Audit.tenantEntries
  have hfilter : (entries.map f).filter (·.orgId == orgId)
      = (entries.filter (·.orgId == orgId)).map f := by
    rw [List.filter_map]
    congr 1
    refine List.filter_congr fun e _ => ?_
    simp [hf.orgId]
  rw [hfilter]
  refine (List.map_insertionSort _ _ f _ fun a _ b _ => ?_).symm
  rw [hf.sequence, hf.sequence]

theorem LeavesProof.chainVerified_iff {f : IntegrityEntry → IntegrityEntry} (hf : LeavesProof f)
    (hP : Digest P) {entries : List IntegrityEntry}
    :
    (verifyTenantAuditChain P tables (entries.map f) orgId).chainVerified = true ↔
      (verifyTenantAuditChain P tables entries orgId).chainVerified = true := by
  have hlinks : ((Audit.tenantEntries entries orgId).map f).map linkOf
      = (Audit.tenantEntries entries orgId).map linkOf := by
    rw [List.map_map]
    exact List.map_congr_left fun e _ => hf.link e
  have hsrc : ∀ e, SourceUnchanged tables (f e) ↔ SourceUnchanged tables e := by
    intro e
    have hcur : currentInput tables (f e) = currentInput tables e := by
      unfold currentInput
      rw [hf.source, hf.eventId]
    have hbody : canon (f e).canonicalEvent = canon e.canonicalEvent :=
      stableStringify_inj.mp (congrArg Link.body (hf.link e))
    unfold SourceUnchanged
    rw [hcur, hbody]
  rw [Audit.chainVerified_iff hP, Audit.chainVerified_iff hP]
  unfold LinearChain
  rw [hf.tenantEntries, hlinks]
  simp only [List.forall_mem_map, hsrc, hf.proofVersion]

def exampleInput (id : Nat) : IntegrityEventInput where
  source := .domainEvents
  eventId := BitVec.ofNat 128 id
  orgId := some 7
  workItemId := some "w"
  eventType := "WorkItemCreated"
  actorType := "user"
  actorId := "u"
  payload := []
  occurredAt := 0

def exampleFirst : IntegrityEntry := entryRow Platform.hex (exampleInput 1) 7 none 1

def exampleSecond : IntegrityEntry :=
  entryRow Platform.hex (exampleInput 2) 7 (headHash [exampleFirst] 7) 2

def exampleStore : AuditStore := ⟨[exampleFirst, exampleSecond], 3⟩

def exampleTables : SourceTables where
  domainEvents := [1, 2].map fun id =>
    { eventId := BitVec.ofNat 128 id, orgId := some 7, eventType := "WorkItemCreated",
      workItemId := some "w", actorType := "user", actorId := "u", payload := [], occurredAt := 0 }
  auditEvents := []
  workItems := []

theorem exampleStore_built : Built Platform.hex exampleStore := by
  have h₁ := Built.append (exampleInput 1) (Built.empty (P := Platform.hex) 1)
  have horg : ∀ id, (exampleInput id).orgId = some 7 := fun _ => rfl
  rw [append_ok Platform.hex_digest (Built.empty 1) (horg 1) rfl] at h₁
  have h₂ := Built.append (exampleInput 2) h₁
  rw [append_ok Platform.hex_digest h₁ (horg 2) (by decide)] at h₂
  have hhead : headHash [] 7 = none := by simp [headHash, tenantEntries, orNull]
  rw [hhead] at h₂
  exact h₂

theorem exampleStore_unchanged :
    ∀ e ∈ exampleStore.entries, e.orgId = 7 → SourceUnchanged exampleTables e := by
  intro e he _
  simp only [exampleStore, List.mem_cons, List.not_mem_nil, or_false] at he
  rcases he with rfl | rfl
  · exact ⟨exampleInput 1, rfl, rfl⟩
  · exact ⟨exampleInput 2, rfl, rfl⟩

def forge (e : IntegrityEntry) : IntegrityEntry :=
  if e.sequence = 1 then { e with eventType := "Forged" } else e

theorem forge_leavesProof : LeavesProof forge := by
  constructor <;> intro e <;> unfold forge <;> split <;> rfl

/-- An edited entry before one that is kept: its own copy of the event type
is forged and the chain still verifies. -/
theorem copied_column_edit_verifies :
    Digest Platform.hex ∧ Built Platform.hex exampleStore ∧
      exampleStore.entries.map forge
        = [{ exampleFirst with eventType := "Forged" }, exampleSecond] ∧
      exampleFirst.eventType ≠ "Forged" ∧
      (verifyTenantAuditChain Platform.hex exampleTables
        (exampleStore.entries.map forge) 7).chainVerified = true := by
  refine ⟨Platform.hex_digest, exampleStore_built, rfl, by decide, ?_⟩
  rw [forge_leavesProof.chainVerified_iff Platform.hex_digest,
    exampleStore_built.chainVerified_iff Platform.hex_digest]
  exact exampleStore_unchanged

/-- An edited event: the chain of the untouched second entry does not
verify. -/
theorem tamper_evidence_edited :
    (verifyTenantAuditChain Platform.hex exampleTables exampleStore.entries 7).chainVerified = true
      ∧ (verifyTenantAuditChain Platform.hex exampleTables [exampleSecond] 7).chainVerified
        = false := by
  obtain ⟨hbuilt, hchanged⟩ := tamper_evidence Platform.hex_digest exampleStore_built 7
  refine ⟨(hbuilt exampleTables).mpr exampleStore_unchanged, ?_⟩
  refine hchanged exampleTables [exampleSecond] ⟨0, 1, exampleSecond, exampleSecond, ?_, ?_, ?_, ?_⟩
  · rw [tenantEntries_of_pairwise (by simp)]
    rfl
  · rw [tenantEntries_of_pairwise (by simp [exampleStore, exampleFirst, exampleSecond, entryRow])]
    rfl
  · exact ⟨rfl, rfl, rfl, rfl, rfl, rfl⟩
  · intro h
    exact absurd h.1 (by decide)

end Cadena.Audit
