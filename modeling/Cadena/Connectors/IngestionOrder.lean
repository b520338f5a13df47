import Cadena.Base.Register
import Cadena.Connectors.ProcessRecord

/-!
# The order in which records are ingested

Live syncs, retries and backfill pages hand the records of one external
id to `processRecord` in any order. The twin is a register of stamped
versions (`Base.Register`) whose content is what the hash covers, so the
records that can be left at the end are the covered ones.
-/

namespace Cadena.Connectors

open Cadena.Base Cadena.Audit Cadena.Integrations

/-- What a reader of the twin sees; field values up to the order of keys. -/
structure TwinContent where
  title : Option String
  nativeStatus : Option String
  nativeKey : Option String
  nativeUrl : Option String
  fields : Json

def CanonicalTwin.content (t : CanonicalTwin) : TwinContent :=
  ⟨t.title, t.nativeStatus, t.nativeKey, t.nativeUrl, canon (.obj t.payload)⟩

def ExternalRecordPayload.content (r : ExternalRecordPayload) : TwinContent :=
  ⟨some r.title, some r.status, orNull r.nativeKey, orNull r.nativeUrl, canon (.obj r.fields)⟩

def ExternalRecordPayload.hashedText (r : ExternalRecordPayload) : Text :=
  stableStringify (hashedContent r)

theorem optionJson_inj {a b : Option String} (h : canon (optionJson a) = canon (optionJson b)) :
    a = b := by
  cases a <;> cases b <;> simp_all [optionJson, canon]

theorem hashedParts_eq {a b : ExternalRecordPayload} (h : a.hashedText = b.hashedText) :
    ∀ part ∈ hashedParts, canon (part.2 a) = canon (part.2 b) := by
  have hcanon := stableStringify_inj.mp h
  simp only [hashedContent, canon, canonEntries_eq, List.map_map, Json.obj.injEq] at hcanon
  exact sortEntries_values (f := fun v : ExternalRecordPayload → Json => canon (v a))
    (g := fun v => canon (v b)) hcanon

theorem content_eq_of_hashedText {a b : ExternalRecordPayload}
    (h : a.hashedText = b.hashedText) : a.content = b.content := by
  have hparts := hashedParts_eq h
  simp only [hashedParts, List.forall_mem_cons] at hparts
  obtain ⟨htitle, hstatus, hkey, hurl, hfields, -⟩ := hparts
  have htitle : a.title = b.title := by simpa [canon] using htitle
  have hstatus : a.status = b.status := by simpa [canon] using hstatus
  simp only [ExternalRecordPayload.content, htitle, hstatus, optionJson_inj hkey,
    optionJson_inj hurl, hfields]

section Ingestion

variable (P : Platform) (orgId : Uuid) (connector : ConnectorRecord)

/-- A record that throws leaves the tables as they were. -/
def ingestOne (ids : FreshIds) (s : IngestState) (record : ExternalRecordPayload) :
    IngestState :=
  match processRecord P orgId connector ids record s with
  | .ok (_, s', _) => s'
  | .error _ => s

/-- The records in the order they are handled; `ids i` are the random ids
of the `i`-th call. -/
def ingestAll : (Nat → FreshIds) → IngestState → List ExternalRecordPayload → IngestState
  | _, s, [] => s
  | ids, s, r :: rs =>
    ingestAll (fun i => ids (i + 1)) (ingestOne P orgId connector (ids 0) s r) rs

/-- The identity service takes the record's identity, key and link. -/
def Accepted (record : ExternalRecordPayload) : Prop :=
  record.externalId ≠ "" ∧
    (normalizeEntity P ⟨connector.provider, record.artifactType, record.externalId⟩
      (some (firstText [record.nativeKey, some record.externalId])) record.nativeUrl).isOk = true

instance (record : ExternalRecordPayload) : Decidable (Accepted P connector record) :=
  inferInstanceAs (Decidable (_ ∧ _))

def twinOf (artifactType externalId : String) (t : CanonicalTwin) : Bool :=
  t.orgId = orgId && t.provider = connector.provider && t.artifactType = artifactType
    && t.externalId = externalId

/-- The row holds the version `z`: its stamp, its hash and its content. -/
structure HoldsVersion (artifactType externalId : String) (t : CanonicalTwin)
    (z : ExternalRecordPayload) : Prop where
  key : twinOf orgId connector artifactType externalId t = true
  owner : t.connectorId = connector.id
  stamp : t.sourceUpdatedAt = some z.updatedAt
  hash : t.contentHash = some (contentHash P z)
  content : t.content = z.content

/-- The tables are as at the start, but for the row of the external id. -/
def Ingested (artifactType externalId : String) (start s : IngestState)
    (kept : Option ExternalRecordPayload) : Prop :=
  match kept with
  | none => s.twins = start.twins
  | some z => ∃ t, s.twins = start.twins ++ [t] ∧ (∀ u ∈ start.twins, u.id ≠ t.id) ∧
      HoldsVersion P orgId connector artifactType externalId t z

end Ingestion

/-! ## The twin as a register -/

section Refinement

variable {P : Platform} {orgId : Uuid} {connector : ConnectorRecord}
  {artifactType externalId : String} {start s : IngestState} {ids : FreshIds}
  {record : ExternalRecordPayload}

theorem holdsVersion_apply {t : CanonicalTwin} {nodeId : Uuid}
    (hkey : twinOf orgId connector artifactType externalId t = true)
    (howner : t.connectorId = connector.id) :
    HoldsVersion P orgId connector artifactType externalId (applyRecord P record nodeId t)
      record where
  key := hkey
  owner := howner
  stamp := rfl
  hash := rfl
  content := rfl

/-- The step that a record makes on the register. -/
def absorbRecord (kept : Option ExternalRecordPayload) (record : ExternalRecordPayload) :
    Option ExternalRecordPayload :=
  Register.absorb ExternalRecordPayload.updatedAt ExternalRecordPayload.hashedText kept record

theorem find_start (hstart : ∀ u ∈ start.twins,
      twinOf orgId connector artifactType externalId u = false) {t : CanonicalTwin}
    (hkey : twinOf orgId connector artifactType externalId t = true) :
    (start.twins ++ [t]).find? (twinOf orgId connector artifactType externalId) = some t := by
  rw [List.find?_append, List.find?_eq_none.mpr fun u hu => by simp [hstart u hu]]
  simp [hkey]

theorem update_last {t : CanonicalTwin} {f : CanonicalTwin → CanonicalTwin}
    (hfresh : ∀ u ∈ start.twins, u.id ≠ t.id) (horg : t.orgId = orgId) :
    Table.update (fun u => u.id = t.id && u.orgId = orgId) f (start.twins ++ [t])
      = start.twins ++ [f t] := by
  have hnone : ∀ u ∈ start.twins, (decide (u.id = t.id) && decide (u.orgId = orgId)) = false := by
    intro u hu
    simp [hfresh u hu]
  rw [Table.update, List.map_append]
  have hstart := Table.update_none (f := f) hnone
  rw [Table.update] at hstart
  rw [hstart]
  simp [horg]

/-- **One record is one step of the register**: an accepted record is
absorbed by stamp and hashed text. -/
theorem ingestOne_accepted (hinj : Function.Injective P.sha256)
    (hstart : ∀ u ∈ start.twins, twinOf orgId connector artifactType externalId u = false)
    (hfresh : ∀ u ∈ start.twins, u.id ≠ ids.twin)
    (htype : record.artifactType = artifactType) (hid : record.externalId = externalId)
    (hacc : Accepted P connector record) {kept : Option ExternalRecordPayload}
    (h : Ingested P orgId connector artifactType externalId start s kept) :
    Ingested P orgId connector artifactType externalId start
      (ingestOne P orgId connector ids s record) (absorbRecord kept record) := by
  obtain ⟨hne, hok⟩ := hacc
  obtain ⟨normalized, hnorm⟩ : ∃ n, normalizeEntity P
      ⟨connector.provider, record.artifactType, record.externalId⟩
      (some (firstText [record.nativeKey, some record.externalId])) record.nativeUrl = .ok n := by
    cases hn : normalizeEntity P ⟨connector.provider, record.artifactType, record.externalId⟩
        (some (firstText [record.nativeKey, some record.externalId])) record.nativeUrl with
    | error e => rw [hn] at hok; cases hok
    | ok n => exact ⟨n, rfl⟩
  have hmatch : twinKeyMatches orgId connector record
      = twinOf orgId connector artifactType externalId := by
    funext t
    rw [twinKeyMatches, twinOf, htype, hid]
  unfold ingestOne processRecord
  simp only [hne, if_false, hmatch, hnorm]
  cases kept with
  | none =>
    have hs : s.twins = start.twins := h
    have hnone : s.twins.find? (twinOf orgId connector artifactType externalId) = none := by
      rw [hs]
      exact List.find?_eq_none.mpr fun u hu => by simp [hstart u hu]
    simp only [hnone]
    refine ⟨newTwin P orgId connector record ids.twin _, by rw [hs], hfresh,
      holdsVersion_apply ?_ rfl⟩
    simp [twinOf, htype, hid]
  | some z =>
    obtain ⟨t, hs, htfresh, ht⟩ := h
    have hfind : s.twins.find? (twinOf orgId connector artifactType externalId) = some t := by
      rw [hs]
      exact find_start hstart ht.key
    have hstale : isStale t record = decide (record.updatedAt < z.updatedAt) := by
      rw [isStale, ht.stamp]
    have hsame : t.contentHash = some (contentHash P record) ↔
        record.hashedText = z.hashedText := by
      rw [ht.hash, Option.some.injEq, contentHash, contentHash, hinj.eq_iff]
      exact eq_comm
    simp only [hfind, ht.owner, ne_eq, not_true_eq_false, if_false, hstale,
      decide_eq_true_eq, hsame, absorbRecord, Register.absorb]
    by_cases hold : record.updatedAt < z.updatedAt
    · simp only [hold, if_true]
      exact ⟨t, hs, htfresh, ht⟩
    · by_cases heq : record.hashedText = z.hashedText
      · simp only [hold, heq, if_true, if_false]
        exact ⟨t, hs, htfresh, ht⟩
      · have horg : t.orgId = orgId := by
          have hk := ht.key
          simp only [twinOf, Bool.and_eq_true, decide_eq_true_eq] at hk
          exact hk.1.1.1
        simp only [hold, heq, if_false]
        exact ⟨applyRecord P record _ t, by rw [hs, update_last htfresh horg], htfresh,
          holdsVersion_apply ht.key ht.owner⟩

theorem ingestOne_refused (hacc : ¬ Accepted P connector record) :
    ingestOne P orgId connector ids s record = s := by
  unfold ingestOne processRecord
  by_cases hne : record.externalId = ""
  · simp only [hne, if_true]
  · have herr : ∃ e, normalizeEntity P
        ⟨connector.provider, record.artifactType, record.externalId⟩
        (some (firstText [record.nativeKey, some record.externalId])) record.nativeUrl
          = .error e := by
      cases hn : normalizeEntity P ⟨connector.provider, record.artifactType, record.externalId⟩
          (some (firstText [record.nativeKey, some record.externalId])) record.nativeUrl with
      | error e => exact ⟨e, rfl⟩
      | ok n => exact absurd ⟨hne, by rw [hn]; rfl⟩ hacc
    obtain ⟨e, herr⟩ := herr
    simp only [hne, if_false, herr]
    cases s.twins.find? (twinKeyMatches orgId connector record) with
    | none => rfl
    | some prior =>
      simp only
      split_ifs <;> rfl

end Refinement

/-! ## All orders -/

section Orders

variable {P : Platform} {orgId : Uuid} {connector : ConnectorRecord}
  {artifactType externalId : String} {start : IngestState}

/-- The versions that can enter the register, in the order they come. -/
def acceptedRecords (P : Platform) (connector : ConnectorRecord)
    (records : List ExternalRecordPayload) : List ExternalRecordPayload :=
  records.filter fun r => Accepted P connector r

def absorbRecords (kept : Option ExternalRecordPayload) (records : List ExternalRecordPayload) :
    Option ExternalRecordPayload :=
  Register.absorbAll ExternalRecordPayload.updatedAt ExternalRecordPayload.hashedText kept records

variable {records : List ExternalRecordPayload}

theorem ingestAll_ingested (hinj : Function.Injective P.sha256)
    (hstart : ∀ u ∈ start.twins, twinOf orgId connector artifactType externalId u = false)
    {ids : Nat → FreshIds}
    (hfresh : ∀ i, ∀ u ∈ start.twins, u.id ≠ (ids i).twin)
    (hrecords : ∀ r ∈ records, r.artifactType = artifactType ∧ r.externalId = externalId)
    {s : IngestState} {kept : Option ExternalRecordPayload}
    (h : Ingested P orgId connector artifactType externalId start s kept) :
    Ingested P orgId connector artifactType externalId start
      (ingestAll P orgId connector ids s records)
      (absorbRecords kept (acceptedRecords P connector records)) := by
  induction records generalizing ids s kept with
  | nil => exact h
  | cons r rs ih =>
    obtain ⟨⟨htype, hid⟩, hrest⟩ := List.forall_mem_cons.mp hrecords
    rw [ingestAll]
    by_cases hacc : Accepted P connector r
    · rw [acceptedRecords, List.filter_cons_of_pos (by simpa using hacc)]
      exact ih (fun i => hfresh (i + 1)) hrest
        (ingestOne_accepted hinj hstart (hfresh 0) htype hid hacc h)
    · rw [acceptedRecords, List.filter_cons_of_neg (by simpa using hacc),
        ingestOne_refused hacc]
      exact ih (fun i => hfresh (i + 1)) hrest h

/-- The content the twin has after the records, in the order given. -/
def contentAfter (P : Platform) (orgId : Uuid) (connector : ConnectorRecord)
    (artifactType externalId : String) (ids : Nat → FreshIds) (start : IngestState)
    (records : List ExternalRecordPayload) : Option TwinContent :=
  ((ingestAll P orgId connector ids start records).twins.find?
    (twinOf orgId connector artifactType externalId)).map (·.content)

theorem contentAfter_eq (hinj : Function.Injective P.sha256)
    (hstart : ∀ u ∈ start.twins, twinOf orgId connector artifactType externalId u = false)
    {ids : Nat → FreshIds}
    (hfresh : ∀ i, ∀ u ∈ start.twins, u.id ≠ (ids i).twin)
    (hrecords : ∀ r ∈ records, r.artifactType = artifactType ∧ r.externalId = externalId) :
    contentAfter P orgId connector artifactType externalId ids start records =
      (absorbRecords none (acceptedRecords P connector records)).map (·.content) := by
  have hnone : Ingested P orgId connector artifactType externalId start start none := rfl
  have h := ingestAll_ingested hinj hstart hfresh hrecords hnone
  unfold contentAfter
  cases hkept : absorbRecords none (acceptedRecords P connector records) with
  | none =>
    rw [hkept] at h
    have htwins : (ingestAll P orgId connector ids start records).twins = start.twins := h
    rw [htwins, List.find?_eq_none.mpr fun u hu => by simp [hstart u hu]]
    rfl
  | some z =>
    rw [hkept] at h
    obtain ⟨t, htwins, -, ht⟩ := h
    rw [htwins, find_start hstart ht.key, Option.map_some, Option.map_some, ht.content]

/-- A version that does not say what the newest one says, and that no
newer version is sure to replace. -/
def Shadowed (P : Platform) (connector : ConnectorRecord)
    (records : List ExternalRecordPayload) (z : ExternalRecordPayload) : Prop :=
  ∀ y ∈ records, Accepted P connector y → z.updatedAt < y.updatedAt →
    ∃ o ∈ records, Accepted P connector o ∧ o.updatedAt ≤ z.updatedAt ∧
      o.hashedText = y.hashedText

theorem covered_acceptedRecords {z : ExternalRecordPayload} :
    Register.Covered ExternalRecordPayload.updatedAt ExternalRecordPayload.hashedText
      (acceptedRecords P connector records) z ↔ Shadowed P connector records z := by
  simp only [Register.Covered, Shadowed, acceptedRecords, List.mem_filter, decide_eq_true_eq]
  constructor
  · intro h y hy hacc hlt
    obtain ⟨o, ⟨ho, hoacc⟩, hle, hcon⟩ := h y ⟨hy, hacc⟩ hlt
    exact ⟨o, ho, hoacc, hle, hcon⟩
  · rintro h y ⟨hy, hacc⟩ hlt
    obtain ⟨o, ho, hoacc, hle, hcon⟩ := h y hy hacc hlt
    exact ⟨o, ⟨ho, hoacc⟩, hle, hcon⟩

theorem exists_perm_accepted {accepted : List ExternalRecordPayload}
    (h : accepted.Perm (acceptedRecords P connector records)) :
    ∃ order, order.Perm records ∧ acceptedRecords P connector order = accepted := by
  refine ⟨accepted ++ records.filter fun r => !decide (Accepted P connector r), ?_, ?_⟩
  · exact (h.append_right _).trans (List.filter_append_perm _ records)
  · rw [acceptedRecords, List.filter_append, List.filter_eq_self.mpr, List.filter_eq_nil_iff.mpr]
    · exact List.append_nil _
    · intro r hr
      simpa using (List.mem_filter.mp hr).2
    · intro r hr
      exact (List.mem_filter.mp (h.mem_iff.mp hr)).2

end Orders

/-- **When ingestion converges**: over all orders of the records of one
external id, the twin ends with the newest record's content if and only if
some record is accepted and no accepted record with another content is
shadowed. -/
theorem ingestion_converges_iff (P : Platform) (hinj : Function.Injective P.sha256)
    (orgId : Uuid) (connector : ConnectorRecord) (artifactType externalId : String)
    (start : IngestState)
    (hstart : ∀ u ∈ start.twins, twinOf orgId connector artifactType externalId u = false)
    (ids : Nat → FreshIds) (hfresh : ∀ i, ∀ u ∈ start.twins, u.id ≠ (ids i).twin)
    (records : List ExternalRecordPayload)
    (hrecords : ∀ r ∈ records, r.artifactType = artifactType ∧ r.externalId = externalId)
    (hdistinct : records.Pairwise fun a b => a.updatedAt ≠ b.updatedAt) :
    ∀ newest ∈ records, (∀ r ∈ records, r.updatedAt ≤ newest.updatedAt) →
      ((∀ order, order.Perm records →
          contentAfter P orgId connector artifactType externalId ids start order
            = some newest.content) ↔
        (∃ r ∈ records, Accepted P connector r) ∧
          ∀ z ∈ records, Accepted P connector z → Shadowed P connector records z →
            z.content = newest.content) := by
  intro newest _ _
  have hafter : ∀ order, order.Perm records →
      contentAfter P orgId connector artifactType externalId ids start order =
        (absorbRecords none (acceptedRecords P connector order)).map (·.content) :=
    fun order hperm => contentAfter_eq hinj hstart hfresh
      fun r hr => hrecords r (hperm.mem_iff.mp hr)
  have haccepted : (acceptedRecords P connector records).Pairwise
      fun a b => a.updatedAt ≠ b.updatedAt := hdistinct.sublist List.filter_sublist
  have hkept := Register.kept_content_iff ExternalRecordPayload.updatedAt
    ExternalRecordPayload.hashedText haccepted
    fun text => ∀ r : ExternalRecordPayload, r.hashedText = text → r.content = newest.content
  constructor
  · intro hall
    have hsome : ∀ accepted, accepted.Perm (acceptedRecords P connector records) →
        (absorbRecords none accepted).map (·.content) = some newest.content := by
      intro accepted hperm
      obtain ⟨order, horder, rfl⟩ := exists_perm_accepted hperm
      rw [← hafter order horder]
      exact hall order horder
    refine ⟨?_, fun z hz hacc hshadow => ?_⟩
    · by_contra hno
      have hnil : acceptedRecords P connector records = [] :=
        List.filter_eq_nil_iff.mpr fun r hr hacc => hno ⟨r, hr, by simpa using hacc⟩
      have hempty := hsome [] (hnil ▸ List.Perm.refl _)
      cases hempty
    · refine hkept.mp (fun accepted hperm w hw r hr => ?_) z
        (List.mem_filter.mpr ⟨hz, by simpa using hacc⟩)
        (covered_acceptedRecords.mpr hshadow) z rfl
      have hw' := hsome accepted hperm
      rw [absorbRecords, hw] at hw'
      exact (content_eq_of_hashedText hr).trans (Option.some.inj hw')
  · rintro ⟨⟨r, hr, hacc⟩, hshadow⟩ order hperm
    have horder : (acceptedRecords P connector order).Perm (acceptedRecords P connector records) :=
      hperm.filter _
    have hmem : r ∈ acceptedRecords P connector order :=
      horder.mem_iff.mpr (List.mem_filter.mpr ⟨hr, by simpa using hacc⟩)
    obtain ⟨w, hw⟩ : ∃ w, absorbRecords none (acceptedRecords P connector order) = some w := by
      cases hcase : acceptedRecords P connector order with
      | nil => rw [hcase] at hmem; cases hmem
      | cons v vs => exact Register.absorbAll_some v
    rw [hafter order hperm, hw, Option.map_some, Option.some.injEq]
    refine hkept.mpr (fun z hz hcov r hr => ?_) _ horder w hw w rfl
    obtain ⟨hz, hzacc⟩ := List.mem_filter.mp hz
    exact (content_eq_of_hashedText hr).trans
      (hshadow z hz (by simpa using hzacc) (covered_acceptedRecords.mp hcov))

def incidentVersion (updatedAt : Millis) (status : String) : ExternalRecordPayload where
  externalId := "abc"
  artifactType := "incident"
  title := "Printer"
  nativeKey := some "INC1"
  nativeUrl := none
  status := status
  fields := []
  fieldAuthority := none
  updatedAt := updatedAt
  updatedBy := none

def incidentConnector : ConnectorRecord := ⟨2, "servicenow", "ITSM"⟩

def noTwins : IngestState := ⟨[], [], [incidentConnector]⟩

def countedIds (i : Nat) : FreshIds :=
  ⟨BitVec.ofNat 128 (3 * i), BitVec.ofNat 128 (3 * i + 1), BitVec.ofNat 128 (3 * i + 2)⟩

/-- Two versions with different contents converge, the newer one first too. -/
theorem ingestion_converges_iff_two :
    contentAfter .ascii 1 incidentConnector "incident" "abc" countedIds noTwins
        [incidentVersion 2 "Closed", incidentVersion 1 "Open"]
      = some (incidentVersion 2 "Closed").content := by
  have hdiff : (incidentVersion 1 "Open").hashedText ≠ (incidentVersion 2 "Closed").hashedText := by
    decide
  refine (ingestion_converges_iff .ascii Platform.ascii_injective 1 incidentConnector "incident" "abc"
    noTwins (fun _ hu => nomatch hu) countedIds (fun _ _ hu => nomatch hu)
    [incidentVersion 1 "Open", incidentVersion 2 "Closed"]
    (by simp [incidentVersion]) (by simp [incidentVersion])
    (incidentVersion 2 "Closed") (by simp) (by simp [incidentVersion])).mpr ⟨?_, ?_⟩ _
    (List.Perm.swap _ _ _)
  · exact ⟨incidentVersion 1 "Open", by simp, by decide⟩
  · intro z hz _ hshadow
    rcases List.mem_cons.mp hz with rfl | hz
    · -- The newer version's text occurs in no version as old as this one.
      obtain ⟨o, ho, -, hle, htext⟩ := hshadow (incidentVersion 2 "Closed") (by simp)
        (by decide) (by decide)
      rcases List.mem_cons.mp ho with rfl | ho
      · exact absurd htext hdiff
      · rw [List.mem_singleton.mp ho] at hle
        exact absurd hle (by decide)
    · rw [List.mem_singleton.mp hz]

/-- The incident was opened, closed and opened again; the closing is
handled last. -/
def reopenedIncident : List ExternalRecordPayload :=
  [incidentVersion 1 "Open", incidentVersion 3 "Open", incidentVersion 2 "Closed"]

/-- Version 3 has the content the twin has already, so its time is not
stored, and version 2 does not look stale: the twin stays closed. -/
theorem reopened_incident_stays_closed :
    reopenedIncident.Perm
      [incidentVersion 1 "Open", incidentVersion 2 "Closed", incidentVersion 3 "Open"] ∧
    (contentAfter .ascii 1 incidentConnector "incident" "abc" countedIds noTwins
      reopenedIncident).map (·.nativeStatus) = some (some "Closed") ∧
    contentAfter .ascii 1 incidentConnector "incident" "abc" countedIds noTwins
      reopenedIncident ≠ some (incidentVersion 3 "Open").content := by
  have hclosed : (contentAfter .ascii 1 incidentConnector "incident" "abc" countedIds noTwins
      reopenedIncident).map (·.nativeStatus) = some (some "Closed") := by
    decide
  refine ⟨(List.Perm.swap _ _ _).cons _, hclosed, fun h => ?_⟩
  rw [h] at hclosed
  exact absurd hclosed (by decide)

end Cadena.Connectors
