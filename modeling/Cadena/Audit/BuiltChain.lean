import Cadena.Audit.Chain
import Cadena.Base.Canonical
import Cadena.Base.Table

/-!
# What appending builds

The entries of a tenant as a chain of hashed records: a hash without
collisions binds the link and the canonical event, and every table that
`appendAuditIntegrityEntry` builds holds one chain a tenant.
-/

namespace Cadena.Audit

open Cadena.Base HashChain

/-! ## The hash binds its link and its event -/

/-- The digest has no collisions, and is a lower-case hexadecimal text. -/
structure Digest (P : Platform) : Prop where
  injective : Function.Injective P.sha256
  nonempty : ∀ t, P.sha256 t ≠ ""
  hex : ∀ t, ∀ c ∈ (P.sha256 t).toList, c ∈ "0123456789abcdef".toList

/-- The hash of an entry from the hash before it and the canonical text. -/
def entryHash (P : Platform) (previous : Option String) (canonical : Text) : String :=
  P.sha256 ((previous.getD "GENESIS").toList ++ '\n' :: canonical)

theorem calculateAuditHash_eq (P : Platform) (previousHash : Option String) (event : Json) :
    calculateAuditHash P previousHash event
      = entryHash P (orNull previousHash) (stableStringify event) := rfl

theorem orNull_orNull (t : Option String) : orNull (orNull t) = orNull t := by
  cases t with
  | none => rfl
  | some s => by_cases h : s = "" <;> simp [orNull, Option.filter, h]

theorem orNull_some {s : String} (h : s ≠ "") : orNull (some s) = some s := by
  simp [orNull, Option.filter, h]

theorem append_delimiter_inj {d : Char} {a b r t : Text} (ha : d ∉ a) (hb : d ∉ b)
    (h : a ++ d :: r = b ++ d :: t) : a = b ∧ r = t := by
  induction a generalizing b with
  | nil =>
    cases b with
    | nil => exact ⟨rfl, (List.cons.inj h).2⟩
    | cons c b => exact absurd ((List.cons.inj h).1 ▸ List.mem_cons_self) hb
  | cons c a ih =>
    cases b with
    | nil => exact absurd ((List.cons.inj h).1 ▸ List.mem_cons_self) ha
    | cons e b =>
      obtain ⟨hce, hrest⟩ := List.cons.inj h
      obtain ⟨hab, hrt⟩ := ih (fun hm => ha (List.mem_cons_of_mem _ hm))
        (fun hm => hb (List.mem_cons_of_mem _ hm)) hrest
      exact ⟨by rw [hce, hab], hrt⟩

section
variable {P : Platform}

theorem Digest.no_newline (hP : Digest P) {p : Option String}
    (h : Produced (entryHash P) p) : '\n' ∉ (p.getD "GENESIS").toList := by
  intro hmem
  cases p with
  | none => revert hmem; decide
  | some d =>
    obtain ⟨q, b, hd⟩ := h d rfl
    subst hd
    have hhex := hP.hex _ _ hmem
    revert hhex
    decide

theorem Digest.genesis_ne (hP : Digest P) (t : Text) : P.sha256 t ≠ "GENESIS" := by
  intro h
  have hhex := hP.hex t 'G' (by rw [h]; decide)
  revert hhex
  decide

theorem Digest.binding (hP : Digest P) : Binding (entryHash P) := by
  intro p q b c hp hq h
  obtain ⟨hname, hbody⟩ :=
    append_delimiter_inj (hP.no_newline hp) (hP.no_newline hq) (hP.injective h)
  have htext : p.getD "GENESIS" = q.getD "GENESIS" := String.toList_inj.mp hname
  refine ⟨?_, hbody⟩
  cases p with
  | none =>
    cases q with
    | none => rfl
    | some e =>
      obtain ⟨_, _, he⟩ := hq e rfl
      subst he
      exact absurd htext.symm (hP.genesis_ne _)
  | some d =>
    cases q with
    | none =>
      obtain ⟨_, _, hd⟩ := hp d rfl
      subst hd
      exact absurd htext (hP.genesis_ne _)
    | some e => exact congrArg some htext

end

/-! ## A platform with such a digest -/

/-- Hashing writes the text out in hexadecimal. -/
def Platform.hex : Platform where
  toLowerCase := Platform.ascii.toLowerCase
  sha256 t := String.ofList ('0' :: t.flatMap fun c => hexDigits c.toNat 6)

theorem char_lt (c : Char) : c.toNat < 16 ^ 6 := by
  have h : c.toNat.isValidChar := c.valid
  unfold Nat.isValidChar at h
  omega

theorem flatMap_hexDigits_inj {s t : Text}
    (h : s.flatMap (fun c => hexDigits c.toNat 6) = t.flatMap fun c => hexDigits c.toNat 6) :
    s = t := by
  induction s generalizing t with
  | nil =>
    cases t with
    | nil => rfl
    | cons c t =>
      have hlen := congrArg List.length h
      simp only [List.flatMap_nil, List.flatMap_cons, List.length_append, List.length_nil,
        hexDigits_length] at hlen
      omega
  | cons c s ih =>
    cases t with
    | nil =>
      have hlen := congrArg List.length h
      simp only [List.flatMap_nil, List.flatMap_cons, List.length_append, List.length_nil,
        hexDigits_length] at hlen
      omega
    | cons d t =>
      rw [List.flatMap_cons, List.flatMap_cons] at h
      obtain ⟨hcd, hrest⟩ := List.append_inj h (by simp)
      have hnat : c.toNat = d.toNat := hexDigits_inj (char_lt c) (char_lt d) hcd
      rw [ih hrest, Char.toNat_inj.mp hnat]

theorem mem_hexDigits {n k : Nat} {c : Char} (h : c ∈ hexDigits n k) :
    c ∈ "0123456789abcdef".toList := by
  have hdigit : ∀ m < 16, hexDigit m ∈ "0123456789abcdef".toList := by decide
  induction k generalizing n with
  | zero => cases h
  | succ k ih =>
    rcases List.mem_append.mp h with h | h
    · exact ih h
    · rw [List.mem_singleton.mp h]
      exact hdigit _ (Nat.mod_lt _ (by omega))

theorem Platform.hex_digest : Digest Platform.hex where
  injective s t h := by
    have htail := (List.cons.inj (String.ofList_injective h)).2
    exact flatMap_hexDigits_inj htail
  nonempty t h := by
    have hlist := congrArg String.toList h
    simp [Platform.hex] at hlist
  hex t c hc := by
    simp only [Platform.hex, String.toList_ofList, List.mem_cons, List.mem_flatMap] at hc
    rcases hc with rfl | ⟨d, -, hc⟩
    · decide
    · exact mem_hexDigits hc

def linkOf (e : IntegrityEntry) : Link String Text where
  previous := orNull e.previousHash
  hash := e.eventHash
  body := stableStringify e.canonicalEvent

theorem headFrom_links (entries : List IntegrityEntry) :
    headFrom none (entries.map linkOf) = entries.getLast?.map (·.eventHash) := by
  cases h : entries.getLast? with
  | none =>
    rw [List.getLast?_eq_none_iff.mp h]
    rfl
  | some e =>
    obtain ⟨es, rfl⟩ := List.getLast?_eq_some_iff.mp h
    rw [List.map_append, List.map_singleton, headFrom_concat]
    rfl

/-- The entries of the tenant, in the order of their sequence numbers, are
one chain. -/
def LinearChain (P : Platform) (entries : List IntegrityEntry) (orgId : Uuid) : Prop :=
  Chained (entryHash P) none ((tenantEntries entries orgId).map linkOf)

variable {orgId : Uuid} {entries : List IntegrityEntry} {row : IntegrityEntry} {store : AuditStore}
  {P : Platform} {next sequence : Nat} {input : IntegrityEventInput}

theorem LinearChain.headHash_eq (hP : Digest P) (h : LinearChain P entries orgId) :
    headHash entries orgId = headFrom none ((tenantEntries entries orgId).map linkOf) := by
  show orNull _ = _
  rw [headFrom_links]
  cases hlast : (tenantEntries entries orgId).getLast? with
  | none => rfl
  | some e =>
    have hprod := h.produced e.eventHash (by rw [headFrom_links, hlast]; rfl)
    obtain ⟨p, b, he⟩ := hprod
    have hne : e.eventHash ≠ "" := by
      rw [he]
      exact hP.nonempty _
    exact orNull_some hne

@[simp] theorem mem_tenantEntries
    {e : IntegrityEntry} : e ∈ tenantEntries entries orgId ↔ e ∈ entries ∧ e.orgId = orgId := by
  simp [tenantEntries, List.mem_insertionSort]

instance : IsTrans IntegrityEntry fun a b => a.sequence ≤ b.sequence :=
  ⟨fun _ _ _ hab hbc => le_trans hab hbc⟩

instance : Std.Total fun a b : IntegrityEntry => a.sequence ≤ b.sequence :=
  ⟨fun a b => le_total a.sequence b.sequence⟩

theorem tenantEntries_pairwise (entries : List IntegrityEntry) (orgId : Uuid) :
    (tenantEntries entries orgId).Pairwise (·.sequence ≤ ·.sequence) :=
  List.pairwise_insertionSort _ _

theorem tenantEntries_of_pairwise (h : entries.Pairwise (·.sequence ≤ ·.sequence)) :
    tenantEntries entries orgId = entries.filter (·.orgId == orgId) :=
  List.Pairwise.insertionSort_eq (h.filter _)

theorem keyed_concat (hkey : (entries.map (·.sequence)).Nodup) (hmax : ∀ e ∈ entries, e.sequence < row.sequence) :
    ((entries ++ [row]).map (·.sequence)).Nodup :=
  Table.nodup_insert hkey fun e he => (hmax e he).ne

theorem tenantEntries_concat
    (hkey : (entries.map (·.sequence)).Nodup) (hmax : ∀ e ∈ entries, e.sequence < row.sequence)
    (orgId : Uuid) :
    tenantEntries (entries ++ [row]) orgId
      = tenantEntries entries orgId ++ if row.orgId = orgId then [row] else [] := by
  have hperm : (tenantEntries (entries ++ [row]) orgId).Perm
      (tenantEntries entries orgId ++ if row.orgId = orgId then [row] else []) := by
    refine (List.perm_insertionSort _ _).trans ?_
    rw [List.filter_append]
    refine List.Perm.append (List.perm_insertionSort _ _).symm ?_
    by_cases h : row.orgId = orgId <;> simp [h]
  refine hperm.eq_of_pairwise ?_ (tenantEntries_pairwise _ _) ?_
  · intro a b ha hb hab hba
    have hseq : a.sequence = b.sequence := by omega
    have hkey' := keyed_concat hkey hmax
    have ha' := (mem_tenantEntries.mp ha).1
    have hb' := (mem_tenantEntries.mp (hperm.mem_iff.mpr hb)).1
    exact List.inj_on_of_nodup_map hkey' ha' hb' hseq
  · rw [List.pairwise_append]
    refine ⟨tenantEntries_pairwise _ _, ?_, ?_⟩
    · split <;> simp
    · intro e he r hr
      have hlt := hmax e (mem_tenantEntries.mp he).1
      split at hr
      · rw [List.mem_singleton.mp hr]
        omega
      · cases hr

/-! ## What an append keeps -/

/-- The chain of one tenant as appending builds it: the sequence is a key
below its next value, the tenant's rows are those of events, and they form
one chain. -/
structure TenantChain (P : Platform) (orgId : Uuid) (store : AuditStore) : Prop where
  keyed : (store.entries.map (·.sequence)).Nodup
  below : ∀ e ∈ store.entries, e.sequence < store.nextSequence
  rows : ∀ e ∈ store.entries, e.orgId = orgId → ∃ input, input.orgId = some orgId ∧
    e = entryRow P input orgId e.previousHash e.sequence
  linear : LinearChain P store.entries orgId

theorem TenantChain.draw (h : TenantChain P orgId store) :
    TenantChain P orgId { store with nextSequence := store.nextSequence + 1 } where
  keyed := h.keyed
  below e he := Nat.lt_succ_of_lt (h.below e he)
  rows := h.rows
  linear := h.linear

theorem below_concat (hmax : ∀ e ∈ entries, e.sequence < row.sequence) (hnext : row.sequence < next) :
    ∀ e ∈ entries ++ [row], e.sequence < next := by
  intro e he
  rcases List.mem_append.mp he with he | he
  · exact (hmax e he).trans hnext
  · rw [List.mem_singleton.mp he]
    exact hnext

theorem TenantChain.insert (hP : Digest P) (h : TenantChain P orgId store) (horg : input.orgId = some orgId)
    (hmax : ∀ e ∈ store.entries, e.sequence < sequence) (hnext : sequence < next) :
    TenantChain P orgId
      ⟨store.entries ++ [entryRow P input orgId (headHash store.entries orgId) sequence],
        next⟩ where
  keyed := keyed_concat h.keyed hmax
  below := below_concat hmax hnext
  rows e he ho := by
    rcases List.mem_append.mp he with he | he
    · exact h.rows e he ho
    · rw [List.mem_singleton.mp he]
      exact ⟨input, horg, rfl⟩
  linear := by
    show Chained _ none _
    rw [tenantEntries_concat h.keyed hmax orgId]
    simp only [entryRow, if_true, List.map_append, List.map_singleton]
    rw [chained_concat]
    refine ⟨h.linear, ?_, rfl⟩
    show orNull (headHash store.entries orgId) = _
    rw [← h.linear.headHash_eq hP]
    exact orNull_orNull _

theorem TenantChain.insert_other (h : TenantChain P orgId store) (horg : row.orgId ≠ orgId)
    (hmax : ∀ e ∈ store.entries, e.sequence < row.sequence) (hnext : row.sequence < next) :
    TenantChain P orgId ⟨store.entries ++ [row], next⟩ where
  keyed := keyed_concat h.keyed hmax
  below := below_concat hmax hnext
  rows e he ho := by
    rcases List.mem_append.mp he with he | he
    · exact h.rows e he ho
    · rw [List.mem_singleton.mp he] at ho
      exact absurd ho horg
  linear := by
    show Chained _ none _
    rw [tenantEntries_concat h.keyed hmax orgId, if_neg horg, List.append_nil]
    exact h.linear

def Sound (P : Platform) (store : AuditStore) : Prop := ∀ orgId, TenantChain P orgId store

theorem Sound.empty (P : Platform) (next : Nat) : Sound P ⟨[], next⟩ := by
  intro orgId
  constructor
  · exact List.nodup_nil
  · simp
  · simp
  · show Chained _ none _
    simp [tenantEntries, Chained]

theorem Sound.draw (h : Sound P store) : Sound P { store with nextSequence := store.nextSequence + 1 } :=
  fun orgId => (h orgId).draw

theorem Sound.insert (hP : Digest P) (h : Sound P store) (horg : input.orgId = some orgId) :
    Sound P ⟨store.entries ++
      [entryRow P input orgId (headHash store.entries orgId) store.nextSequence],
      store.nextSequence + 1⟩ := by
  intro o
  by_cases ho : orgId = o
  · subst ho
    exact (h orgId).insert hP horg (h orgId).below (Nat.lt_succ_self _)
  · exact (h o).insert_other ho (h o).below (Nat.lt_succ_self _)

theorem Sound.appendLoop (hP : Digest P) (horg : input.orgId = some orgId) (remaining : Nat)
    (h : Sound P store) : Sound P (appendLoop P input orgId remaining store).1 := by
  induction remaining generalizing store with
  | zero =>
    cases hv : violated store.entries
        (entryRow P input orgId (headHash store.entries orgId) store.nextSequence) with
    | none =>
      rw [Audit.appendLoop]
      simp only [hv]
      exact h.insert hP horg
    | some index =>
      rw [Audit.appendLoop]
      simp only [hv]
      exact h.draw
  | succ remaining ih =>
    cases hv : violated store.entries
        (entryRow P input orgId (headHash store.entries orgId) store.nextSequence) with
    | none =>
      rw [Audit.appendLoop]
      simp only [hv]
      exact h.insert hP horg
    | some index =>
      rw [Audit.appendLoop]
      simp only [hv]
      split
      · exact ih h.draw
      · exact h.draw

theorem Sound.append (hP : Digest P) (h : Sound P store)
    (input : IntegrityEventInput) : Sound P (appendAuditIntegrityEntry P store input).1 := by
  unfold appendAuditIntegrityEntry
  split
  · exact h
  · split
    · exact h.draw
    · exact Sound.appendLoop hP ‹_› _ h

/-- The tables that appends of any events build, from an empty one; the
sequence numbers of inserts that were rolled back are lost. -/
inductive Built (P : Platform) : AuditStore → Prop where
  | empty (next : Nat) : Built P ⟨[], next⟩
  | drawn {store : AuditStore} : Built P store →
      Built P { store with nextSequence := store.nextSequence + 1 }
  | append {store : AuditStore} (input : IntegrityEventInput) : Built P store →
      Built P (appendAuditIntegrityEntry P store input).1

theorem Built.sound (hP : Digest P) (h : Built P store) : Sound P store := by
  induction h with
  | empty next => exact Sound.empty P next
  | drawn _ ih => exact ih.draw
  | append input _ ih => exact ih.append hP input

theorem canonicalAuditEvent_distinct (input : IntegrityEventInput) :
    DistinctKeys [("proof_version", proofVersion),
      ("source", Json.str input.source.text),
      ("event_id", .str (uuidString input.eventId)),
      ("org_id", optText (input.orgId.map uuidString)),
      ("work_item_id", optText input.workItemId),
      ("event_type", .str input.eventType),
      ("actor", .obj [("type", .str input.actorType), ("id", .str input.actorId)]),
      ("occurred_at", .str (toISOString input.occurredAt)),
      ("payload", durable (.obj input.payload))] := by
  show List.Nodup _
  simp only [List.map_cons, List.map_nil]
  decide

theorem AuditEventSource.text_inj {a b : AuditEventSource} (h : a.text = b.text) : a = b := by
  cases a <;> cases b <;> first | rfl | (revert h; decide)

theorem canonicalAuditEvent_event {a b : IntegrityEventInput}
    (h : canon (canonicalAuditEvent a) = canon (canonicalAuditEvent b)) :
    a.source = b.source ∧ a.eventId = b.eventId := by
  have hmem := (canon_obj_eq_iff (canonicalAuditEvent_distinct a)
    (canonicalAuditEvent_distinct b)).mp h
  constructor
  · have hs := (hmem ("source", .str a.source.text)).mp (by simp [canonEntries, canon])
    simp only [canonEntries, canon, List.mem_cons, Prod.mk.injEq, Json.str.injEq] at hs
    exact AuditEventSource.text_inj (by simpa using hs)
  · have hs := (hmem ("event_id", .str (uuidString a.eventId))).mp (by simp [canonEntries, canon])
    simp only [canonEntries, canon, List.mem_cons, Prod.mk.injEq, Json.str.injEq] at hs
    have ht : uuidString a.eventId = uuidString b.eventId := by simpa using hs
    exact uuidText_inj (String.ofList_injective ht)

/-! ## An append never runs into an index -/

theorem violated_eq_none_iff : violated entries row = none ↔ ∀ e ∈ entries, e.orgId = row.orgId →
      e.eventHash ≠ row.eventHash ∧ e.previousHash ≠ row.previousHash := by
  constructor
  · intro h e he horg
    have hmem : e ∈ entries.filter (·.orgId == row.orgId) := by simp [he, horg]
    constructor
    · intro heq
      have hany : (entries.filter (·.orgId == row.orgId)).any
          (·.eventHash == row.eventHash) = true :=
        List.any_eq_true.mpr ⟨e, hmem, by simp [heq]⟩
      simp [violated, hany] at h
    · intro heq
      have hany : (entries.filter (·.orgId == row.orgId)).any
          (·.previousHash == row.previousHash) = true :=
        List.any_eq_true.mpr ⟨e, hmem, by simp [heq]⟩
      simp only [violated, hany, if_true] at h
      split at h
      · cases h
      · split at h <;> cases h
  · intro h
    unfold violated
    have hhash : (entries.filter (·.orgId == row.orgId)).any
        (·.eventHash == row.eventHash) = false := by
      simp only [List.any_eq_false, List.mem_filter, beq_iff_eq, and_imp]
      intro e he horg
      exact (h e he horg).1
    have hprev : (entries.filter (·.orgId == row.orgId)).any
        (·.previousHash == row.previousHash) = false := by
      simp only [List.any_eq_false, List.mem_filter, beq_iff_eq, and_imp]
      intro e he horg
      exact (h e he horg).2
    simp only [hhash, hprev, Bool.false_eq_true, if_false]

theorem linkOf_hash {previousHash : Option String} : (entryRow P input orgId previousHash sequence).eventHash
      = entryHash P (orNull previousHash) (stableStringify (canonicalAuditEvent input)) := rfl

theorem violated_head (hP : Digest P) (h : LinearChain P entries orgId)
    (hrows : ∀ e ∈ entries, e.orgId = orgId → ∃ input, input.orgId = some orgId ∧
      e = entryRow P input orgId e.previousHash e.sequence)
    (hnew : recorded entries input = false) :
    violated entries (entryRow P input orgId (headHash entries orgId) sequence) = none := by
  rw [violated_eq_none_iff]
  intro e he horg
  have hlink : linkOf e ∈ (tenantEntries entries orgId).map linkOf :=
    List.mem_map_of_mem (mem_tenantEntries.mpr ⟨he, horg⟩)
  have hhead : orNull (headHash entries orgId) = headFrom none
      ((tenantEntries entries orgId).map linkOf) :=
    (orNull_orNull _).trans (h.headHash_eq hP)
  constructor
  · intro heq
    obtain ⟨old, -, hold⟩ := hrows e he horg
    rw [hold, linkOf_hash, linkOf_hash] at heq
    have hbody := (hP.binding (h.previous_produced hlink) (hhead ▸ h.produced) heq).2
    obtain ⟨hs, hid⟩ := canonicalAuditEvent_event (stableStringify_inj.mp hbody)
    have hrec : recorded entries input = true := by
      refine List.any_eq_true.mpr ⟨e, he, ?_⟩
      rw [hold]
      simp [entryRow, hs, hid]
    rw [hrec] at hnew
    cases hnew
  · intro heq
    refine h.previous_ne_head hP.binding hlink ?_
    rw [← hhead]
    exact congrArg orNull heq

/-- **A single writer always succeeds**: an event with a tenant is recorded
at the head of its chain at the first attempt. -/
theorem append_ok (hP : Digest P) (h : Built P store) (horg : input.orgId = some orgId)
    (hnew : recorded store.entries input = false) :
    appendAuditIntegrityEntry P store input =
      (⟨store.entries ++
        [entryRow P input orgId (headHash store.entries orgId) store.nextSequence],
        store.nextSequence + 1⟩, .ok ()) := by
  have hs := h.sound hP
  unfold appendAuditIntegrityEntry
  rw [if_neg (by simp [hnew]), horg]
  show appendLoop P input orgId 7 store = _
  rw [appendLoop]
  simp only [violated_head hP (hs orgId).linear (hs orgId).rows hnew]

end Cadena.Audit
