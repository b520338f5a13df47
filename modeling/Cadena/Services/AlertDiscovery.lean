import Cadena.Base.Transition
import Cadena.Services.ServiceRegistry

/-!
# Services discovered by alerts

An alert looks for the service it names and registers one if no service
answers. The look-up compares names as they stand, and the registration goes by
a key onto which several names collapse. So an alert may miss a service and then
write over it, and this is the only way in which it changes what is registered.
-/

namespace Cadena.Services

open Cadena.Base Cadena.WorkItems Cadena.Connectors

structure AlertService where
  serviceKey : Option Text
  service : Option Text
  labelService : Option Text
  host : Option Text
  labelHost : Option Text
  environment : Option String

def AlertService.candidates (alert : AlertService) : List (Option Text) :=
  [alert.serviceKey, alert.service, alert.labelService, alert.host, alert.labelHost]

structure DiscoverySettings where
  autoRegisterServices : Bool
  defaultTeamId : Option Uuid

def discoveredDescription : String := "Discovered from a monitoring alert; pending CMDB reconciliation."

/-- The first candidate that is not blank, as it stands. -/
def AlertService.identifier (alert : AlertService) : Option Text :=
  (alert.candidates.filterMap id).find? fun c => trim c ≠ []

def discoveredService (settings : DiscoverySettings) (alert : AlertService) (identifier : Text) :
    RegisterServiceDto where
  name := some identifier
  serviceKey := none
  description := some discoveredDescription
  ownerTeamId := settings.defaultTeamId
  environment := alert.environment.filter (· != "")
  source := some "monitoring_discovery"
  externalRef := none
  aliases := (alert.candidates.filterMap id).filter fun c => trim c ≠ []

/-- The registry after the alert; one that cannot be registered fails. -/
def resolveOrRegisterService (U : UpperCase) (table : ServiceTable) (orgId : Uuid)
    (settings : DiscoverySettings) (alert : AlertService) (pick : Nat) (id : Uuid) (now : Millis) :
    Except InvalidServiceError ServiceTable :=
  match resolveService U table orgId pick alert.candidates, alert.identifier with
  | none, some identifier =>
    if settings.autoRegisterServices then
      registerService U table orgId (discoveredService settings alert identifier) id now
    else .ok table
  | _, _ => .ok table

/-! ## The system -/

inductive RegistryAction where
  | register (orgId : Uuid) (dto : RegisterServiceDto) (id : Uuid) (now : Millis)
  | alert (orgId : Uuid) (settings : DiscoverySettings) (alert : AlertService) (pick : Nat) (id : Uuid)
      (now : Millis)

/-- A call that fails leaves the registry. -/
def registryStep (U : UpperCase) (table : ServiceTable) : RegistryAction → ServiceTable
  | .register orgId dto id now => (registerService U table orgId dto id now).toOption.getD table
  | .alert orgId settings alert pick id now =>
    (resolveOrRegisterService U table orgId settings alert pick id now).toOption.getD table

def registry (U : UpperCase) : System ServiceTable RegistryAction where
  step table a := some (registryStep U table a)

/-- What is set stays, and no alias is taken away. -/
structure Keeps (old new : ServiceRecord) : Prop where
  id : new.id = old.id
  key : new.uniqueKey = old.uniqueKey
  name : new.name = old.name
  description : old.description ≠ "" → new.description = old.description
  source : new.source = old.source
  ownerTeamId : ∀ team, old.ownerTeamId = some team → new.ownerTeamId = some team
  environment : ∀ env, old.environment = some env → new.environment = some env
  externalRef : ∀ ref, old.externalRef = some ref → new.externalRef = some ref
  aliases : old.aliases ⊆ new.aliases

/-- Every service is still there with what was set. -/
def KeepsServices (table table' : ServiceTable) : Prop :=
  ∀ old ∈ table.rows, ∃ new ∈ table'.rows, Keeps old new

/-- An alert takes nothing from the services. -/
def AlertKeeps (U : UpperCase) (table : ServiceTable) : RegistryAction → Prop
  | .register .. => True
  | a@(.alert ..) => KeepsServices table (registryStep U table a)

/-- An alert that no service answers to, of a name whose key is taken. -/
def Collides (U : UpperCase) (table : ServiceTable) (orgId : Uuid) (settings : DiscoverySettings)
    (alert : AlertService) : Prop :=
  settings.autoRegisterServices = true ∧
    (∀ value ∈ namesOf alert.candidates, ∀ s ∈ table.rows, s.orgId = orgId → s.answersTo U value = false) ∧
      ∃ identifier, alert.identifier = some identifier ∧
        ∃ s ∈ table.rows, s.uniqueKey = (orgId, normalizeKey U (trim identifier)) ∧
          normalizeKey U (trim identifier) ≠ []

def MissesTaken (U : UpperCase) (table : ServiceTable) : RegistryAction → Prop
  | .register .. => False
  | .alert orgId settings alert _ _ _ => Collides U table orgId settings alert

section
variable {U : UpperCase} {table : ServiceTable} {orgId : Uuid}

theorem Keeps.refl (s : ServiceRecord) : Keeps s s :=
  ⟨rfl, rfl, rfl, fun _ => rfl, rfl, fun _ h => h, fun _ h => h, fun _ h => h, fun _ h => h⟩

theorem KeepsServices.refl (table : ServiceTable) : KeepsServices table table :=
  fun old hold => ⟨old, hold, .refl old⟩

theorem limitOne_none {α : Type} {pick : Nat} {rows : List α} : limitOne pick rows = none ↔ rows = [] := by
  cases rows with
  | nil => simp [limitOne]
  | cons row rows =>
    rw [limitOne, List.getElem?_eq_none_iff]
    have hlt := Nat.mod_lt pick (Nat.succ_pos rows.length)
    simp only [List.length_cons, reduceCtorEq, iff_false, Nat.not_le]
    exact hlt

theorem resolveService_none {pick : Nat} {candidates : List (Option Text)} :
    resolveService U table orgId pick candidates = none ↔
      ∀ value ∈ namesOf candidates, ∀ s ∈ table.rows, s.orgId = orgId → s.answersTo U value = false := by
  rw [resolveService, List.findSome?_eq_none_iff]
  refine forall₂_congr fun value _ => ?_
  rw [limitOne_none, List.filter_eq_nil_iff]
  simp

variable {identifier : Text} {alert : AlertService} {settings : DiscoverySettings}

theorem identifier_looked_for
    (h : alert.identifier = some identifier) : trim identifier ∈ namesOf alert.candidates := by
  have hne := List.find?_some h
  rw [namesOf, List.mem_filter]
  exact ⟨List.mem_map_of_mem (List.mem_of_find?_eq_some h), by simpa using hne⟩

/-! ## What a registration does -/

/-- The registration of an alert that nothing answers to. -/
def discovered (U : UpperCase) (settings : DiscoverySettings) (alert : AlertService) (identifier : Text) :
    Registration where
  name := trim identifier
  serviceKey := normalizeKey U (trim identifier)
  source := some .monitoringDiscovery
  aliases := normalizeAliases U ((discoveredService settings alert identifier).aliases ++
    [trim identifier, normalizeKey U (trim identifier)])

theorem checkRegistration_discovered (h : alert.identifier = some identifier) :
    checkRegistration U (discoveredService settings alert identifier) =
      if normalizeKey U (trim identifier) = [] then .error .noKey
      else .ok (discovered U settings alert identifier) := by
  have hname : trim identifier ≠ [] := by simpa using List.find?_some h
  have hsource : readSource (some "monitoring_discovery") = .ok (some .monitoringDiscovery) := by decide
  simp only [checkRegistration, discoveredService, Option.map_some, Option.getD_some, hname, if_false,
    hsource, Option.map_none, Option.getD_none, if_true]
  by_cases hkey : normalizeKey U (trim identifier) = []
  · simp only [hkey, if_true]
    rfl
  · simp only [hkey, if_false]
    rfl

theorem findByKey_none {serviceKey : Text} :
    findByKey table orgId serviceKey = none ↔ ∀ s ∈ table.rows, s.uniqueKey ≠ (orgId, serviceKey) := by
  rw [findByKey, List.find?_eq_none]
  refine forall₂_congr fun s _ => ?_
  simp [ServiceRecord.uniqueKey]

theorem findByKey_some {serviceKey : Text} {s : ServiceRecord}
    (h : findByKey table orgId serviceKey = some s) :
    s ∈ table.rows ∧ s.uniqueKey = (orgId, serviceKey) := by
  have hkey := List.find?_some h
  simp only [Bool.and_eq_true, beq_iff_eq] at hkey
  exact ⟨List.mem_of_find?_eq_some h, Prod.ext hkey.1 hkey.2⟩

theorem insert_keeps {row : ServiceRecord} {table' : ServiceTable} (h : table.insert row = some table') :
    KeepsServices table table' := by
  unfold ServiceTable.insert at h
  split at h
  · obtain rfl := Option.some.inj h
    exact fun old hold => ⟨old, List.mem_append_left _ hold, .refl old⟩
  · cases h

theorem registerService_keeps (h : alert.identifier = some identifier) {id : Uuid} {now : Millis}
    (hfree : ∀ s ∈ table.rows, s.uniqueKey ≠ (orgId, normalizeKey U (trim identifier))) :
    KeepsServices table
      ((registerService U table orgId (discoveredService settings alert identifier) id now).toOption.getD
        table) := by
  rw [registerService, checkRegistration_discovered h]
  split
  · exact .refl table
  · have hnone : findByKey table orgId (discovered U settings alert identifier).serviceKey = none :=
      findByKey_none.mpr hfree
    simp only [bind, Except.bind, hnone]
    cases hinsert : table.insert (newService orgId id now (discoveredService settings alert identifier)
        (discovered U settings alert identifier)) with
    | none => exact .refl table
    | some table' => exact insert_keeps hinsert

theorem registerService_takes (h : alert.identifier = some identifier) {id : Uuid} {now : Millis}
    (hmiss : ∀ s ∈ table.rows, s.orgId = orgId → s.answersTo U (trim identifier) = false)
    {s : ServiceRecord} (hs : s ∈ table.rows)
    (hkey : s.uniqueKey = (orgId, normalizeKey U (trim identifier)))
    (hsome : normalizeKey U (trim identifier) ≠ []) :
    ¬ KeepsServices table
      ((registerService U table orgId (discoveredService settings alert identifier) id now).toOption.getD
        table) := by
  obtain ⟨existing, hfind⟩ : ∃ existing,
      findByKey table orgId (discovered U settings alert identifier).serviceKey = some existing := by
    rw [← Option.ne_none_iff_exists']
    exact fun hnone => findByKey_none.mp hnone s hs hkey
  obtain ⟨hmem, hexisting⟩ := findByKey_some hfind
  rw [registerService, checkRegistration_discovered h, if_neg hsome]
  simp only [bind, Except.bind, hfind]
  intro hkeeps
  obtain ⟨new, hnew, hkept⟩ := hkeeps existing hmem
  have hrenamed : new.name = trim identifier := by
    rcases Table.mem_update.mp hnew with ⟨row, -, -, rfl⟩ | ⟨hrow, hother⟩
    · rfl
    · exact absurd hkept.id (by simpa using hother)
  have hanswers : existing.answersTo U (trim identifier) = true := by
    simp [ServiceRecord.answersTo, ← hrenamed, hkept.name]
  rw [hmiss existing hmem (congrArg Prod.fst hexisting)] at hanswers
  cases hanswers

theorem alertKeeps_iff (a : RegistryAction) : AlertKeeps U table a ↔ ¬ MissesTaken U table a := by
  cases a with
  | register orgId dto id now => exact ⟨fun _ h => h, fun _ => trivial⟩
  | alert orgId settings alert pick id now =>
    show KeepsServices table _ ↔ ¬ Collides U table orgId settings alert
    simp only [registryStep, resolveOrRegisterService]
    cases hfound : resolveService U table orgId pick alert.candidates with
    | some s =>
      refine ⟨fun _ hcollides => ?_, fun _ => .refl table⟩
      rw [resolveService_none.mpr hcollides.2.1] at hfound
      cases hfound
    | none =>
      have hmiss := resolveService_none.mp hfound
      cases hident : alert.identifier with
      | none =>
        refine ⟨fun _ hcollides => ?_, fun _ => .refl table⟩
        obtain ⟨-, -, identifier, hsome, -⟩ := hcollides
        rw [hident] at hsome
        cases hsome
      | some identifier =>
        by_cases hauto : settings.autoRegisterServices = true
        · simp only [hauto, if_true]
          constructor
          · rintro hkeeps ⟨-, -, identifier', hsome, s, hs, hkey, hne⟩
            obtain rfl := Option.some.inj (hident.symm.trans hsome)
            exact registerService_takes hident (hmiss _ (identifier_looked_for hident)) hs hkey hne
              hkeeps
          · intro hfree
            by_cases hne : normalizeKey U (trim identifier) = []
            · rw [registerService, checkRegistration_discovered hident, if_pos hne]
              exact .refl table
            · exact registerService_keeps hident fun s hs hkey =>
                hfree ⟨hauto, hmiss, identifier, hident, s, hs, hkey, hne⟩
        · simp only [hauto, Bool.false_eq_true, if_false]
          exact ⟨fun _ hcollides => hauto hcollides.1, fun _ => .refl table⟩

theorem registry_runs (actions : List RegistryAction) (table : ServiceTable) :
    ∃ t, (registry U).run table actions = some t := by
  induction actions generalizing table with
  | nil => exact ⟨table, rfl⟩
  | cons a actions ih => exact ih (registryStep U table a)

/-- **Along every run of registrations and alerts, no alert takes anything from
a service exactly when none misses a service whose key its name has.** -/
theorem alerts_keep_iff (U : UpperCase) (actions : List RegistryAction) :
    (registry U).Along (AlertKeeps U) .empty actions ↔
      (registry U).Along (fun table a => ¬ MissesTaken U table a) .empty actions := by
  obtain ⟨t, hrun⟩ := registry_runs (U := U) actions .empty
  exact (registry U).along_congr (P := fun _ => True) (fun _ _ _ => trivial)
    (fun _ _ => alertKeeps_iff _) trivial hrun

end

def paymentsApi : RegistryAction :=
  .register 1
    { name := some "Payments API".toList, serviceKey := none, description := some "Card payments"
      ownerTeamId := some 7, environment := some "production", source := none, externalRef := none
      aliases := [] } 100 0

/-- The label that the monitor has for it. -/
def paymentsAlert : RegistryAction :=
  .alert 1 ⟨true, some 9⟩ ⟨none, some "payments-api".toList, none, none, none, none⟩ 0 101 1

theorem paymentsAlert_takes :
    ¬ ∀ (U : UpperCase) (actions : List RegistryAction),
      (registry U).Along (AlertKeeps U) .empty actions := by
  intro hall
  have hkeeps := (hall .ascii [paymentsApi, paymentsAlert]).2 _ rfl
  have hkept : KeepsServices _ _ := hkeeps.1
  obtain ⟨new, hnew, hold⟩ := hkept _ List.mem_cons_self
  have hname := hold.name
  rw [List.mem_singleton.mp hnew] at hname
  revert hname
  decide

end Cadena.Services
