import Cadena.Base.Table
import Cadena.Integrations.SyncGuard
import Cadena.WorkItems.Workflow

/-!
# Who is calling

`AuthGuard.canActivate` resolves the principal of a request and writes it over
the headers that name the tenant, the actor and the role; the transition
endpoint reads these headers, falls back to the person of the actor, and calls
`transitionWorkItem`. What reaches it is what the caller proved exactly if the
credential has a role.
-/

namespace Cadena.Auth

open Cadena.Base Cadena.Connectors Cadena.WorkItems

inductive PrincipalSource where
  | credential | bootstrap | devHeader
  deriving DecidableEq

structure Principal where
  orgId : String
  actorId : String
  roles : List String
  source : PrincipalSource
  credentialId : Option Uuid
  deriving DecidableEq

/-- A row of `api_credentials`. Only `issueCredential` inserts one: the actor
and the roles are not blank. -/
structure ApiCredential where
  id : Uuid
  orgId : String
  actorId : String
  name : String
  tokenHash : String
  roles : List String
  revokedAt : Option Millis
  actorNamed : actorId ≠ ""
  rolesNamed : ∀ role ∈ roles, role ≠ ""

structure Person where
  id : Uuid
  orgId : String
  role : String

/-- The tables and the environment that decide who calls; `parseUuid` is the
cast of the database. -/
structure AuthState where
  credentials : List ApiCredential
  people : List Person
  bootstrapToken : Option String
  devHeadersAllowed : Bool
  parseUuid : String → Option Uuid
  distinct : (credentials.map (·.tokenHash)).Nodup

structure HttpError where
  statusCode : Nat
  error : String
  message : String
  deriving DecidableEq

structure RequestHeaders where
  authorization : Option String
  orgId : Option String
  actorId : Option String
  actorRole : Option String
  deriving DecidableEq

structure HttpRequest where
  path : String
  headers : RequestHeaders
  principal : Option Principal

structure IssueCredentialDto where
  name : String
  actorId : String
  roles : List String

/-- `issueCredential`; `token` is the random text that is returned once. -/
def issueCredential (P : Platform) (orgId : String) (dto : IssueCredentialDto) (id : Uuid) (token : String) :
    Except String ApiCredential :=
  if trimString dto.name = "" then .error "name is required"
  else
    .ok
      { id := id
        orgId := orgId
        actorId := if trimString dto.actorId = "" then "credential:" ++ trimString dto.name else trimString dto.actorId
        name := trimString dto.name
        tokenHash := P.sha256 token.toList
        roles := (dto.roles.map trimString).filter (· ≠ "")
        revokedAt := none
        actorNamed := by
          split
          · intro h
            have hlist := congrArg String.toList h
            rw [String.toList_append] at hlist
            cases hlist
          · assumption
        rolesNamed := fun role hrole => by simpa using (List.mem_filter.mp hrole).2 }

def verifyToken (P : Platform) (S : AuthState) (token : String) : Option Principal :=
  (S.credentials.find? fun c => c.tokenHash == P.sha256 token.toList && c.revokedAt.isNone).map fun c =>
    ⟨c.orgId, c.actorId, c.roles, .credential, some c.id⟩

/-- `header?.toString().trim()`, and the empty text where there is none. -/
def trimmed (header : Option String) : String := trimString (header.getD "")

def bearerToken (P : Platform) (authorization : Option String) : String :=
  let header := authorization.getD ""
  if "bearer ".toList.isPrefixOf (P.toLowerCase header).toList then
    trimString (String.ofList (header.toList.drop 7))
  else ""

def pilotOrgId : String := "00000000-0000-0000-0000-000000000099"

def resolve (P : Platform) (S : AuthState) (headers : RequestHeaders) : Except HttpError Principal :=
  let token := bearerToken P headers.authorization
  if token ≠ "" then
    if S.bootstrapToken = some token then
      if trimmed headers.orgId = "" then
        .error ⟨400, "tenant_required", "The bootstrap token requires an x-org-id header naming the target tenant"⟩
      else .ok ⟨trimmed headers.orgId, "bootstrap", ["platform_admin"], .bootstrap, none⟩
    else
      match verifyToken P S token with
      | some principal => .ok principal
      | none => .error ⟨401, "invalid_credential", "The bearer token is unknown or revoked"⟩
  else if S.devHeadersAllowed then
    .ok
      ⟨orText (some (trimmed headers.orgId)) pilotOrgId, orText (some (trimmed headers.actorId)) "dev-user",
        [orText (some (trimmed headers.actorRole)) "developer"], .devHeader, none⟩
  else
    .error ⟨401, "authentication_required",
      "Provide a bearer token. Header-based identity is disabled outside development."⟩

/-- The paths that need no principal. -/
def exempt (path : String) : Bool :=
  path = "/health/live" || path = "/health/ready" || "/integrations/relay/".toList.isPrefixOf path.toList

/-- The headers with the authenticated values. -/
def overwrite (headers : RequestHeaders) (principal : Principal) : RequestHeaders :=
  { headers with
    orgId := some principal.orgId
    actorId := some principal.actorId
    actorRole := match principal.roles with
      | role :: _ => some role
      | [] => headers.actorRole }

def canActivate (P : Platform) (S : AuthState) (request : HttpRequest) : Except HttpError HttpRequest :=
  if exempt request.path then .ok request
  else
    match resolve P S request.headers with
    | .error e => .error e
    | .ok principal =>
      if principal.source = .devHeader then .ok { request with principal := some principal }
      else if trimmed request.headers.orgId ≠ "" ∧ trimmed request.headers.orgId ≠ principal.orgId then
        .error ⟨403, "tenant_mismatch", "The x-org-id header does not match the authenticated tenant"⟩
      else .ok { request with headers := overwrite request.headers principal, principal := some principal }

/-! ## The transition endpoint -/

def waitReasonCategories : List String :=
  ["customer", "third_party", "dependency", "approval", "capacity", "other"]

structure WaitReason where
  category : String
  note : Option String
  deriving DecidableEq

def invalidWaitReason (message : String) : HttpError := ⟨422, "invalid_wait_reason", message⟩

def badCategory : HttpError :=
  invalidWaitReason ("wait_reason.category must be one of: " ++ String.intercalate ", " waitReasonCategories)

def badNote : HttpError := invalidWaitReason "wait_reason.note must be text of at most 500 characters"

def parseNote : Option Json → Except HttpError (Option String)
  | none | some .null => .ok none
  | some (.str note) =>
    if Integrations.jsLength note > 500 then .error badNote
    else .ok (if trimString note = "" then none else some (trimString note))
  | some _ => .error badNote

def parseWaitReason : Option Json → Except HttpError (Option WaitReason)
  | none | some .null => .ok none
  | some (.obj entries) =>
    match lookup entries "category" with
    | some (.str category) =>
      if waitReasonCategories.contains category then
        (parseNote (lookup entries "note")).map fun note => some ⟨category, note⟩
      else .error badCategory
    | _ => .error badCategory
  | some _ => .error badCategory

structure TransitionBody where
  toState : String
  fields : Option Fields
  waitReason : Option Json

/-- What `transitionWorkItem` is called with. -/
structure TransitionCall where
  workItemId : String
  orgId : String
  toState : String
  actorId : String
  actorRole : String
  fields : Option Fields
  waitReason : Option WaitReason

def getPersonById (S : AuthState) (id : String) : Except HttpError (Option Person) :=
  match S.parseUuid id with
  | none => .error ⟨500, "Internal Server Error", "invalid input syntax for type uuid"⟩
  | some uuid => .ok (S.people.find? (·.id == uuid))

/-- The header counts first, then the person, wherever it belongs. -/
def resolveActorRole (S : AuthState) (actorId : String) (headerRole : Option String) : Except HttpError String :=
  if truthy headerRole then .ok (headerRole.getD "")
  else (getPersonById S actorId).map fun person => (person.map (·.role)).getD "developer"

def defaultActorId : String := "00000000-0000-0000-0000-000000000001"

def transitionWorkItem (S : AuthState) (id : String) (body : TransitionBody) (headers : RequestHeaders) :
    Except HttpError TransitionCall := do
  let waitReason ← parseWaitReason body.waitReason
  let actorId := orText headers.actorId defaultActorId
  let actorRole ← resolveActorRole S actorId headers.actorRole
  return ⟨id, orText headers.orgId pilotOrgId, body.toState, actorId, actorRole, body.fields, waitReason⟩

def transitionPath (id : String) : String := "/workitems/" ++ id ++ "/transitions"

/-- The guard, and then the endpoint. -/
def transitionRequest (P : Platform) (S : AuthState) (id : String) (body : TransitionBody)
    (headers : RequestHeaders) : Except HttpError TransitionCall := do
  let request ← canActivate P S ⟨transitionPath id, headers, none⟩
  transitionWorkItem S id body request.headers

structure Carries (P : Platform) (S : AuthState) (c : ApiCredential) (authorization token : String) : Prop where
  stored : c ∈ S.credentials
  hash : c.tokenHash = P.sha256 token.toList
  named : token ≠ ""
  bearer : bearerToken P (some authorization) = token

/-- Two requests with one token, both let in, lead to the same call. -/
def SameCall (P : Platform) (S : AuthState) (authorization : String) : Prop :=
  ∀ id body h₁ h₂, h₁.authorization = some authorization → h₂.authorization = some authorization →
    (canActivate P S ⟨transitionPath id, h₁, none⟩).isOk = true →
    (canActivate P S ⟨transitionPath id, h₂, none⟩).isOk = true →
    transitionRequest P S id body h₁ = transitionRequest P S id body h₂

/-- A role that the guard admits is stored for the credential, or for its person
in the tenant. -/
def RoleStored (S : AuthState) (c : ApiCredential) (guard : WorkflowGuard) : Prop :=
  ∃ role ∈ allowedRoles guard, role ∈ c.roles ∨
    ∃ person ∈ S.people, S.parseUuid c.actorId = some person.id ∧ person.orgId = c.orgId ∧ person.role = role

/-- A transition with a role guard commits only for a role that is stored. -/
def GuardsHold (P : Platform) (S : AuthState) (c : ApiCredential) (authorization : String) : Prop :=
  ∀ id body headers call (item : WorkItem) wf rule guard fields,
    headers.authorization = some authorization → transitionRequest P S id body headers = .ok call →
    (rulesOf wf).find? (fun t => t.fromState == item.status && t.toState == call.toState) = some rule →
    rule.guard = some guard → guard.isSet = true → allowedRoles guard ≠ [] →
    planTransition item wf ⟨call.toState, call.actorRole, call.fields.getD []⟩ = .ok fields → RoleStored S c guard

/-! ## The guard on a bearer token -/

section
variable {P : Platform} {S : AuthState} {c : ApiCredential} {authorization token : String} {id : String}
  {headers : RequestHeaders}

theorem not_exempt (id : String) : exempt (transitionPath id) = false := by
  have hlist : (transitionPath id).toList = "/workitems/".toList ++ (id.toList ++ "/transitions".toList) := by
    rw [transitionPath, String.toList_append, String.toList_append, List.append_assoc]
  have hne : ∀ path : String, path.toList.take 2 ≠ ['/', 'w'] → transitionPath id ≠ path := by
    intro path hpath heq
    rw [← heq, hlist] at hpath
    exact hpath rfl
  rw [exempt, hlist, decide_eq_false (hne _ (by decide)), decide_eq_false (hne _ (by decide))]
  rfl

theorem verifyToken_stored (hcarries : Carries P S c authorization token) (hlive : c.revokedAt = none) :
    verifyToken P S token = some ⟨c.orgId, c.actorId, c.roles, .credential, some c.id⟩ := by
  rw [verifyToken]
  cases hfind : S.credentials.find? fun c => c.tokenHash == P.sha256 token.toList && c.revokedAt.isNone with
  | none =>
    have hnot := List.find?_eq_none.mp hfind c hcarries.stored
    simp [hcarries.hash, hlive] at hnot
  | some d =>
    have hmatch := List.find?_some hfind
    simp only [Bool.and_eq_true, beq_iff_eq] at hmatch
    have hsame : d = c :=
      Table.eq_of_key S.distinct (List.mem_of_find?_eq_some hfind) hcarries.stored
        (hmatch.1.trans hcarries.hash.symm)
    rw [hsame]
    rfl

theorem activated_credential (hcarries : Carries P S c authorization token) (hlive : c.revokedAt = none)
    (hbootstrap : S.bootstrapToken ≠ some token) (hauth : headers.authorization = some authorization)
    {request : HttpRequest}
    (h : canActivate P S ⟨transitionPath id, headers, none⟩ = .ok request) :
    request.headers = overwrite headers ⟨c.orgId, c.actorId, c.roles, .credential, some c.id⟩ := by
  have hresolve : resolve P S headers = .ok ⟨c.orgId, c.actorId, c.roles, .credential, some c.id⟩ := by
    rw [resolve, hauth, hcarries.bearer, if_pos hcarries.named, if_neg hbootstrap,
      verifyToken_stored hcarries hlive]
  simp only [canActivate, not_exempt, hresolve, Bool.false_eq_true, if_false, reduceCtorEq] at h
  split at h <;> cases h
  rfl

variable {body : TransitionBody}

theorem transitionWorkItem_congr {id : String} {h₁ h₂ : RequestHeaders}
    (horg : h₁.orgId = h₂.orgId) (hactor : h₁.actorId = h₂.actorId) (hrole : h₁.actorRole = h₂.actorRole) :
    transitionWorkItem S id body h₁ = transitionWorkItem S id body h₂ := by
  rw [transitionWorkItem, transitionWorkItem, horg, hactor, hrole]

theorem transitionRequest_of_activated {request : HttpRequest}
    (h : canActivate P S ⟨transitionPath id, headers, none⟩ = .ok request) :
    transitionRequest P S id body headers = transitionWorkItem S id body request.headers := by
  rw [transitionRequest, h]
  rfl

theorem ok_of_isOk {ε α : Type} {x : Except ε α} (h : x.isOk = true) : ∃ a, x = .ok a := by
  cases x with
  | error e => cases h
  | ok a => exact ⟨a, rfl⟩

theorem sameCall_of_roles (hcarries : Carries P S c authorization token) (hlive : c.revokedAt = none)
    (hroles : c.roles ≠ [])
    (hbootstrap : S.bootstrapToken ≠ some token) : SameCall P S authorization := by
  intro id body h₁ h₂ hauth₁ hauth₂ hin₁ hin₂
  obtain ⟨r₁, hr₁⟩ := ok_of_isOk hin₁
  obtain ⟨r₂, hr₂⟩ := ok_of_isOk hin₂
  have hh₁ := activated_credential hcarries hlive hbootstrap hauth₁ hr₁
  have hh₂ := activated_credential hcarries hlive hbootstrap hauth₂ hr₂
  rw [transitionRequest_of_activated hr₁, transitionRequest_of_activated hr₂, hh₁, hh₂]
  refine transitionWorkItem_congr rfl rfl ?_
  cases hlist : c.roles with
  | nil => exact absurd hlist hroles
  | cons role roles => rw [overwrite, overwrite]

theorem planTransition_guard {item : WorkItem} {wf : Option PublishedWorkflow} (ctx : TransitionContext)
    {rule : WorkflowTransitionRule} {guard : WorkflowGuard} {fields : Fields}
    (hrule : (rulesOf wf).find? (fun t => t.fromState == item.status && t.toState == ctx.toState) = some rule)
    (hguard : rule.guard = some guard) (hset : guard.isSet = true) (hallowed : allowedRoles guard ≠ [])
    (hplan : planTransition item wf ctx = .ok fields) : ctx.actorRole ∈ allowedRoles guard := by
  by_contra hnot
  have hrefused : evaluateRoleGuard guard ctx.actorRole = .error (.guardFailed (requiredRoleName guard)) := by
    rw [evaluateRoleGuard, if_pos ⟨hallowed, by simpa using hnot⟩]
  simp only [planTransition, hrule, hguard, Option.filter_some, hset, if_true, hrefused] at hplan
  split at hplan <;> cases hplan

theorem transitionWorkItem_role {role : String} (hheader : headers.actorRole = some role) (hrole : role ≠ "") :
    transitionWorkItem S id body headers = (parseWaitReason body.waitReason).map fun reason =>
      ⟨id, orText headers.orgId pilotOrgId, body.toState, orText headers.actorId defaultActorId, role, body.fields,
        reason⟩ := by
  have htruthy : truthy (some role) = true := by simpa [truthy] using hrole
  simp only [transitionWorkItem, hheader, resolveActorRole, htruthy, if_true]
  cases parseWaitReason body.waitReason <;> rfl

theorem guardsHold_of_roles (hcarries : Carries P S c authorization token) (hlive : c.revokedAt = none)
    (hroles : c.roles ≠ [])
    (hbootstrap : S.bootstrapToken ≠ some token) : GuardsHold P S c authorization := by
  intro id body headers call item wf rule guard fields hauth hcall hrule hguard hset hallowed hplan
  cases hin : canActivate P S ⟨transitionPath id, headers, none⟩ with
  | error e =>
    rw [transitionRequest, hin] at hcall
    cases hcall
  | ok request =>
    have hheaders := activated_credential hcarries hlive hbootstrap hauth hin
    rw [transitionRequest_of_activated hin, hheaders] at hcall
    obtain ⟨role, roles, hlist⟩ := List.exists_cons_of_ne_nil hroles
    have hmem : role ∈ c.roles := by
      rw [hlist]
      exact List.mem_cons_self
    have hheader : (overwrite headers ⟨c.orgId, c.actorId, c.roles, .credential, some c.id⟩).actorRole =
        some role := by
      simp only [overwrite, hlist]
    rw [transitionWorkItem_role hheader (c.rolesNamed role hmem)] at hcall
    have hfirst : call.actorRole = role := by
      cases hreason : parseWaitReason body.waitReason with
      | error e =>
        rw [hreason] at hcall
        cases hcall
      | ok reason =>
        rw [hreason] at hcall
        cases hcall
        rfl
    refine ⟨role, ?_, .inl hmem⟩
    rw [← hfirst]
    exact planTransition_guard ⟨call.toState, call.actorRole, call.fields.getD []⟩ hrule hguard hset
      hallowed hplan

/-! ## Without a role -/

def emptyBody : TransitionBody := ⟨"", none, none⟩

def claiming (authorization : String) (orgId actorRole : Option String) : RequestHeaders :=
  ⟨some authorization, orgId, none, actorRole⟩

theorem role_survives (hcarries : Carries P S c authorization token) (hlive : c.revokedAt = none)
    (hroles : c.roles = [])
    (hbootstrap : S.bootstrapToken ≠ some token) (id role : String) (hrole : role ≠ "") :
    (canActivate P S ⟨transitionPath id, claiming authorization none (some role), none⟩).isOk = true ∧
      ∃ call, transitionRequest P S id emptyBody (claiming authorization none (some role)) = .ok call ∧
        call.actorRole = role := by
  have hresolve : resolve P S (claiming authorization none (some role)) =
      .ok ⟨c.orgId, c.actorId, c.roles, .credential, some c.id⟩ := by
    rw [resolve, show bearerToken P (claiming authorization none (some role)).authorization = token from
      hcarries.bearer, if_pos hcarries.named, if_neg hbootstrap, verifyToken_stored hcarries hlive]
  have hin : canActivate P S ⟨transitionPath id, claiming authorization none (some role), none⟩ =
      .ok ⟨transitionPath id, overwrite (claiming authorization none (some role))
        ⟨c.orgId, c.actorId, c.roles, .credential, some c.id⟩,
        some ⟨c.orgId, c.actorId, c.roles, .credential, some c.id⟩⟩ := by
    simp only [canActivate, not_exempt, hresolve, Bool.false_eq_true, if_false, reduceCtorEq]
    rw [if_neg]
    intro hclaimed
    exact hclaimed.1 rfl
  refine ⟨by rw [hin]; rfl, ?_⟩
  rw [transitionRequest_of_activated hin]
  have hheader : (overwrite (claiming authorization none (some role))
      ⟨c.orgId, c.actorId, c.roles, .credential, some c.id⟩).actorRole = some role := by
    simp only [overwrite, hroles]
    rfl
  rw [transitionWorkItem_role hheader hrole]
  exact ⟨_, rfl, rfl⟩

theorem not_sameCall_of_no_roles (hcarries : Carries P S c authorization token) (hlive : c.revokedAt = none)
    (hroles : c.roles = [])
    (hbootstrap : S.bootstrapToken ≠ some token) : ¬ SameCall P S authorization := by
  intro h
  obtain ⟨hin₁, call₁, hcall₁, hrole₁⟩ :=
    role_survives hcarries hlive hroles hbootstrap "1" "developer" (by decide)
  obtain ⟨hin₂, call₂, hcall₂, hrole₂⟩ :=
    role_survives hcarries hlive hroles hbootstrap "1" "incident_commander" (by decide)
  have hsame := h "1" emptyBody _ _ rfl rfl hin₁ hin₂
  rw [hcall₁, hcall₂] at hsame
  have hroles := congrArg TransitionCall.actorRole (Except.ok.inj hsame)
  rw [hrole₁, hrole₂] at hroles
  exact absurd hroles (by decide)

theorem bootstrap_org (hcarries : Carries P S c authorization token)
    (hbootstrap : S.bootstrapToken = some token) (id orgId : String) (horg : trimString orgId = orgId)
    (hnamed : orgId ≠ "") :
    (canActivate P S ⟨transitionPath id, claiming authorization (some orgId) none, none⟩).isOk = true ∧
      ∃ call, transitionRequest P S id emptyBody (claiming authorization (some orgId) none) = .ok call ∧
        call.orgId = orgId := by
  have htrim : trimmed (claiming authorization (some orgId) none).orgId = orgId := horg
  have hresolve : resolve P S (claiming authorization (some orgId) none) =
      .ok ⟨orgId, "bootstrap", ["platform_admin"], .bootstrap, none⟩ := by
    rw [resolve, show bearerToken P (claiming authorization (some orgId) none).authorization = token from
      hcarries.bearer, if_pos hcarries.named, if_pos hbootstrap, htrim, if_neg hnamed]
  have hin : canActivate P S ⟨transitionPath id, claiming authorization (some orgId) none, none⟩ =
      .ok ⟨transitionPath id, overwrite (claiming authorization (some orgId) none)
        ⟨orgId, "bootstrap", ["platform_admin"], .bootstrap, none⟩,
        some ⟨orgId, "bootstrap", ["platform_admin"], .bootstrap, none⟩⟩ := by
    simp only [canActivate, not_exempt, hresolve, Bool.false_eq_true, if_false, reduceCtorEq]
    rw [if_neg]
    intro hclaimed
    exact hclaimed.2 htrim
  refine ⟨by rw [hin]; rfl, ?_⟩
  rw [transitionRequest_of_activated hin]
  refine ⟨_, rfl, ?_⟩
  simp [overwrite, orText, truthy, hnamed]

theorem not_sameCall_of_bootstrap (hcarries : Carries P S c authorization token)
    (hbootstrap : S.bootstrapToken = some token) : ¬ SameCall P S authorization := by
  intro h
  obtain ⟨hin₁, call₁, hcall₁, horg₁⟩ :=
    bootstrap_org hcarries hbootstrap "1" "one" (by decide) (by decide)
  obtain ⟨hin₂, call₂, hcall₂, horg₂⟩ :=
    bootstrap_org hcarries hbootstrap "1" "two" (by decide) (by decide)
  have hsame := h "1" emptyBody _ _ rfl rfl hin₁ hin₂
  rw [hcall₁, hcall₂] at hsame
  have horgs := congrArg TransitionCall.orgId (Except.ok.inj hsame)
  rw [horg₁, horg₂] at horgs
  exact absurd horgs (by decide)

theorem revoked_refused (hcarries : Carries P S c authorization token) (hrevoked : c.revokedAt ≠ none)
    (hbootstrap : S.bootstrapToken ≠ some token) (hauth : headers.authorization = some authorization)
    (request : HttpRequest) : canActivate P S ⟨transitionPath id, headers, none⟩ ≠ .ok request := by
  have hnone : verifyToken P S token = none := by
    rw [verifyToken, Option.map_eq_none_iff, List.find?_eq_none]
    intro d hd hmatch
    rw [Bool.and_eq_true, beq_iff_eq, Option.isNone_iff_eq_none] at hmatch
    have hsame : d = c := Table.eq_of_key S.distinct hd hcarries.stored (hmatch.1.trans hcarries.hash.symm)
    exact hrevoked (hsame ▸ hmatch.2)
  have hresolve : resolve P S headers = .error ⟨401, "invalid_credential", "The bearer token is unknown or revoked"⟩ := by
    rw [resolve, hauth, hcarries.bearer, if_pos hcarries.named, if_neg hbootstrap, hnone]
  simp only [canActivate, not_exempt, hresolve, Bool.false_eq_true, if_false]
  exact nofun

theorem holds_of_revoked (hcarries : Carries P S c authorization token) (hrevoked : c.revokedAt ≠ none)
    (hbootstrap : S.bootstrapToken ≠ some token) :
    SameCall P S authorization ∧ GuardsHold P S c authorization := by
  constructor
  · intro id body h₁ h₂ hauth₁ _ hin₁ _
    obtain ⟨request, hr⟩ := ok_of_isOk hin₁
    exact absurd hr (revoked_refused hcarries hrevoked hbootstrap hauth₁ request)
  · intro id body headers call item wf rule guard fields hauth hcall
    cases hin : canActivate P S ⟨transitionPath id, headers, none⟩ with
    | ok request => exact absurd hin (revoked_refused hcarries hrevoked hbootstrap hauth request)
    | error e =>
      rw [transitionRequest, hin] at hcall
      cases hcall

/-- **Roles cannot be asserted by the caller** of a credential exactly if a role
is stored for it, or it was revoked, and its token is not the bootstrap token:
all requests with the token lead to one call, and role guards admit a role that
is stored. -/
theorem roles_proved_iff (hcarries : Carries P S c authorization token) :
    SameCall P S authorization ∧ GuardsHold P S c authorization ↔
      S.bootstrapToken ≠ some token ∧ (c.revokedAt ≠ none ∨ c.roles ≠ []) := by
  constructor
  · rintro ⟨hsame, -⟩
    have hbootstrap : S.bootstrapToken ≠ some token := fun hboot => not_sameCall_of_bootstrap hcarries hboot hsame
    refine ⟨hbootstrap, ?_⟩
    by_cases hlive : c.revokedAt = none
    · exact .inr fun hroles => not_sameCall_of_no_roles hcarries hlive hroles hbootstrap hsame
    · exact .inl hlive
  · rintro ⟨hbootstrap, hcase⟩
    by_cases hlive : c.revokedAt = none
    · have hroles := hcase.resolve_left fun hrevoked => hrevoked hlive
      exact ⟨sameCall_of_roles hcarries hlive hroles hbootstrap, guardsHold_of_roles hcarries hlive hroles hbootstrap⟩
    · exact holds_of_revoked hcarries hlive hbootstrap

end

/-! ## A credential without roles -/

/-- A service account that was issued without roles. -/
def botDto : IssueCredentialDto := ⟨"build bot", "", []⟩

/-- The tables after `issueCredential` with these values, and nobody in them. -/
def issued (dto : IssueCredentialDto) : AuthState :=
  match issueCredential .ascii "1" dto 7 "cdn_01" with
  | .ok c => ⟨[c], [], none, false, fun _ => none, List.nodup_singleton _⟩
  | .error _ => ⟨[], [], none, false, fun _ => none, List.nodup_nil⟩

def mitigatedIncident : WorkItem where
  id := 1
  orgId := 1
  itemKey := "INC-1"
  type := .incident
  title := "Checkout fails"
  description := ""
  status := "Mitigated"
  workflowVersion := 1
  priority := .p1
  severity := none
  ownerId := none
  teamId := 3
  enteredStateAt := 0
  createdAt := 0
  agingBucket := .green
  agingScore := 0
  sla := ⟨0, none, false⟩
  customFields := []
  tags := []
  source := none

/-- The built-in workflow lets a commander alone resolve an incident, and the
bot resolves it by saying that it is one. -/
theorem asserted_role :
    ¬ SameCall .ascii (issued botDto) "Bearer cdn_01" ∧
      ∃ call, transitionRequest .ascii (issued botDto) "1" ⟨"Resolved", none, none⟩
          (claiming "Bearer cdn_01" none (some "incident_commander")) = .ok call ∧
        (planTransition mitigatedIncident (getWorkflowDefinition [] 0 "incident" none)
          ⟨call.toState, call.actorRole, call.fields.getD []⟩).isOk = true ∧
        ∀ c ∈ (issued botDto).credentials, c.roles = [] := by
  constructor
  · intro h
    have hsame := congrArg (Except.map TransitionCall.actorRole)
      (h "1" emptyBody (claiming "Bearer cdn_01" none (some "developer"))
        (claiming "Bearer cdn_01" none (some "incident_commander")) rfl rfl (by decide +kernel) (by decide +kernel))
    exact absurd hsame (by decide +kernel)
  · exact ⟨_, rfl, by decide +kernel, by decide +kernel⟩

/-- A service account with two roles. -/
def leadDto : IssueCredentialDto := ⟨"on-call lead", "lead", [" on_call", "incident_commander"]⟩

theorem roles_proved_lead : ∃ c, (issued leadDto).credentials = [c] ∧
    SameCall .ascii (issued leadDto) "Bearer cdn_01" ∧ GuardsHold .ascii (issued leadDto) c "Bearer cdn_01" := by
  refine ⟨_, rfl, ?_⟩
  exact (roles_proved_iff ⟨List.mem_singleton_self _, rfl, by decide, by decide +kernel⟩).mpr
    ⟨nofun, .inr (by decide +kernel)⟩

end Cadena.Auth
