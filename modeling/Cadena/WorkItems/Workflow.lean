import Cadena.Base.FirstMatch
import Cadena.Base.Split
import Cadena.WorkItems.WorkItem
import Mathlib.Data.List.Infix

/-!
# Workflow definitions

The definitions that govern the states of work items: the built-in ones, the
validation of a published one, the row that a lookup finds, and what
`transitionWorkItem` asks of a transition before it commits.
-/

namespace Cadena.WorkItems

open Cadena.Base Cadena.Connectors

/-- `guard`: a text, or an object with a role or a list of roles. -/
inductive WorkflowGuard where
  | text (guard : String)
  | object (role : Option String) (roles : Option (List String))
  deriving DecidableEq

structure WorkflowTransitionRule where
  fromState : String
  toState : String
  guard : Option WorkflowGuard
  requiresFields : List String
  deriving DecidableEq

structure WorkflowDefinition where
  type : String
  states : List String
  initialState : String
  terminalStates : List String
  transitions : List WorkflowTransitionRule
  deriving DecidableEq

def WorkItemType.text : WorkItemType → String
  | .epic => "epic"
  | .story => "story"
  | .incident => "incident"
  | .release => "release"

/-- A rule without guard and required fields. -/
def plainRule (fromState toState : String) : WorkflowTransitionRule := ⟨fromState, toState, none, []⟩

def deliveryStates : List String :=
  ["Proposed", "Planned", "In Progress", "In Review", "Blocked", "Done", "Verified", "Closed",
    "Reopened"]

def deliveryTransitions : List WorkflowTransitionRule :=
  [plainRule "Proposed" "Planned", plainRule "Planned" "In Progress",
    plainRule "In Progress" "In Review", plainRule "In Review" "Blocked",
    plainRule "Blocked" "In Progress", plainRule "In Review" "Done", plainRule "Done" "Verified",
    plainRule "Verified" "Closed", plainRule "Closed" "Reopened", plainRule "Reopened" "In Progress"]

/-- `BUILT_IN_WORKFLOWS`; those of epics and stories differ in the type only. -/
def builtInWorkflows : List (String × WorkflowDefinition) :=
  [("epic", ⟨"epic", deliveryStates, "Proposed", ["Closed"], deliveryTransitions⟩),
    ("story", ⟨"story", deliveryStates, "Proposed", ["Closed"], deliveryTransitions⟩),
    ("incident",
      { type := "incident"
        states := ["Triaged", "Investigating", "Mitigated", "Resolved", "Post-incident Review", "Closed"]
        initialState := "Triaged"
        terminalStates := ["Closed"]
        transitions :=
          [⟨"Triaged", "Investigating", some (.text "actor.role in [on_call, incident_commander]"), []⟩,
            ⟨"Investigating", "Mitigated", none, ["mitigation_summary"]⟩,
            ⟨"Mitigated", "Resolved", some (.text "incident_commander"), []⟩,
            plainRule "Resolved" "Post-incident Review", plainRule "Post-incident Review" "Closed"] }),
    ("release",
      { type := "release"
        states := ["Draft", "Ready", "Deployed", "Closed"]
        initialState := "Draft"
        terminalStates := ["Closed"]
        transitions :=
          [plainRule "Draft" "Ready", plainRule "Ready" "Deployed", plainRule "Deployed" "Closed"] })]

/-! ## Validation -/

/-- The states a state leads to; an undeclared state leads nowhere. -/
def WorkflowDefinition.next (d : WorkflowDefinition) (state : String) : List String :=
  if d.states.contains state then
    (d.transitions.filter (·.fromState == state)).map (·.toState)
  else []

/-- A state seen for the first time is put at the end of the queue. -/
def enqueue (acc : List String × List String) (state : String) : List String × List String :=
  if acc.1.contains state then acc else (acc.1 ++ [state], acc.2 ++ [state])

/-- The states that a search from the queue has seen at its end. -/
def reachableStates (d : WorkflowDefinition) : Nat → List String → List String → List String
  | 0, visited, _ => visited
  | _ + 1, visited, [] => visited
  | fuel + 1, visited, curr :: queue =>
    let seen := (d.next curr).foldl enqueue (visited, queue)
    reachableStates d fuel seen.1 seen.2

/-- The search stops at the first terminal state. -/
def canReachTerminal (d : WorkflowDefinition) : Nat → List String → List String → Bool
  | 0, _, _ => false
  | _ + 1, _, [] => false
  | fuel + 1, visited, curr :: queue =>
    if d.terminalStates.contains curr then true
    else
      let seen := (d.next curr).foldl enqueue (visited, queue)
      canReachTerminal d fuel seen.1 seen.2

/-- A search takes each target of a transition from the queue once. -/
def WorkflowDefinition.fuel (d : WorkflowDefinition) : Nat := d.transitions.length + 2

def quoted (state : String) : String := "'" ++ state ++ "'"

def declarationErrors (d : WorkflowDefinition) : List String :=
  (if d.states = [] then ["workflow must define at least one state in states array"] else [])
    ++ (if d.initialState = "" then ["missing initial_state"]
      else if d.states.contains d.initialState then []
      else ["initial_state " ++ quoted d.initialState ++ " is not declared in states list"])
    ++ (if d.terminalStates = [] then ["missing terminal state"]
      else (d.terminalStates.filter (!d.states.contains ·)).map fun term =>
        "terminal state " ++ quoted term ++ " is not declared in states list")

def transitionErrors (d : WorkflowDefinition) : List String :=
  d.transitions.flatMap fun tr =>
    (if d.states.contains tr.fromState then []
      else ["transition source state " ++ quoted tr.fromState ++ " is not in declared states"])
    ++ (if d.states.contains tr.toState then []
      else ["transition target state " ++ quoted tr.toState ++ " is not in declared states"])

def reachabilityErrors (d : WorkflowDefinition) : List String :=
  let reachable := reachableStates d d.fuel [d.initialState] [d.initialState]
  let unreachable := d.states.filter (!reachable.contains ·)
  (if unreachable = [] then []
    else ["unreachable state(s) detected: " ++ String.intercalate ", " unreachable])
  ++ (d.states.filter fun s =>
      !d.terminalStates.contains s && !canReachTerminal d d.fuel [s] [s]).map fun s =>
    "state " ++ quoted s ++ " cannot reach any terminal state"

def validateWorkflowDefinition (d : WorkflowDefinition) : List String :=
  match declarationErrors d with
  | [] => transitionErrors d ++ reachabilityErrors d
  | errors => errors

/-- A row of `workflow_definitions`. -/
structure WorkflowRow where
  id : Uuid
  type : String
  version : Nat
  definition : WorkflowDefinition

structure PublishedWorkflow where
  version : Nat
  definition : WorkflowDefinition

/-- `MAX(version) || 0`. -/
def maxVersion (rows : List WorkflowRow) (type : String) : Nat :=
  (((rows.filter (·.type == type)).map (·.version)).max?).getD 0

/-- `LIMIT 1`: which of several rows comes first is the choice of the
database. -/
def limitOne {α : Type} (pick : Nat) (rows : List α) : Option α := rows[pick % rows.length]?

def versionRows (rows : List WorkflowRow) (type : String) (version : Nat) : List WorkflowRow :=
  rows.filter fun r => r.type == type && r.version == version

/-- The row of the version, or of the newest one when none is given; without
a row, the built-in definition passes as version 1. -/
def getWorkflowDefinition (rows : List WorkflowRow) (pick : Nat) (type : String)
    (version : Option Nat) : Option PublishedWorkflow :=
  let asked := version.filter (· != 0)
  match limitOne pick (versionRows rows type (asked.getD (maxVersion rows type))) with
  | some row => some ⟨row.version, row.definition⟩
  | none =>
    if asked.getD 1 = 1 then (builtInWorkflows.lookup type).map fun d => ⟨1, d⟩ else none

/-- `wf?.definition?.transitions || []`. -/
def rulesOf (wf : Option PublishedWorkflow) : List WorkflowTransitionRule :=
  (wf.map (·.definition.transitions)).getD []

/-! ## Transitions -/

structure TransitionContext where
  toState : String
  actorRole : String
  fields : Fields

inductive TransitionError where
  | externallyOwned
  | notAllowed (fromState toState type : String) (version : Nat)
  | guardFailed (missingRole : String)
  | missingFields (fields : List String)
  deriving DecidableEq

def TransitionError.message : TransitionError → String
  | .externallyOwned => "externally_owned"
  | .notAllowed fromState toState type version =>
    "Transition from " ++ quoted fromState ++ " to " ++ quoted toState ++ " is not allowed for type "
      ++ quoted type ++ " v" ++ toString version
  | .guardFailed role => "actor lacks role " ++ quoted role
  | .missingFields fields => "missing required field(s): " ++ String.intercalate ", " fields

/-- `/in\s*\[(.*?)\]/` at the head of a text: what stands in the brackets. -/
def matchRoleList (t : Text) : Option Text :=
  if "in".toList.isPrefixOf t then
    match (t.drop 2).dropWhile isSpace with
    | '[' :: rest =>
      let inside := rest.takeWhile fun c => c != ']' && !(['\n', '\r', '\u2028', '\u2029'].contains c)
      if (rest.drop inside.length).head? = some ']' then some inside else none
    | _ => none
  else none

def splitString (sep s : String) : List String :=
  (splitText sep.toList s.toList).map fun t => String.ofList (trim t)

/-- The roles that a guard allows; a guard with none lets everyone pass. -/
def allowedRoles : WorkflowGuard → List String
  | .text guard =>
    if "in [".toList <:+: guard.toList then
      match firstMatch matchRoleList guard.toList with
      | some (c :: inside) => splitString "," (String.ofList (c :: inside))
      | _ => []
    else if guard.toList.contains ':' then
      [((splitString ":" guard)[1]?).getD ""]
    else [guard]
  | .object role roles => if truthy role then [role.getD ""] else roles.getD []

def requiredRoleName (guard : WorkflowGuard) : String := String.intercalate " or " (allowedRoles guard)

def evaluateRoleGuard (guard : WorkflowGuard) (actorRole : String) : Except TransitionError Unit :=
  if allowedRoles guard ≠ [] ∧ !(allowedRoles guard).contains actorRole then
    .error (.guardFailed (requiredRoleName guard))
  else .ok ()

def WorkflowGuard.isSet : WorkflowGuard → Bool
  | .text guard => guard != ""
  | .object .. => true

/-- `undefined`, `null` or the empty text. -/
def isMissing (fields : Fields) (key : String) : Bool :=
  match lookup fields key with
  | none | some .null => true
  | some (.str s) => s == ""
  | some _ => false

/-- The custom fields to commit for a transition under the rules. -/
def planTransition (item : WorkItem) (wf : Option PublishedWorkflow) (ctx : TransitionContext) :
    Except TransitionError Fields :=
  if item.source.isSome then .error .externallyOwned
  else
    let mergedFields := spread item.customFields ctx.fields
    match (rulesOf wf).find? fun t => t.fromState == item.status && t.toState == ctx.toState with
    | none =>
      .error (.notAllowed item.status ctx.toState item.type.text item.workflowVersion)
    | some rule => do
      if let some guard := rule.guard.filter (·.isSet) then
        evaluateRoleGuard guard ctx.actorRole
      let missing := rule.requiresFields.filter (isMissing mergedFields)
      if missing ≠ [] then throw (.missingFields missing)
      return mergedFields

end Cadena.WorkItems
