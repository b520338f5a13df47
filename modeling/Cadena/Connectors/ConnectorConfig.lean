import Cadena.Base.Transition
import Cadena.Connectors.Types

/-!
# Configuring a connector

The requests that change the configuration of a connector. Each reads the
whole configuration, sets one key in what it has read, and writes the whole
back together with an event. Nothing tests that the configuration is still the
one that was read.
-/

namespace Cadena.Connectors.Admin

open Cadena.Base

/-- What the validators of the services make of an input; `none` where they
refuse it. -/
structure ConfigValidators where
  writeBack : Json → Option Json
  commentSync : Option Json → Option Json
  rateGovernance : Option Json → Option Json
  queryIndexes : Fields → Json → Option Json
  projection : Fields → Option Json
  relayName : Option String → Option String

inductive ConfigSetting where
  | writeBack | commentSync | rateGovernance | queryIndexes | projection
  deriving DecidableEq

def ConfigSetting.key : ConfigSetting → String
  | .writeBack => "writeBack"
  | .commentSync => "commentSync"
  | .rateGovernance => "rateGovernance"
  | .queryIndexes => "queryIndexes"
  | .projection => "projection"

def ConfigSetting.eventType : ConfigSetting → String
  | .writeBack => "ConnectorWriteBackConfigured"
  | .commentSync => "ConnectorCommentSyncConfigured"
  | .rateGovernance => "ConnectorRateGovernanceConfigured"
  | .queryIndexes => "ConnectorQueryIndexesConfigured"
  | .projection => "ConnectorProjectionConfigured"

/-- The entries of a value that is an object, `{}` otherwise. -/
def objectEntries (value : Option Json) : Fields := (value.bind Json.entries?).getD []

/-- The new value of the setting; a projection is merged onto the one that
was read. -/
def validated (V : ConfigValidators) (config : Fields) (setting : ConfigSetting) (input : Json) :
    Option Json :=
  match setting with
  | .writeBack => V.writeBack input
  | .commentSync => V.commentSync (some input)
  | .rateGovernance => V.rateGovernance (some input)
  | .queryIndexes => V.queryIndexes config input
  | .projection =>
    V.projection (spread (objectEntries (lookup config "projection")) (objectEntries (some input)))

/-- `before` of an event where the setting was not there. -/
def beforeDefault (V : ConfigValidators) : ConfigSetting → Json
  | .writeBack | .queryIndexes => .obj []
  | .commentSync => (V.commentSync none).getD .null
  | .rateGovernance => (V.rateGovernance none).getD .null
  | .projection => .obj [("enabled", .bool true)]

inductive ConfigEvent where
  | configured (setting : ConfigSetting) (before after : Json)
  /-- `ConnectorRelayProvisioned`. -/
  | relayProvisioned (relayId name : String)

/-- `{ mode: 'relay', relayId }`. -/
def relayConnectivity (relayId : String) : Json :=
  .obj [("mode", .str "relay"), ("relayId", .str relayId)]

/-- The key and the value that the event tells of. -/
def ConfigEvent.describes : ConfigEvent → String × Json
  | .configured setting _ after => (setting.key, after)
  | .relayProvisioned relayId _ => ("connectivity", relayConnectivity relayId)

inductive ConfigRequest where
  | configure (setting : ConfigSetting) (input : Json)
  /-- `provision`, with the id that a new relay would get. -/
  | provision (name : Option String) (newId : String)

/-- A request that has read the configuration. -/
inductive ConfigRun where
  | configuring (config : Fields) (setting : ConfigSetting) (after : Json)
  | provisioning (config : Fields) (relayId name : String)

def ConfigRun.config : ConfigRun → Fields
  | .configuring config .. => config
  | .provisioning config .. => config

/-- The key that the request sets. -/
def ConfigRun.key : ConfigRun → String
  | .configuring _ setting _ => setting.key
  | .provisioning .. => "connectivity"

/-- What is made of the configuration that the request has read. -/
def startRequest (V : ConfigValidators) (config : Fields) : ConfigRequest → Option ConfigRun
  | .configure setting input => (validated V config setting input).map (.configuring config setting ·)
  | .provision name newId =>
    let connectivity := objectEntries (lookup config "connectivity")
    match lookup connectivity "mode" with
    | some (.str "relay") =>
      (V.relayName name).map fun relayName =>
        match lookup connectivity "relayId" with
        | some (.str relayId) => .provisioning config relayId relayName
        | _ => .provisioning config newId relayName
    | _ => none

/-- `relay` is the id of the connector's row in the table of relays, and
`commits` are the keys and values that the committed requests have set. -/
structure ConfigState where
  config : Fields
  relay : Option String
  runs : Nat → Option ConfigRun
  commits : List (String × Json)
  events : List ConfigEvent

inductive ConfigAction where
  | read (r : Nat) (request : ConfigRequest)
  | commit (r : Nat)

/-- The transaction of a request. -/
def commitRun (V : ConfigValidators) (s : ConfigState) : ConfigRun → ConfigState
  | .configuring config setting after =>
    { s with
      config := setKey config setting.key after
      commits := s.commits ++ [(setting.key, after)]
      events := s.events ++
        [.configured setting ((lookup config setting.key).getD (beforeDefault V setting)) after] }
  | .provisioning config relayId name =>
    -- ON CONFLICT (connector_id) keeps the id of the relay that is there
    let id := s.relay.getD relayId
    { s with
      relay := some id
      config := setKey config "connectivity" (relayConnectivity id)
      commits := s.commits ++ [("connectivity", relayConnectivity id)]
      events := s.events ++ [.relayProvisioned id name] }

def configStep (V : ConfigValidators) (s : ConfigState) : ConfigAction → Option ConfigState
  | .read r request =>
    match s.runs r with
    | none => (startRequest V s.config request).map fun run => { s with runs := setAt s.runs r (some run) }
    | some _ => none
  | .commit r => (s.runs r).map fun run => { commitRun V s run with runs := setAt s.runs r none }

def configSystem (V : ConfigValidators) : System ConfigState ConfigAction := ⟨configStep V⟩

def ConfigState.start (config : Fields) (relay : Option String) : ConfigState :=
  ⟨config, relay, fun _ => none, [], []⟩

/-- The value of the key after the settings, made one after the other. -/
def lastSet (settings : List (String × Json)) (key : String) : Option Json :=
  (settings.reverse.find? fun e => e.1 = key).map (·.2)

/-- Every key holds what was set last, and the events tell of that. -/
structure NothingLost (initial : Fields) (s : ConfigState) : Prop where
  settings : ∀ key, lookup s.config key = (lastSet s.commits key).or (lookup initial key)
  events : ∀ key, lookup s.config key =
    (lastSet (s.events.map ConfigEvent.describes) key).or (lookup initial key)

/-- A request that commits has read the other keys as they are now. -/
def ReadsOthersCurrent (s : ConfigState) : ConfigAction → Prop
  | .read .. => True
  | .commit r => ∀ run ∈ s.runs r, ∀ key, key ≠ run.key → lookup run.config key = lookup s.config key

/-! ## Steps and runs -/

theorem lastSet_append (settings : List (String × Json)) (k key : String) (value : Json) :
    lastSet (settings ++ [(k, value)]) key = if key = k then some value else lastSet settings key := by
  unfold lastSet
  rw [List.reverse_append, List.reverse_singleton, List.singleton_append, List.find?_cons]
  by_cases h : key = k
  · subst h
    simp
  · simp [h, Ne.symm h]

section
variable {V : ConfigValidators} {initial : Fields} {s t : ConfigState}

theorem commitRun_sets (V : ConfigValidators) (s : ConfigState) (run : ConfigRun) :
    ∃ value, (commitRun V s run).config = setKey run.config run.key value ∧
      (commitRun V s run).commits = s.commits ++ [(run.key, value)] ∧
      (commitRun V s run).events.map ConfigEvent.describes =
        s.events.map ConfigEvent.describes ++ [(run.key, value)] := by
  cases run with
  | configuring config setting after =>
    refine ⟨after, rfl, rfl, ?_⟩
    simp only [commitRun, List.map_append, List.map_singleton]
    rfl
  | provisioning config relayId name =>
    refine ⟨relayConnectivity (s.relay.getD relayId), rfl, rfl, ?_⟩
    simp only [commitRun, List.map_append, List.map_singleton]
    rfl

def EventsTell (s : ConfigState) : Prop := s.events.map ConfigEvent.describes = s.commits

theorem EventsTell.step (h : EventsTell s) {a : ConfigAction} (hstep : configStep V s a = some t) :
    EventsTell t := by
  cases a with
  | read r request =>
    simp only [configStep] at hstep
    split at hstep
    · obtain ⟨run, -, rfl⟩ := Option.map_eq_some_iff.mp hstep
      exact h
    · cases hstep
  | commit r =>
    obtain ⟨run, -, rfl⟩ := Option.map_eq_some_iff.mp hstep
    obtain ⟨value, -, hcommits, hevents⟩ := commitRun_sets V s run
    show (commitRun V s run).events.map _ = (commitRun V s run).commits
    rw [hevents, hcommits, h]

theorem EventsTell.nothingLost_iff (h : EventsTell s) :
    NothingLost initial s ↔ ∀ key, lookup s.config key = (lastSet s.commits key).or (lookup initial key) := by
  refine ⟨fun hlost => hlost.settings, fun hsettings => ⟨hsettings, ?_⟩⟩
  rw [h]
  exact hsettings

theorem nothingLost_step (h : EventsTell s) {a : ConfigAction} (hkept : NothingLost initial s)
    (hstep : configStep V s a = some t) : NothingLost initial t ↔ ReadsOthersCurrent s a := by
  rw [(h.step hstep).nothingLost_iff]
  cases a with
  | read r request =>
    simp only [configStep] at hstep
    split at hstep
    · obtain ⟨run, -, rfl⟩ := Option.map_eq_some_iff.mp hstep
      exact ⟨fun _ => trivial, fun _ => hkept.settings⟩
    · cases hstep
  | commit r =>
    obtain ⟨run, hrun, rfl⟩ := Option.map_eq_some_iff.mp hstep
    obtain ⟨value, hconfig, hcommits, -⟩ := commitRun_sets V s run
    show (∀ key, lookup (commitRun V s run).config key =
      (lastSet (commitRun V s run).commits key).or (lookup initial key)) ↔ _
    rw [hconfig, hcommits]
    constructor
    · intro hall other hother key hkey
      obtain rfl := Option.some.inj (hrun.symm.trans hother)
      have hset := hall key
      rw [lookup_setKey, lastSet_append, if_neg hkey, if_neg hkey] at hset
      exact hset.trans (hkept.settings key).symm
    · intro hcurrent key
      rw [lookup_setKey, lastSet_append]
      by_cases hkey : key = run.key
      · rw [if_pos hkey, if_pos hkey, Option.some_or]
      · rw [if_neg hkey, if_neg hkey, hcurrent run hrun key hkey]
        exact hkept.settings key

end

def lenientValidators : ConfigValidators where
  writeBack := some
  commentSync input := some (input.getD (.obj []))
  rateGovernance input := some (input.getD (.obj []))
  queryIndexes _ input := some input
  projection merged := some (.obj merged)
  relayName name := some (name.getD "relay")

def writeBackPolicy : Json := .obj [("allowState", .bool false)]
def ratePolicy : Json := .obj [("requestsPerMinute", .str "10")]

end Cadena.Connectors.Admin
