import Cadena.Base.Text

/-!
# Native query validation

What the validators of the query languages share
(`native-query-validator.ts`): the findings they report, the checks made
before a text is parsed, and the check of its fields against the index
catalog of the target.
-/

namespace Cadena.NativeQuery

open Cadena.Base

inductive NativeQueryLanguage where
  | jql | wiql | encoded
  deriving DecidableEq

inductive IssueCode where
  | emptyQuery | queryTooLong | syntax_ | orderByNotAllowed | watermarkConflict
  | unboundedScan | unindexedField | unknownField | indexCatalogUnavailable
  deriving DecidableEq

structure NativeQueryIssue where
  code : IssueCode
  message : String
  hint : String
  field : Option String := none
  deriving DecidableEq

structure NativeQueryValidation where
  language : NativeQueryLanguage
  errors : List NativeQueryIssue

/-- `finish` sets the flag from the errors. -/
def NativeQueryValidation.valid (v : NativeQueryValidation) : Bool := v.errors.isEmpty

def issue (code : IssueCode) (message hint : String) : NativeQueryIssue :=
  { code, message, hint }

def finish (language : NativeQueryLanguage) (errors : List NativeQueryIssue) :
    NativeQueryValidation :=
  { language, errors }

@[simp] theorem finish_valid (language : NativeQueryLanguage) (errors : List NativeQueryIssue) :
    (finish language errors).valid = true ↔ errors = [] :=
  List.isEmpty_iff

def MAX_NATIVE_QUERY_LENGTH : Nat := 4000

/-- `text.length` counts UTF-16 code units. -/
def utf16Length (t : Text) : Nat :=
  (t.map fun c => if c.toNat < 0x10000 then 1 else 2).sum

def basicProblems (text : Text) : List NativeQueryIssue :=
  if trim text = [] then
    [issue .emptyQuery "The query is empty." "Provide a query with at least one scope predicate."]
  else if utf16Length text > MAX_NATIVE_QUERY_LENGTH then
    let length := toString (utf16Length text)
    let limit := toString MAX_NATIVE_QUERY_LENGTH
    [issue .queryTooLong s!"The query is {length} characters; the limit is {limit}."
      "Split it into several scheduled queries."]
  else []

/-! ## Indexes -/

structure QueryIndexLookup where
  field : String
  indexed : Bool
  reason : Option String

/-- Which fields of one connector entity a query may filter on. -/
structure QueryIndexCatalog where
  provider : String
  entityType : String
  unavailable : Option String
  lookup : String → Option QueryIndexLookup
  indexedFields : List String

def indexProblem (catalog : QueryIndexCatalog) (reference : String) : NativeQueryIssue :=
  let provider := if catalog.provider = "jira" then "Jira" else "ServiceNow"
  let entity := catalog.entityType
  let target := s!"{provider} {entity}"
  let suggestions := String.intercalate ", " (catalog.indexedFields.take 8)
  let alternative := if suggestions ≠ "" then
      s!"Filter on an indexed field instead (for example {suggestions})"
    else "Filter on an indexed field instead"
  let hit := catalog.lookup reference
  let named := match hit with
    | some found => if found.field ≠ "" then found.field else reference
    | none => reference
  let declaration := if catalog.provider = "servicenow" then
      s!", or, if an administrator has indexed '{named}' on this instance, declare it in the connector's query indexes"
    else ""
  match hit with
  | some found =>
    let because := match found.reason with
      | some r => if r ≠ "" then r else "the target reports no index for it"
      | none => "the target reports no index for it"
    { issue .unindexedField
        s!"The field '{reference}' is not indexed on {target}: {because}. Filtering on it makes the target scan the table while holding a database query semaphore."
        s!"{alternative}{declaration}." with
      field := some found.field }
  | none =>
    { issue .unknownField
        s!"The field '{reference}' is not a discovered {target} field, so Cadena cannot confirm it is indexed."
        s!"Check the spelling against the discovered schema, or run discovery again if the field is new. {alternative}{declaration}." with
      field := some reference }

/-- `seen` holds the references already looked at, in lower case. -/
def indexProblemsFrom (platform : Platform) (catalog : QueryIndexCatalog) (seen : List String) :
    List String → List NativeQueryIssue
  | [] => []
  | reference :: rest =>
    let key := platform.toLowerCase reference
    if key ∈ seen then indexProblemsFrom platform catalog seen rest
    else match catalog.lookup reference with
      | some hit =>
        if hit.indexed then indexProblemsFrom platform catalog (key :: seen) rest
        else indexProblem catalog reference
          :: indexProblemsFrom platform catalog (key :: seen) rest
      | none => indexProblem catalog reference
            :: indexProblemsFrom platform catalog (key :: seen) rest

def indexProblems (platform : Platform) (references : List String) :
    Option QueryIndexCatalog → List NativeQueryIssue
  | none => []
  | some catalog =>
    match catalog.unavailable with
    | some reason =>
      if reason ≠ "" then
        [issue .indexCatalogUnavailable reason
          "Run discovery on the connector, then validate the query again."]
      else indexProblemsFrom platform catalog [] references
    | none => indexProblemsFrom platform catalog [] references

end Cadena.NativeQuery
