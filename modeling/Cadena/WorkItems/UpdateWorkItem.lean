import Cadena.Integrations.SyncGuard
import Cadena.WorkItems.WorkItem

/-!
# Editing a work item

`updateWorkItem` reads the item with the defaults of its custom field schema,
checks the request, and computes from what it has read all the columns that
its UPDATE sets, and an event with the values before and after of the fields
that the request changes.
-/

namespace Cadena.WorkItems

open Cadena.Base Cadena.Connectors Cadena.Integrations

def WorkItemPriority.text : WorkItemPriority → String
  | .p0 => "P0"
  | .p1 => "P1"
  | .p2 => "P2"
  | .p3 => "P3"
  | .p4 => "P4"

def WorkItemSeverity.text : WorkItemSeverity → String
  | .sev1 => "SEV1"
  | .sev2 => "SEV2"
  | .sev3 => "SEV3"
  | .sev4 => "SEV4"

/-- `UpdateWorkItemDto`, with the other keys of the body. `null` is a value
of `severity` and `owner_id`. -/
structure UpdateWorkItemDto where
  title : Option String
  description : Option String
  priority : Option WorkItemPriority
  severity : Option (Option WorkItemSeverity)
  ownerId : Option (Option Uuid)
  customFields : Option Fields
  tags : Option (List String)
  otherKeys : List String

/-- The editable fields apart from `custom_fields`. -/
inductive PlainField where
  | title | description | priority | severity | ownerId | tags
  deriving DecidableEq

def PlainField.all : List PlainField := [.title, .description, .priority, .severity, .ownerId, .tags]

theorem PlainField.mem_all (f : PlainField) : f ∈ PlainField.all := by
  cases f <;> decide

def PlainField.name : PlainField → String
  | .title => "title"
  | .description => "description"
  | .priority => "priority"
  | .severity => "severity"
  | .ownerId => "owner_id"
  | .tags => "tags"

def nullable {α : Type} (text : α → String) (value : Option α) : Json :=
  (value.map fun v => Json.str (text v)).getD .null

def uuidString (id : Uuid) : String := String.ofList (uuidText id)

def tagsJson (tags : List String) : Json := .arr (tags.map .str)

def WorkItem.plain (item : WorkItem) : PlainField → Json
  | .title => .str item.title
  | .description => .str item.description
  | .priority => .str item.priority.text
  | .severity => nullable WorkItemSeverity.text item.severity
  | .ownerId => nullable uuidString item.ownerId
  | .tags => tagsJson item.tags

/-- The value that a request supplies; a title is stored trimmed. -/
def UpdateWorkItemDto.plain (dto : UpdateWorkItemDto) : PlainField → Option Json
  | .title => dto.title.map fun t => .str (trimString t)
  | .description => dto.description.map .str
  | .priority => dto.priority.map fun p => .str p.text
  | .severity => dto.severity.map (nullable WorkItemSeverity.text)
  | .ownerId => dto.ownerId.map (nullable uuidString)
  | .tags => dto.tags.map tagsJson

/-- The latest row of `custom_field_schemas` for the type. -/
structure CustomFieldSchema where
  schema : Json
  defaults : Fields

/-- The item as a reader sees it. -/
def mapRowToWorkItem (schema : Option CustomFieldSchema) (row : WorkItem) : WorkItem :=
  { row with
    customFields :=
      match schema with
      | none => row.customFields
      | some s => spread s.defaults row.customFields }

def UpdateWorkItemDto.next (dto : UpdateWorkItemDto) (current : WorkItem) : WorkItem :=
  { current with
    title := (dto.title.map trimString).getD current.title
    description := dto.description.getD current.description
    priority := dto.priority.getD current.priority
    severity := dto.severity.getD current.severity
    ownerId := dto.ownerId.getD current.ownerId
    customFields := (dto.customFields.map (spread current.customFields)).getD current.customFields
    tags := dto.tags.getD current.tags }

inductive UpdateError where
  | unknownFields (fields : List String)
  | externallyOwned (itemKey system : String) (fields : List String)
  | titleLength
  | invalidCustomFields (errors : List String)
  deriving DecidableEq

def sourceName (system : String) : String :=
  if system = "jira" then "Jira"
  else if system = "servicenow" then "ServiceNow"
  else if system = "" then "its source system"
  else system

def UpdateError.message : UpdateError → String
  | .unknownFields fields =>
    "Fields cannot be edited through this endpoint: " ++ String.intercalate ", " fields
  | .externallyOwned itemKey system fields =>
    itemKey ++ " is owned by " ++ sourceName system ++ "; " ++ String.intercalate ", " fields
      ++ " cannot be changed locally. Change it in " ++ sourceName system
      ++ ", or request a governed write-back through the synchronized twin."
  | .titleLength => "title must contain 1 to 500 characters"
  | .invalidCustomFields errors =>
    "Custom fields validation failed: " ++ String.intercalate ", " errors

/-- The fields of the request that a local caller may not change on a
projected item: all but the tags. -/
def ownedFields (dto : UpdateWorkItemDto) : List String :=
  ((PlainField.all.filter fun f => f != .tags && (dto.plain f).isSome).map (·.name))
    ++ (if dto.customFields.isSome then ["custom_fields"] else [])

/-- The checks of a request on the item that was read. `validate` stands for
the JSON schema validator; `[]` is valid. The checks of the values that the
types of the request exclude are left out. -/
def checkUpdate (validate : Json → Fields → List String) (latest : Option CustomFieldSchema)
    (dto : UpdateWorkItemDto) (current : WorkItem) : Except UpdateError Unit := do
  if dto.otherKeys ≠ [] then throw (.unknownFields dto.otherKeys)
  if let some source := current.source then
    let owned := ownedFields dto
    if owned ≠ [] then throw (.externallyOwned current.itemKey source.system owned)
  if let some title := dto.title then
    if trimString title = "" ∨ 500 < jsLength title then throw .titleLength
  if dto.customFields.isSome then
    if let some s := latest then
      let errors := validate s.schema (dto.next current).customFields
      if errors ≠ [] then throw (.invalidCustomFields errors)

/-- `before` or `after` of an event: some fields with their values. -/
structure ChangedFields where
  plain : PlainField → Option Json
  customFields : Option Fields

/-- `JSON.stringify(oldValue) !== JSON.stringify(newValue)` for a field of the
request. -/
def changesPlain (dto : UpdateWorkItemDto) (current : WorkItem) (f : PlainField) : Bool :=
  (dto.plain f).isSome && render (current.plain f) != render ((dto.next current).plain f)

def changesCustomFields (dto : UpdateWorkItemDto) (current : WorkItem) : Bool :=
  dto.customFields.isSome &&
    render (.obj current.customFields) != render (.obj (dto.next current).customFields)

def changedFields (dto : UpdateWorkItemDto) (current values : WorkItem) : ChangedFields where
  plain f := if changesPlain dto current f then some (values.plain f) else none
  customFields := if changesCustomFields dto current then some values.customFields else none

/-- Without a change nothing is written. -/
def changesItem (dto : UpdateWorkItemDto) (current : WorkItem) : Bool :=
  PlainField.all.any (changesPlain dto current) || changesCustomFields dto current

/-- `UPDATE work_items SET title = …, …, tags = … WHERE id = …`. -/
def setEditable (next row : WorkItem) : WorkItem :=
  { row with
    title := next.title
    description := next.description
    priority := next.priority
    severity := next.severity
    ownerId := next.ownerId
    customFields := next.customFields
    tags := next.tags }

theorem next_plain (dto : UpdateWorkItemDto) (current : WorkItem) (f : PlainField) :
    (dto.next current).plain f = (dto.plain f).getD (current.plain f) := by
  unfold WorkItem.plain UpdateWorkItemDto.plain UpdateWorkItemDto.next
  cases f with
  | title => cases dto.title <;> rfl
  | description => cases dto.description <;> rfl
  | priority => cases dto.priority <;> rfl
  | severity => cases dto.severity <;> rfl
  | ownerId => cases dto.ownerId <;> rfl
  | tags => cases dto.tags <;> rfl

theorem next_customFields (dto : UpdateWorkItemDto) (current : WorkItem) (key : String) :
    lookup (dto.next current).customFields key =
      (dto.customFields.bind fun fs => lookup (spread [] fs) key).or (lookup current.customFields key) := by
  cases h : dto.customFields with
  | none => simp [UpdateWorkItemDto.next, h]
  | some fs =>
    simp only [UpdateWorkItemDto.next, h, Option.map_some, Option.getD_some, Option.bind_some]
    exact lookup_spread current.customFields fs key

theorem setEditable_plain (next row : WorkItem) (f : PlainField) :
    (setEditable next row).plain f = next.plain f := by
  cases f <;> rfl

theorem plain_of_not_changed {dto : UpdateWorkItemDto} {current : WorkItem} {f : PlainField}
    (h : changesPlain dto current f = false) :
    render ((dto.next current).plain f) = render (current.plain f) := by
  rw [changesPlain, Bool.and_eq_false_iff, bne_eq_false_iff_eq] at h
  rcases h with hnone | hsame
  · rw [next_plain, Option.isNone_iff_eq_none.mp (Option.isSome_eq_false_iff.mp hnone), Option.getD_none]
  · exact hsame.symm

theorem customFields_of_not_changed {dto : UpdateWorkItemDto} {current : WorkItem}
    (h : changesCustomFields dto current = false) (key : String) :
    (lookup (dto.next current).customFields key).map render =
      (lookup current.customFields key).map render := by
  rw [changesCustomFields, Bool.and_eq_false_iff, bne_eq_false_iff_eq] at h
  rcases h with hnone | hsame
  · rw [next_customFields, Option.isNone_iff_eq_none.mp (Option.isSome_eq_false_iff.mp hnone)]
    rfl
  · exact (lookup_of_render_eq hsame key).symm

end Cadena.WorkItems
