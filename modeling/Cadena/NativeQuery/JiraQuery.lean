import Cadena.NativeQuery.Calendar
import Cadena.NativeQuery.JqlSyntax
import Cadena.NativeQuery.JqlValidator

/-!
# Query strings of the Jira adapter

The JQL that `fetchNativeQuery` and `fetchBackfillPage` of
`jira-connector.adapter.ts` send, and how its clauses are read.
-/

namespace Cadena.NativeQuery

open Cadena.Base

/-- `/^[A-Z][A-Z0-9_]{0,31}$/` -/
def isProjectKey : Text → Bool
  | [] => false
  | c :: rest =>
    c.isUpper && rest.all (fun d => d.isUpper || d.isDigit || d == '_') && rest.length ≤ 31

/-- A project key that `validateConfig` lets through. -/
structure ProjectKey where
  chars : Text
  wf : isProjectKey chars = true

def JQL_OVERLAP_MS : Int := 60000

def quoted (t : Text) : Text := '"' :: t ++ ['"']

def projectClause (keys : List ProjectKey) : Text :=
  "project in (".toList ++ ", ".toList.intercalate (keys.map fun key => quoted key.chars) ++ [')']

/-- `formatInTimeZone(…).slice(0, 16)`, with slashes for dashes. -/
def jqlInstant (calendar : Calendar) (timeZone : String) (instant : Int) : Text :=
  ((formatInTimeZone calendar instant timeZone).take 16).map fun c => if c = '-' then '/' else c

def updatedClause (calendar : Calendar) (timeZone : String) (operator : Text) (instant : Int) :
    Text :=
  "updated ".toList ++ operator ++ ' ' :: quoted (jqlInstant calendar timeZone instant)

def updatedSince (calendar : Calendar) (timeZone : String) (since : Int) : Text :=
  updatedClause calendar timeZone ">=".toList since

def updatedBefore (calendar : Calendar) (timeZone : String) (limit : Int) : Text :=
  updatedClause calendar timeZone "<".toList limit

def jqlOrder : Text := " ORDER BY updated ASC, key ASC".toList

/-- Clauses, each with ` AND ` in front. -/
def andClauses (clauses : List Text) : Text := clauses.flatMap (" AND ".toList ++ ·)

/-- The JQL `fetchNativeQuery` hands to `searchPages`. -/
def Jira.fetchNativeQuery (calendar : Calendar) (timeZone : String) (keys : List ProjectKey)
    (entityType : String) (query : Text) (cursor : Option Int) : Except String Text :=
  if entityType ≠ "issue" then .error s!"Jira does not expose entity type '{entityType}'"
  else match cursor with
    | none => .error "A scheduled query needs a watermark; refusing to run it unbounded"
    | some watermark =>
      let since := watermark - JQL_OVERLAP_MS
      .ok ('(' :: query ++ ')' :: andClauses
        [projectClause keys, updatedSince calendar timeZone since] ++ jqlOrder)

/-- The JQL of `fetchBackfillPage`. -/
def Jira.fetchBackfillPage (calendar : Calendar) (timeZone : String) (keys : List ProjectKey)
    (entityType : String) (window : BackfillWindow) (query : Option Text) : Except String Text :=
  if entityType ≠ "issue" then .error s!"Jira does not expose entity type '{entityType}'"
  else
    let scopeText := match query with
      | none | some [] => projectClause keys
      | some query => '(' :: query ++ ')' :: andClauses [projectClause keys]
    .ok (scopeText ++ andClauses [updatedSince calendar timeZone window.from_,
      updatedBefore calendar timeZone window.to_] ++ jqlOrder)

end Cadena.NativeQuery
