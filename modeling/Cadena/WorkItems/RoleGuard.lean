import Cadena.WorkItems.EditHistory

/-!
# Role guards

What roles a guard names, and whom `evaluateRoleGuard` lets pass. A guard in
which the parser finds no role is skipped, so it lets everyone pass; exactly
the guards that spell roles let only those pass (`guard_admits_named_iff`).
-/

namespace Cadena.WorkItems

open Cadena.Base Cadena.Connectors

/-- A comma list in brackets behind `in` has the role. -/
def ListsRole (guard : Text) (role : String) : Prop :=
  ∃ before gap inside after,
    guard = before ++ ("in".toList ++ (gap ++ '[' :: (inside ++ ']' :: after))) ∧
      (∀ c ∈ gap, isSpace c = true) ∧ ']' ∉ inside ∧ role ∈ splitString "," (String.ofList inside)

/-- The role stands between a colon and the next colon or the end. -/
def RoleAfterColon (guard : Text) (role : String) : Prop :=
  ∃ before part after, guard = before ++ ':' :: (part ++ after) ∧ ':' ∉ part ∧
    (after = [] ∨ after.head? = some ':') ∧ role = String.ofList (trim part)

def NamesRole (guard : WorkflowGuard) (role : String) : Prop :=
  role ≠ "" ∧
    match guard with
    | .text guard => ListsRole guard.toList role ∨ RoleAfterColon guard.toList role ∨ guard = role
    | .object single roles => single = some role ∨ ∃ list, roles = some list ∧ role ∈ list

/-- The guard spells its roles: a closed list without blank entries where it
has `in [`, something behind the first colon where it has a colon, or an
object with a role or a list of them. -/
def SpellsRoles : WorkflowGuard → Prop
  | .text guard =>
    if "in [".toList <:+: guard.toList then
      ∃ inside, firstMatch matchRoleList guard.toList = some inside ∧ inside ≠ [] ∧
        "" ∉ splitString "," (String.ofList inside)
    else if guard.toList.contains ':' then ((splitString ":" guard)[1]?).getD "" ≠ ""
    else True
  | .object single roles =>
    truthy single = true ∨ ∃ list, roles = some list ∧ list ≠ [] ∧ "" ∉ list

/-! ## What the parser finds -/

theorem exists_of_firstMatch {α β : Type} {m : List α → Option β} {t : List α} {b : β}
    (h : firstMatch m t = some b) : ∃ before rest, t = before ++ rest ∧ m rest = some b := by
  induction t with
  | nil => exact ⟨[], [], rfl, h⟩
  | cons c t ih =>
    rw [firstMatch_cons] at h
    cases hm : m (c :: t) with
    | some found =>
      rw [hm] at h
      exact ⟨[], c :: t, rfl, hm.trans h⟩
    | none =>
      rw [hm, Option.none_or] at h
      obtain ⟨before, rest, rfl, hrest⟩ := ih h
      exact ⟨c :: before, rest, rfl, hrest⟩

theorem matchRoleList_spec {t inside : Text} (h : matchRoleList t = some inside) :
    ∃ gap after, t = "in".toList ++ (gap ++ '[' :: (inside ++ ']' :: after)) ∧
      (∀ c ∈ gap, isSpace c = true) ∧ ']' ∉ inside := by
  rw [matchRoleList] at h
  split at h
  case isFalse => cases h
  case isTrue hin =>
    obtain ⟨rest, rfl⟩ := List.isPrefixOf_iff_prefix.mp hin
    have hdrop : ("in".toList ++ rest).drop 2 = rest := rfl
    rw [hdrop] at h
    split at h
    case h_2 => cases h
    case h_1 tail hbracket =>
      dsimp only at h
      split at h
      case isFalse => cases h
      case isTrue hclose =>
        obtain rfl := Option.some.inj h
        obtain ⟨after, hafter⟩ := List.head?_eq_some_iff.mp hclose
        refine ⟨rest.takeWhile isSpace, after, ?_, fun c hc => List.mem_takeWhile_imp hc, ?_⟩
        · have htail := List.prefix_iff_eq_append.mp (List.takeWhile_prefix
            (fun c => c != ']' && !(['\n', '\r', '\u2028', '\u2029'].contains c)) (l := tail))
          rw [hafter] at htail
          rw [htail, ← hbracket, List.takeWhile_append_dropWhile]
        · intro hmem
          have := List.mem_takeWhile_imp hmem
          simp at this

theorem splitString_colon {guard : String} {role : String}
    (h : (splitString ":" guard)[1]? = some role) : RoleAfterColon guard.toList role := by
  rw [splitString, List.getElem?_map] at h
  obtain ⟨part, hpart, rfl⟩ := Option.map_eq_some_iff.mp h
  have hjoin := intercalate_splitText ':' [] guard.toList
  have hfree := fun w (hw : w ∈ splitText [':'] guard.toList) => sep_not_infix_of_mem_splitText hw
  change (splitText [':'] guard.toList)[1]? = some part at hpart
  cases hs : splitText [':'] guard.toList with
  | nil =>
    rw [hs] at hpart
    cases hpart
  | cons before parts =>
    cases parts with
    | nil =>
      rw [hs] at hpart
      cases hpart
    | cons second rest =>
      rw [hs] at hpart hjoin hfree
      obtain rfl := Option.some.inj hpart
      have hnot : ':' ∉ second := by
        intro hmem
        obtain ⟨front, back, hsplit⟩ := List.append_of_mem hmem
        exact hfree second (by simp) ⟨front, back, by rw [hsplit]; simp⟩
      rw [List.intercalate_cons_cons] at hjoin
      cases rest with
      | nil =>
        refine ⟨before, second, [], ?_, hnot, .inl rfl, rfl⟩
        rw [← hjoin]
        simp
      | cons third rest =>
        rw [List.intercalate_cons_cons] at hjoin
        refine ⟨before, second, ':' :: [':'].intercalate (third :: rest), ?_, hnot, .inr rfl, rfl⟩
        rw [← hjoin]
        simp

variable {guard : WorkflowGuard}

theorem named_of_allowed {role : String} (h : role ∈ allowedRoles guard)
    (hne : role ≠ "") : NamesRole guard role := by
  refine ⟨hne, ?_⟩
  cases guard with
  | text guard =>
    rw [allowedRoles] at h
    split at h
    case isTrue =>
      split at h
      case h_1 c inside hmatch =>
        obtain ⟨before, rest, hguard, hrest⟩ := exists_of_firstMatch hmatch
        obtain ⟨gap, after, rfl, hgap, hclosed⟩ := matchRoleList_spec hrest
        exact .inl ⟨before, gap, c :: inside, after, hguard, hgap, hclosed, h⟩
      case h_2 => cases h
    case isFalse =>
      split at h
      case isTrue =>
        obtain rfl := List.mem_singleton.mp h
        cases hpart : (splitString ":" guard)[1]? with
        | none =>
          rw [hpart] at hne
          exact absurd rfl hne
        | some part => exact .inr (.inl (splitString_colon hpart))
      case isFalse => exact .inr (.inr (List.mem_singleton.mp h).symm)
  | object single roles =>
    rw [allowedRoles] at h
    split at h
    case isTrue hsingle =>
      obtain rfl := List.mem_singleton.mp h
      cases single with
      | none => cases hsingle
      | some found => exact .inl rfl
    case isFalse =>
      cases roles with
      | none => cases h
      | some list => exact .inr ⟨list, rfl, h⟩

theorem spellsRoles_iff (hset : guard.isSet = true) :
    SpellsRoles guard ↔ allowedRoles guard ≠ [] ∧ "" ∉ allowedRoles guard := by
  cases guard with
  | text guard =>
    have hguard : guard ≠ "" := by simpa [WorkflowGuard.isSet] using hset
    rw [SpellsRoles, allowedRoles]
    by_cases hlist : "in [".toList <:+: guard.toList
    · rw [if_pos hlist, if_pos hlist]
      cases hmatch : firstMatch matchRoleList guard.toList with
      | none => simp
      | some inside =>
        cases inside with
        | nil => simp
        | cons c inside =>
          have hne : splitString "," (String.ofList (c :: inside)) ≠ [] := by
            rw [splitString]
            intro hnil
            exact splitText_ne_nil ',' [] _ (List.map_eq_nil_iff.mp hnil)
          constructor
          · rintro ⟨found, hfound, -, hblank⟩
            obtain rfl := Option.some.inj hfound
            exact ⟨hne, hblank⟩
          · rintro ⟨-, hblank⟩
            exact ⟨_, rfl, List.cons_ne_nil _ _, hblank⟩
    · rw [if_neg hlist, if_neg hlist]
      by_cases hcolon : guard.toList.contains ':' = true
      · rw [if_pos hcolon, if_pos hcolon]
        generalize ((splitString ":" guard)[1]?).getD "" = part
        constructor
        · intro hpart
          exact ⟨List.cons_ne_nil _ _, fun h => hpart (List.mem_singleton.mp h).symm⟩
        · rintro ⟨-, hblank⟩ hpart
          exact hblank (hpart ▸ List.mem_singleton_self _)
      · rw [if_neg hcolon, if_neg hcolon]
        exact iff_of_true trivial
          ⟨List.cons_ne_nil _ _, fun h => hguard (List.mem_singleton.mp h).symm⟩
  | object single roles =>
    rw [SpellsRoles, allowedRoles]
    by_cases hsingle : truthy single = true
    · rw [if_pos hsingle]
      cases single with
      | none => cases hsingle
      | some role =>
        have hrole : role ≠ "" := by simpa [truthy] using hsingle
        exact iff_of_true (.inl hsingle)
          ⟨List.cons_ne_nil _ _, fun h => hrole (List.mem_singleton.mp h).symm⟩
    · rw [if_neg hsingle]
      cases roles with
      | none => simp [hsingle]
      | some list => simp [hsingle]

theorem evaluateRoleGuard_ok_iff (guard : WorkflowGuard) (actorRole : String) :
    evaluateRoleGuard guard actorRole = .ok () ↔
      allowedRoles guard = [] ∨ actorRole ∈ allowedRoles guard := by
  rw [evaluateRoleGuard]
  split
  case isTrue h =>
    obtain ⟨hne, hnot⟩ := h
    have : actorRole ∉ allowedRoles guard := by simpa using hnot
    simp [hne, this]
  case isFalse h =>
    rw [not_and_or] at h
    simp only [true_iff]
    rcases h with h | h
    · exact .inl (not_not.mp h)
    · exact .inr (by simpa using h)

/-! ## Guarded transitions -/

def ruleOf (item : WorkItem) (wf : Option PublishedWorkflow) (toState : String) :
    Option WorkflowTransitionRule :=
  (rulesOf wf).find? fun t => t.fromState == item.status && t.toState == toState

theorem planTransition_passes {item : WorkItem} {wf : Option PublishedWorkflow}
    {ctx : TransitionContext} {rule : WorkflowTransitionRule} {fields : Fields}
    (hrule : ruleOf item wf ctx.toState = some rule) (hguard : rule.guard = some guard)
    (hset : guard.isSet = true) (hplan : planTransition item wf ctx = .ok fields) :
    evaluateRoleGuard guard ctx.actorRole = .ok () := by
  rw [ruleOf] at hrule
  cases hresult : evaluateRoleGuard guard ctx.actorRole with
  | ok u => rfl
  | error e =>
    simp only [planTransition, hrule, hguard, Option.filter_some, hset, if_true, hresult] at hplan
    split at hplan
    · cases hplan
    · cases hplan

/-- One guarded transition, from start to end. -/
def guardedDefinition (guard : WorkflowGuard) : WorkflowDefinition where
  type := "story"
  states := ["Open", "Closed"]
  initialState := "Open"
  terminalStates := ["Closed"]
  transitions := [⟨"Open", "Closed", some guard, []⟩]

def openStory : WorkItem := { ledgerStory with status := "Open" }

def closesAs (actorRole : String) : TransitionContext := ⟨"Closed", actorRole, []⟩

theorem guardedDefinition_valid (guard : WorkflowGuard) :
    validateWorkflowDefinition (guardedDefinition guard) = [] := rfl

theorem guardedDefinition_rule (guard : WorkflowGuard) (actorRole : String) :
    ruleOf openStory (some ⟨1, guardedDefinition guard⟩) (closesAs actorRole).toState
      = some ⟨"Open", "Closed", some guard, []⟩ := rfl

theorem guardedDefinition_plans {actorRole : String} (hpass : evaluateRoleGuard guard actorRole = .ok ()) :
    ∃ fields, planTransition openStory (some ⟨1, guardedDefinition guard⟩) (closesAs actorRole)
      = .ok fields := by
  refine ⟨spread openStory.customFields [], ?_⟩
  have hrule : (rulesOf (some ⟨1, guardedDefinition guard⟩)).find? (fun t =>
      t.fromState == openStory.status && t.toState == (closesAs actorRole).toState)
      = some ⟨"Open", "Closed", some guard, []⟩ := rfl
  have hrole : (closesAs actorRole).actorRole = actorRole := rfl
  have howned : openStory.source.isSome = false := rfl
  cases hset : guard.isSet with
  | true =>
    simp only [planTransition, howned, hrule, Option.filter_some, hset, if_true, hrole, hpass]
    rfl
  | false =>
    simp only [planTransition, howned, hrule, Option.filter_some, hset]
    rfl

/-- A published guard lets only the roles it names pass, exactly when it
spells its roles. -/
theorem guard_admits_named_iff (guard : WorkflowGuard) (hset : guard.isSet = true) :
    (∀ (d : WorkflowDefinition) (version : Nat) (item : WorkItem) (ctx : TransitionContext)
      (rule : WorkflowTransitionRule) (fields : Fields), validateWorkflowDefinition d = [] →
        ruleOf item (some ⟨version, d⟩) ctx.toState = some rule → rule.guard = some guard →
        planTransition item (some ⟨version, d⟩) ctx = .ok fields → NamesRole guard ctx.actorRole) ↔
      SpellsRoles guard := by
  rw [spellsRoles_iff hset]
  constructor
  · intro hnamed
    by_contra hno
    -- the blank role passes, and no guard names it
    have hpass : evaluateRoleGuard guard "" = .ok () := by
      rw [evaluateRoleGuard_ok_iff]
      rw [not_and_or] at hno
      rcases hno with hno | hno
      · exact .inl (not_not.mp hno)
      · exact .inr (not_not.mp hno)
    obtain ⟨fields, hplan⟩ := guardedDefinition_plans hpass
    exact (hnamed (guardedDefinition guard) 1 openStory (closesAs "") _ fields
      (guardedDefinition_valid guard) (guardedDefinition_rule guard "") rfl hplan).1 rfl
  · rintro ⟨hne, hblank⟩ d version item ctx rule fields - hrule hguard hplan
    have hpass := planTransition_passes hrule hguard hset hplan
    rw [evaluateRoleGuard_ok_iff] at hpass
    have hmem := hpass.resolve_left hne
    exact named_of_allowed hmem fun hrole => hblank (hrole ▸ hmem)

/-- A guard of the built-in incidents admits those it lists. -/
theorem onCall_guard_admits :
    (∀ (d : WorkflowDefinition) (version : Nat) (item : WorkItem) (ctx : TransitionContext)
      (rule : WorkflowTransitionRule) (fields : Fields), validateWorkflowDefinition d = [] →
        ruleOf item (some ⟨version, d⟩) ctx.toState = some rule →
        rule.guard = some (.text "actor.role in [on_call, incident_commander]") →
        planTransition item (some ⟨version, d⟩) ctx = .ok fields →
        NamesRole (.text "actor.role in [on_call, incident_commander]") ctx.actorRole) ↔
      SpellsRoles (.text "actor.role in [on_call, incident_commander]") :=
  guard_admits_named_iff (.text "actor.role in [on_call, incident_commander]") (by decide)

def unclosedGuard : WorkflowGuard := .text "actor.role in [on_call"

/-- A list that is not closed lets a guest pass. -/
theorem unclosed_guard_admits_guest :
    validateWorkflowDefinition (guardedDefinition unclosedGuard) = [] ∧
      (∃ fields, planTransition openStory (some ⟨1, guardedDefinition unclosedGuard⟩)
        (closesAs "guest") = .ok fields) ∧
      ¬ NamesRole unclosedGuard "guest" := by
  refine ⟨guardedDefinition_valid _, guardedDefinition_plans (by decide +kernel), ?_⟩
  rintro ⟨-, hlist | hcolon | hplain⟩
  · obtain ⟨before, gap, inside, after, hguard, -⟩ := hlist
    have hmem : ']' ∈ "actor.role in [on_call".toList := by
      rw [hguard]
      simp
    exact absurd hmem (by decide)
  · obtain ⟨before, part, after, hguard, -⟩ := hcolon
    have hmem : ':' ∈ "actor.role in [on_call".toList := by
      rw [hguard]
      simp
    exact absurd hmem (by decide)
  · exact absurd hplain (by decide)

end Cadena.WorkItems
