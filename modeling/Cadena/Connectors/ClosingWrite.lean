import Cadena.Connectors.EffectiveStatus
import Cadena.Connectors.PickedFields

/-!
# The fields of a closing write

A state rule may require fields of the target. `evaluate` looks for them in
`{ ...sourceFields, ...mapped }`, the write carries
`{ ...fields, ...pickPaths(sourceFields, required), ...mapped }`. What the
evaluation finds is in the write (`closing_write_complete`); what is there
before the objects are merged need not be found (`missing_unavailable_iff`).
-/

namespace Cadena.Connectors

open Cadena.Base Cadena.Integrations

/-! ## Writing at a path -/

/-- No array stands on the way. -/
def OpenAt (picked : Fields) (path : List String) : Prop :=
  ∀ r rest es, path = r ++ rest → rest ≠ [] → ownValue (.obj picked) r ≠ some (.arr es)

theorem ownValue_append (v : Json) (p q : List String) :
    ownValue v (p ++ q) = (ownValue v p).bind (ownValue · q) := by
  induction p generalizing v with
  | nil => rfl
  | cons s ss ih =>
    cases v with
    | obj es =>
      show (lookup es s).bind (ownValue · (ss ++ q)) = ((lookup es s).bind (ownValue · ss)).bind _
      cases lookup es s with
      | none => rfl
      | some next => exact ih next
    | _ => rfl

theorem ownValue_obj_cons (es : Fields) (s : String) (ss : List String) :
    ownValue (.obj es) (s :: ss) = (lookup es s).bind (ownValue · ss) := rfl

theorem ownValue_setKey (es : Fields) (s t : String) (ss : List String) (v : Json) :
    ownValue (.obj (setKey es s v)) (t :: ss) =
      if t = s then ownValue v ss else ownValue (.obj es) (t :: ss) := by
  rw [ownValue_obj_cons, lookup_setKey]
  split
  · rfl
  · rfl

variable {path ss : List String} {picked source : Fields} {name : String} {decision : Evaluation}

theorem OpenAt.inner {inner : Fields} {s : String}
    (h : OpenAt picked (s :: path)) (hs : lookup picked s = some (.obj inner)) : OpenAt inner path := by
  intro r rest es hpath hrest hr
  refine h (s :: r) rest es (by rw [hpath]; rfl) hrest ?_
  rw [ownValue_obj_cons, hs]
  exact hr

theorem OpenAt.not_array {s t : String} {es : List Json}
    (h : OpenAt picked (s :: t :: path)) : lookup picked s ≠ some (.arr es) := by
  intro hs
  refine h [s] (t :: path) es rfl (List.cons_ne_nil _ _) ?_
  rw [ownValue_obj_cons, hs]
  rfl

theorem openAt_nil (path : List String) : OpenAt [] path := by
  intro r rest es _ _ hr
  cases r with
  | nil => cases hr
  | cons s ss => cases hr

theorem ownValue_writePath (hne : path ≠ []) (hopen : OpenAt picked path) (value : Json) :
    ownValue (.obj (writePath picked path value)) path = some value := by
  induction path generalizing picked with
  | nil => exact absurd rfl hne
  | cons s ss ih =>
    cases ss with
    | nil =>
      rw [writePath, ownValue_setKey, if_pos rfl]
      rfl
    | cons t ss =>
      have hrest : t :: ss ≠ [] := List.cons_ne_nil _ _
      rw [writePath]
      split
      · rename_i inner hs
        rw [ownValue_setKey, if_pos rfl]
        exact ih hrest (hopen.inner hs)
      · rename_i es hs
        exact absurd hs hopen.not_array
      · rw [ownValue_setKey, if_pos rfl]
        exact ih hrest (openAt_nil _)

theorem ownValue_writePath_above {rest : List String} (hrest : rest ≠ [])
    (hopen : OpenAt picked (path ++ rest)) (value : Json) :
    ∃ es, ownValue (.obj (writePath picked (path ++ rest) value)) path = some (.obj es) := by
  have hne : path ++ rest ≠ [] := fun h => hrest (List.append_eq_nil_iff.mp h).2
  have hown := ownValue_writePath hne hopen value
  rw [ownValue_append] at hown
  obtain ⟨found, hfound, hread⟩ := Option.bind_eq_some_iff.mp hown
  obtain ⟨s, ss, rfl⟩ := List.exists_cons_of_ne_nil hrest
  cases found with
  | obj es => exact ⟨es, hfound⟩
  | _ => cases hread

theorem ownValue_writePath_other {other : List String} (h : ¬ path <+: other)
    (h' : ¬ other <+: path) (picked : Fields) (value : Json) :
    ownValue (.obj (writePath picked path value)) other = ownValue (.obj picked) other := by
  induction path generalizing picked other with
  | nil => exact absurd List.nil_prefix h
  | cons s ss ih =>
    cases other with
    | nil => exact absurd List.nil_prefix h'
    | cons t ts =>
      have hstep : t = s → ¬ ss <+: ts ∧ ¬ ts <+: ss := by
        rintro rfl
        exact ⟨fun hp => h (List.cons_prefix_cons.mpr ⟨rfl, hp⟩),
          fun hp => h' (List.cons_prefix_cons.mpr ⟨rfl, hp⟩)⟩
      cases ss with
      | nil =>
        rw [writePath, ownValue_setKey, if_neg]
        intro hts
        exact (hstep hts).1 List.nil_prefix
      | cons u ss =>
        have hempty : t = s → ownValue (.obj (writePath [] (u :: ss) value)) ts = none := by
          intro hts
          rw [ih (hstep hts).1 (hstep hts).2 []]
          cases ts with
          | nil => exact absurd List.nil_prefix (hstep hts).2
          | cons w ws => rfl
        have hscalar : ∀ v : Json, (∀ es, v ≠ .obj es) → t = s → ownValue v ts = none := by
          intro v hv hts
          cases ts with
          | nil => exact absurd List.nil_prefix (hstep hts).2
          | cons w ws =>
            cases v with
            | obj es => exact absurd rfl (hv es)
            | _ => rfl
        rw [writePath]
        split
        · rename_i inner hs
          rw [ownValue_setKey]
          split
          · rename_i hts
            rw [ih (hstep hts).1 (hstep hts).2 inner, ownValue_obj_cons, hts, hs]
            rfl
          · rfl
        · rfl
        · rename_i hobj harr
          rw [ownValue_setKey]
          split
          · rename_i hts
            rw [hempty hts, ownValue_obj_cons, hts]
            cases hs : lookup picked s with
            | none => rfl
            | some v => exact (hscalar v (fun es hv => hobj es (hv ▸ hs)) hts).symm
          · rfl

/-! ## What the required paths pick -/

theorem segmentsOf_eq (path : String) : segmentsOf path = topLevel path :: (segmentsOf path).tail := by
  obtain ⟨s, ss, h⟩ := List.exists_cons_of_ne_nil (segmentsOf_ne_nil path)
  rw [topLevel, h]
  rfl

theorem walk_of_ownValue {v value : Json} (h : ownValue v path = some value) : walk v path = some value := by
  induction path generalizing v with
  | nil => exact h
  | cons s ss ih =>
    cases v with
    | obj es =>
      obtain ⟨next, hnext, hrest⟩ := Option.bind_eq_some_iff.mp h
      rw [walk, property, hnext]
      exact ih hrest
    | _ => cases h

/-- Two values that a reader of values tells apart only inside objects. -/
def SameShape (u v : Json) : Prop := u = v ∨ ∃ es ds, u = .obj es ∧ v = .obj ds

/-- Under the name, `picked` holds nothing that `source` does not hold. -/
def AgreesUnder (source picked : Fields) (name : String) : Prop :=
  ∀ ss u, ownValue (.obj picked) (name :: ss) = some u →
    ∃ v, ownValue (.obj source) (name :: ss) = some v ∧ SameShape u v

theorem AgreesUnder.openAt (h : AgreesUnder source picked name) {value : Json}
    (hvalue : ownValue (.obj source) (name :: ss) = some value) : OpenAt picked (name :: ss) := by
  intro r rest es hpath hrest hr
  cases r with
  | nil => cases hr
  | cons t r =>
    obtain ⟨rfl, rfl⟩ := List.cons.inj hpath
    obtain ⟨v, hv, hshape⟩ := h r _ hr
    rw [hpath, ownValue_append, hv] at hvalue
    obtain ⟨s, rest, rfl⟩ := List.exists_cons_of_ne_nil hrest
    rcases hshape with rfl | ⟨_, _, hobj, -⟩
    · cases hvalue
    · cases hobj

theorem AgreesUnder.writePath (h : AgreesUnder source picked name) {value : Json}
    (hvalue : ownValue (.obj source) (name :: ss) = some value) :
    AgreesUnder source (writePath picked (name :: ss) value) name := by
  have hopen := h.openAt hvalue
  intro ts u hu
  by_cases hbelow : name :: ss <+: name :: ts
  · obtain ⟨rest, hts⟩ := hbelow
    rw [← hts, ownValue_append, ownValue_writePath (List.cons_ne_nil _ _) hopen] at hu
    refine ⟨u, ?_, .inl rfl⟩
    rw [← hts, ownValue_append, hvalue]
    exact hu
  · by_cases habove : name :: ts <+: name :: ss
    · obtain ⟨rest, hss⟩ := habove
      have hrest : rest ≠ [] := by
        rintro rfl
        rw [List.append_nil] at hss
        exact hbelow (hss ▸ List.prefix_refl _)
      rw [← hss] at hopen hu hvalue
      obtain ⟨es, hes⟩ := ownValue_writePath_above hrest hopen value
      obtain ⟨t, rest, rfl⟩ := List.exists_cons_of_ne_nil hrest
      rw [ownValue_append] at hvalue
      obtain ⟨v, hv, hread⟩ := Option.bind_eq_some_iff.mp hvalue
      refine ⟨v, hv, .inr ?_⟩
      cases v with
      | obj ds => exact ⟨es, ds, Option.some.inj (hu.symm.trans hes), rfl⟩
      | _ => cases hread
    · rw [ownValue_writePath_other hbelow habove] at hu
      exact h ts u hu

theorem picked_stays (h : AgreesUnder source picked name)
    {value : Json} (hvalue : ownValue (.obj source) (name :: ss) = some value)
    {ts : List String} (hts : (ownValue (.obj source) (name :: ts)).isSome = true)
    (hpicked : (ownValue (.obj picked) (name :: ts)).isSome = true) :
    (ownValue (.obj (writePath picked (name :: ss) value)) (name :: ts)).isSome = true := by
  have hopen := h.openAt hvalue
  by_cases hbelow : name :: ss <+: name :: ts
  · obtain ⟨rest, hts'⟩ := hbelow
    rw [← hts', ownValue_append, hvalue] at hts
    rw [← hts', ownValue_append, ownValue_writePath (List.cons_ne_nil _ _) hopen]
    exact hts
  · by_cases habove : name :: ts <+: name :: ss
    · obtain ⟨rest, hss⟩ := habove
      have hrest : rest ≠ [] := by
        rintro rfl
        rw [List.append_nil] at hss
        exact hbelow (hss ▸ List.prefix_refl _)
      rw [← hss] at hopen ⊢
      obtain ⟨es, hes⟩ := ownValue_writePath_above hrest hopen value
      rw [hes]
      rfl
    · rw [ownValue_writePath_other hbelow habove]
      exact hpicked

theorem ownValue_pickPath_other {path : String} (hne : topLevel path ≠ name) (ts : List String) :
    ownValue (.obj (pickPath source picked path)) (name :: ts) = ownValue (.obj picked) (name :: ts) := by
  rw [pickPath]
  split
  · rfl
  · rename_i value _
    rw [segmentsOf_eq path]
    refine ownValue_writePath_other ?_ ?_ picked value
    · exact fun hp => hne (List.cons_prefix_cons.mp hp).1
    · exact fun hp => hne (List.cons_prefix_cons.mp hp).1.symm

theorem foldl_pickPath_own {paths : List String} (hown : ∀ path ∈ paths, topLevel path = name →
      (ownValue (.obj source) (segmentsOf path)).isSome = true)
    (h : AgreesUnder source picked name) :
    AgreesUnder source (paths.foldl (pickPath source) picked) name ∧
      ∀ ts, (ownValue (.obj source) (name :: ts)).isSome = true →
        ((ownValue (.obj picked) (name :: ts)).isSome = true ∨
          ∃ path ∈ paths, segmentsOf path = name :: ts) →
        (ownValue (.obj (paths.foldl (pickPath source) picked)) (name :: ts)).isSome = true := by
  induction paths generalizing picked with
  | nil =>
    refine ⟨h, fun ts _ hts => ?_⟩
    rcases hts with hts | ⟨path, hpath, -⟩
    · exact hts
    · cases hpath
  | cons path paths ih =>
    obtain ⟨hpath, hrest⟩ := List.forall_mem_cons.mp hown
    by_cases htop : topLevel path = name
    · have hsegments : segmentsOf path = name :: (segmentsOf path).tail :=
        htop ▸ segmentsOf_eq path
      obtain ⟨value, hvalue⟩ := Option.isSome_iff_exists.mp (hpath htop)
      have hstep : pickPath source picked path
          = writePath picked (name :: (segmentsOf path).tail) value := by
        rw [pickPath, walk_of_ownValue hvalue, ← hsegments]
      rw [hsegments] at hvalue
      obtain ⟨hagrees, hstays⟩ := ih hrest (h.writePath hvalue)
      rw [List.foldl_cons, hstep]
      refine ⟨hagrees, fun ts hsource hts => hstays ts hsource ?_⟩
      rcases hts with hts | ⟨other, hother, hots⟩
      · exact .inl (picked_stays h hvalue hsource hts)
      · rcases List.mem_cons.mp hother with rfl | hother
        · left
          rw [hsegments, List.cons.injEq] at hots
          rw [← hots.2, ownValue_writePath (List.cons_ne_nil _ _) (h.openAt hvalue)]
          rfl
        · exact .inr ⟨other, hother, hots⟩
    · have hsame := @ownValue_pickPath_other picked source name path htop
      have hagrees : AgreesUnder source (pickPath source picked path) name := by
        intro ts u hu
        rw [hsame] at hu
        exact h ts u hu
      obtain ⟨hfinal, hstays⟩ := ih hrest hagrees
      refine ⟨hfinal, fun ts hsource hts => hstays ts hsource ?_⟩
      rcases hts with hts | ⟨other, hother, hots⟩
      · left
        rw [hsame]
        exact hts
      · rcases List.mem_cons.mp hother with rfl | hother
        · exfalso
          rw [segmentsOf_eq other, List.cons.injEq] at hots
          exact htop hots.1
        · exact .inr ⟨other, hother, hots⟩

theorem pickPaths_own {paths : List String} (hown : ∀ path ∈ paths, topLevel path = name →
      (ownValue (.obj source) (segmentsOf path)).isSome = true)
    {path : String} (hpath : path ∈ paths) (htop : topLevel path = name) :
    ∃ u v, ownValue (.obj (pickPaths source paths)) (segmentsOf path) = some u ∧
      ownValue (.obj source) (segmentsOf path) = some v ∧ SameShape u v := by
  have hempty : AgreesUnder source [] name := by
    intro ts u hu
    cases hu
  obtain ⟨hagrees, hpicked⟩ := foldl_pickPath_own hown hempty
  rw [← pickPaths_eq] at hagrees hpicked
  have hsegments : segmentsOf path = name :: (segmentsOf path).tail := htop ▸ segmentsOf_eq path
  have hsome := hown path hpath htop
  rw [hsegments] at hsome ⊢
  obtain ⟨u, hu⟩ := Option.isSome_iff_exists.mp (hpicked _ hsome (.inr ⟨path, hpath, hsegments⟩))
  obtain ⟨v, hv, hshape⟩ := hagrees _ _ hu
  exact ⟨u, v, hu, hv, hshape⟩

/-! ## Merged objects -/

theorem distinctKeys_writePath (picked : Fields) (path : List String) (value : Json)
    (h : DistinctKeys picked) : DistinctKeys (writePath picked path value) := by
  cases path with
  | nil => exact h
  | cons s ss =>
    cases ss with
    | nil => exact distinctKeys_setKey h s value
    | cons t ss =>
      rw [writePath]
      split
      · exact distinctKeys_setKey h _ _
      · exact h
      · exact distinctKeys_setKey h _ _

theorem distinctKeys_foldl_pickPath (source : Fields) (paths : List String)
    (h : DistinctKeys picked) : DistinctKeys (paths.foldl (pickPath source) picked) := by
  induction paths generalizing picked with
  | nil => exact h
  | cons path paths ih =>
    rw [List.foldl_cons]
    apply ih
    rw [pickPath]
    split
    · exact h
    · exact distinctKeys_writePath _ _ _ h

theorem lookup_copy {es : Fields} (h : DistinctKeys es) (key : String) :
    lookup (spread [] es) key = lookup es key := by
  induction es with
  | nil => rfl
  | cons e es ih =>
    obtain ⟨hnot, htail⟩ := List.nodup_cons.mp h
    have hstep : spread [] (e :: es) = spread (setKey [] e.1 e.2) es := rfl
    rw [hstep, lookup_spread, ih htail, lookup_setKey]
    by_cases hkey : key = e.1
    · have hnone : lookup es key = none := by
        rw [lookup_eq_none]
        intro d hd hdkey
        refine hnot ?_
        show e.1 ∈ _
        rw [← hkey, ← hdkey]
        exact List.mem_map_of_mem hd
      rw [if_pos hkey, hnone, lookup, List.find?_cons_of_pos (by simpa using hkey.symm)]
      rfl
    · have htail' : lookup (e :: es) key = lookup es key := by
        rw [lookup, List.find?_cons_of_neg (by simpa using Ne.symm hkey)]
        rfl
      rw [if_neg hkey, htail']
      cases lookup es key with
      | none => rfl
      | some v => rfl

theorem ownValue_spread (a b : Fields) (path : String) :
    ownValue (.obj (spread a b)) (segmentsOf path) =
      if (lookup (spread [] b) (topLevel path)).isSome then
        ownValue (.obj (spread [] b)) (segmentsOf path)
      else ownValue (.obj a) (segmentsOf path) := by
  rw [segmentsOf_eq, ownValue_obj_cons, ownValue_obj_cons, ownValue_obj_cons, lookup_spread]
  cases lookup (spread [] b) (topLevel path) with
  | none => rfl
  | some v => rfl

theorem hasValue_congr {a b : Fields} {path : String}
    (h : ownValue (.obj a) (segmentsOf path) = ownValue (.obj b) (segmentsOf path)) :
    hasValue a path = hasValue b path := by
  rw [hasValue, hasValue, h]

theorem hasValue_spread (a b : Fields) (path : String) :
    hasValue (spread a b) path =
      if (lookup (spread [] b) (topLevel path)).isSome then hasValue (spread [] b) path
      else hasValue a path := by
  have h := ownValue_spread a b path
  split
  · rw [hasValue, h, if_pos ‹_›, hasValue]
  · rw [hasValue, h, if_neg ‹_›, hasValue]

theorem isSome_of_hasValue {fields : Fields} {path : String} (h : hasValue fields path = true) :
    (ownValue (.obj fields) (segmentsOf path)).isSome = true := by
  rw [hasValue] at h
  cases hv : ownValue (.obj fields) (segmentsOf path) with
  | none => simp [hv] at h
  | some v => rfl

theorem hasValue_of_sameShape {a b : Fields} {path : String} {u v : Json}
    (ha : ownValue (.obj a) (segmentsOf path) = some u)
    (hb : ownValue (.obj b) (segmentsOf path) = some v) (hshape : SameShape u v)
    (h : hasValue b path = true) : hasValue a path = true := by
  rcases hshape with rfl | ⟨es, ds, rfl, rfl⟩
  · rw [hasValue_congr (ha.trans hb.symm)]
    exact h
  · rw [hasValue, ha]

/-! ## The write carries what the evaluation found -/

/-- The fields that are sent with a translated state. -/
def sentFields (fields sourceFields mapped : Fields) (required : List String) : Fields :=
  spread (spread fields (pickPaths sourceFields required)) mapped

theorem hasValue_sentFields (fields : Fields) {sourceFields mapped : Fields} {required : List String}
    (h : ∀ path ∈ required, hasValue (spread sourceFields mapped) path = true) :
    ∀ path ∈ required, hasValue (sentFields fields sourceFields mapped required) path = true := by
  intro path hpath
  have hvalue := h path hpath
  rw [hasValue_spread] at hvalue
  rw [sentFields, hasValue_spread]
  split
  · rwa [if_pos ‹_›] at hvalue
  · rename_i hmapped
    rw [if_neg hmapped] at hvalue
    -- all that is required under this name comes from the source
    have hown : ∀ other ∈ required, topLevel other = topLevel path →
        (ownValue (.obj sourceFields) (segmentsOf other)).isSome = true := by
      intro other hother htop
      have hother' := h other hother
      rw [hasValue_spread, htop, if_neg hmapped] at hother'
      exact isSome_of_hasValue hother'
    obtain ⟨u, v, hu, hv, hshape⟩ := pickPaths_own hown hpath rfl
    have hdistinct : DistinctKeys (pickPaths sourceFields required) := by
      rw [pickPaths_eq]
      exact distinctKeys_foldl_pickPath _ _ distinctKeys_nil
    have hname : (lookup (pickPaths sourceFields required) (topLevel path)).isSome = true := by
      rw [segmentsOf_eq, ownValue_obj_cons] at hu
      obtain ⟨w, hw, -⟩ := Option.bind_eq_some_iff.mp hu
      rw [hw]
      rfl
    rw [hasValue_spread, if_pos (by rw [lookup_copy hdistinct]; exact hname)]
    have hcopy : ownValue (.obj (spread [] (pickPaths sourceFields required))) (segmentsOf path)
        = some u := by
      rw [← hu, segmentsOf_eq, ownValue_obj_cons, ownValue_obj_cons, lookup_copy hdistinct]
    exact hasValue_of_sameShape hcopy hv hshape hvalue

def ruleFor (sameText : String → String → Bool) (published : Option StateMappingDefinition)
    (source target : SyncIdentity) (sourceState : String) : Option StateMappingRule :=
  published.bind fun mapping =>
    match mapping.directionFor source target with
    | .ok direction =>
      mapping.rules.find? fun r => r.direction = direction && sameText r.fromState sourceState
    | .error _ => none

def requiredOf (rule : Option StateMappingRule) : List String :=
  (rule.map (·.requiredTargetFields)).getD []

/-- The decision misses what its rule requires and the fields have no value
for, and is ready only if that is nothing. -/
structure DecidesOn (targetFields : Fields) (rule : Option StateMappingRule)
    (decision : Evaluation) : Prop where
  rule_eq : decision.rule = rule
  missing : decision.missingTargetFields
    = (requiredOf rule).filter fun path => !hasValue targetFields path
  ready : decision.ready = true → decision.missingTargetFields = [] ∧ rule.isSome = true

theorem evaluate_decidesOn {sameText : String → String → Bool}
    {published : Option StateMappingDefinition} {source target : SyncIdentity} {sourceState : String}
    {current : Option String} {targetFields : Fields}
    (h : evaluate sameText published source target sourceState current targetFields
      = .ok decision) :
    DecidesOn targetFields (ruleFor sameText published source target sourceState) decision := by
  unfold evaluate at h
  cases published with
  | none =>
    obtain rfl := Except.ok.inj h
    exact ⟨rfl, rfl, by simp [Evaluation.ready]⟩
  | some mapping =>
    rw [ruleFor, Option.bind_some]
    cases hdirection : mapping.directionFor source target with
    | error message => simp [hdirection, bind, Except.bind] at h
    | ok direction =>
      simp only [hdirection, bind, Except.bind] at h
      dsimp only
      cases hrule : mapping.rules.find? fun r =>
          r.direction = direction && sameText r.fromState sourceState with
      | none =>
        simp only [hrule] at h
        obtain rfl := Except.ok.inj h
        exact ⟨rfl, rfl, by simp [Evaluation.ready]⟩
      | some rule =>
        simp only [hrule] at h
        split at h
        case isTrue hmissing =>
          obtain rfl := Except.ok.inj h
          exact ⟨rfl, rfl, by simp [Evaluation.ready]⟩
        case isFalse hmissing =>
          have hnone : rule.requiredTargetFields.filter
              (fun path => !hasValue targetFields path) = [] := by simpa using hmissing
          have hheld : ∀ message, DecidesOn targetFields (some rule)
              ⟨some rule, .invalidTargetTransition, message, some rule.toState, []⟩ :=
            fun _ => ⟨rfl, hnone.symm, by simp [Evaluation.ready]⟩
          have hready : ∀ message, DecidesOn targetFields (some rule)
              ⟨some rule, .mapped, message, some rule.toState, []⟩ :=
            fun _ => ⟨rfl, hnone.symm, fun _ => ⟨rfl, rfl⟩⟩
          cases current with
          | none =>
            dsimp only at h
            split at h
            · exact Except.ok.inj h ▸ hheld _
            · exact Except.ok.inj h ▸ hready _
          | some state =>
            dsimp only at h
            split at h
            · exact Except.ok.inj h ▸ hheld _
            · exact Except.ok.inj h ▸ hready _

theorem stateText_eq {value field text : String} {maxLength : Nat}
    (h : stateText value field maxLength = .ok text) : text = trimString value := by
  rw [stateText] at h
  split at h
  · cases h
  · split at h
    · cases h
    · exact (Except.ok.inj h).symm

theorem translateState_decidesOn {sameText : String → String → Bool}
    {published : Option StateMappingDefinition} {source target : SyncIdentity} {sourceState : String}
    {current : Option String} {targetFields : Fields}
    (h : translateState sameText published source target sourceState current targetFields
      = .ok decision) :
    DecidesOn targetFields (ruleFor sameText published source target (trimString sourceState))
      decision := by
  unfold translateState at h
  cases hstate : stateText sourceState "source_state" 160 with
  | error message => simp [hstate, bind, Except.bind] at h
  | ok state =>
    rw [← stateText_eq hstate]
    cases current with
    | none =>
      simp only [hstate, bind, Except.bind, pure, Except.pure] at h
      exact evaluate_decidesOn h
    | some value =>
      cases hcurrent : stateText value "current_target_state" 160 with
      | error message =>
        simp [hstate, hcurrent, bind, Except.bind, Functor.map, Except.map] at h
      | ok value' =>
        simp only [hstate, hcurrent, bind, Except.bind, Functor.map, Except.map] at h
        exact evaluate_decidesOn h

/-! ## Orders with a state -/

/-- The fields a field mapping adds; those of a held translation count for nothing. -/
def mappedFields : Option Target.FieldTranslation → Fields
  | some (.ready fields) => fields
  | _ => []

section Order

variable (services : Target.TranslationServices) (work : WorkOrder) (target : Target.TargetRead)

def orderSource : Fields := Target.fieldsAt work.sourcePayload "fields"

/-- What the field mapping adds to the write of an order. -/
def orderMapped : Fields :=
  mappedFields (services.translateFields (orderSource work)
    (orNull (Target.textAt work.sourcePayload "state")) (orNull target.effective))

/-- What `evaluate` decides on the state of an order. -/
def orderDecision : Except String Evaluation :=
  translateState services.sameText services.published
    (Target.identityAt work.sourcePayload "identity") target.identity
    ((Target.textAt work.sourcePayload "state").getD "") (orNull target.effective)
    (spread (orderSource work) (orderMapped services work target))

def orderRequired : List String :=
  requiredOf (ruleFor services.sameText services.published
    (Target.identityAt work.sourcePayload "identity") target.identity
    (trimString ((Target.textAt work.sourcePayload "state").getD "")))

def carriesState : Bool :=
  Target.flagAt work.sourcePayload "stateChanged" && truthy (Target.textAt work.sourcePayload "state")

variable {services : Target.TranslationServices} {work : WorkOrder} {target : Target.TargetRead}

theorem orderDecision_spec {decision : Evaluation}
    (h : orderDecision services work target = .ok decision) :
    requiredOf decision.rule = orderRequired services work target ∧
      decision.missingTargetFields = (orderRequired services work target).filter (fun path =>
        !hasValue (spread (orderSource work) (orderMapped services work target)) path) ∧
      (decision.ready = true → decision.missingTargetFields = []) := by
  have hdecides := translateState_decidesOn h
  exact ⟨congrArg requiredOf hdecides.rule_eq, hdecides.missing, fun hready => (hdecides.ready hready).1⟩

theorem translateStatePart_sent (hstate : carriesState work = true)
    {translation : Option Target.FieldTranslation} {transactionId : Option Uuid}
    {targetState : Option String} {fields : Fields}
    (h : Target.translateStatePart services work target translation
      = .ok (.inr (transactionId, targetState, fields))) :
    ∃ decision, translateState services.sameText services.published
        (Target.identityAt work.sourcePayload "identity") target.identity
        ((Target.textAt work.sourcePayload "state").getD "") (orNull target.effective)
        (spread (orderSource work) (mappedFields translation)) = .ok decision ∧
      decision.ready = true ∧
      fields = spread work.fields (pickPaths (orderSource work) (requiredOf decision.rule)) ∧
      transactionId = some services.transactionId := by
  have hif : (Target.flagAt work.sourcePayload "stateChanged"
      && truthy (Target.textAt work.sourcePayload "state")) = true := hstate
  have hpart : Target.translateStatePart services work target translation =
      ((translateState services.sameText services.published
        (Target.identityAt work.sourcePayload "identity") target.identity
        ((Target.textAt work.sourcePayload "state").getD "") (orNull target.effective)
        (spread (orderSource work) (mappedFields translation))).bind fun decision =>
        if decision.ready && truthy decision.mappedTargetState then
          .ok (.inr (some services.transactionId, decision.mappedTargetState,
            spread work.fields (pickPaths (orderSource work) (requiredOf decision.rule))))
        else
          .ok (.inl (some services.transactionId, decision.reason.text,
            some (decision.message ++
              if decision.reason = .missingRequiredFields then
                Target.missingFieldsAdvice services.provider else "")))) := by
    unfold Target.translateStatePart
    rw [if_pos hif]
    rfl
  rw [hpart] at h
  cases hdecision : translateState services.sameText services.published
      (Target.identityAt work.sourcePayload "identity") target.identity
      ((Target.textAt work.sourcePayload "state").getD "") (orNull target.effective)
      (spread (orderSource work) (mappedFields translation)) with
  | error message =>
    rw [hdecision] at h
    cases h
  | ok decision =>
    rw [hdecision] at h
    dsimp only [Except.bind] at h
    split at h
    case isTrue hready =>
      rw [Bool.and_eq_true] at hready
      obtain ⟨htransaction, -, rfl⟩ : transactionId = some services.transactionId ∧
          targetState = decision.mappedTargetState ∧ fields = _ := by
        simpa [eq_comm] using h
      exact ⟨decision, rfl, hready.1, rfl, htransaction⟩
    case isFalse => cases h

theorem translateWork_ready {transactionId : Option Uuid} {targetState effective : Option String} {fields : Fields}
    (h : Target.translateWork services work target = .ok (.ready transactionId targetState fields effective)) :
    let mapped := services.translateFields (orderSource work) (orNull (Target.textAt work.sourcePayload "state"))
      (orNull target.effective)
    ∃ saved, Target.translateStatePart services work target mapped = .ok (.inr (transactionId, targetState, saved)) ∧
      fields = spread saved (orderMapped services work target) ∧ ∀ message, mapped ≠ some (.held message) := by
  intro mapped
  simp only [Target.translateWork] at h
  change (Target.translateStatePart services work target mapped).bind _ = _ at h
  cases hpart : Target.translateStatePart services work target mapped with
  | error message =>
    rw [hpart] at h
    cases h
  | ok part =>
    rw [hpart] at h
    rcases part with ⟨transactionId', reason, message⟩ | ⟨transactionId', targetState', saved⟩
    · cases h
    · simp only [Except.bind] at h
      rw [orderMapped]
      change ∃ _, _ ∧ _ = spread _ (mappedFields mapped) ∧ _
      have htranslated {answer} (hmapped : mapped = answer) :
          services.translateFields (Target.fieldsAt work.sourcePayload "fields")
            (orNull (Target.textAt work.sourcePayload "state")) (orNull target.effective) = answer := hmapped
      cases hmapped : mapped with
      | none =>
        rw [htranslated hmapped] at h
        cases h
        exact ⟨_, rfl, rfl, by rintro _ ⟨⟩⟩
      | some translation =>
        rw [htranslated hmapped] at h
        cases translation with
        | held message => cases h
        | ready fields =>
          cases h
          exact ⟨_, rfl, rfl, by rintro _ ⟨⟩⟩

theorem translateWork_sent (hstate : carriesState work = true) {transactionId : Option Uuid}
    {targetState effective : Option String} {fields : Fields}
    (h : Target.translateWork services work target
      = .ok (.ready transactionId targetState fields effective)) :
    ∃ decision, orderDecision services work target = .ok decision ∧ decision.ready = true ∧
      fields = sentFields work.fields (orderSource work) (orderMapped services work target)
        (requiredOf decision.rule) ∧
      transactionId = some services.transactionId := by
  obtain ⟨saved, hpart, rfl, -⟩ := translateWork_ready h
  obtain ⟨decision, hdecision, hready, rfl, htransaction⟩ := translateStatePart_sent hstate hpart
  exact ⟨decision, hdecision, hready, rfl, htransaction⟩

end Order

/-- An issue with notes of its resolution is done, and the incident wants a
close code as well. -/
def resolveOrder (fields : Fields) : WorkOrder :=
  NewWorkOrder.row
    { id := 40, orgId := 1, origin := .statePropagation, sourceEventId := none
      sourcePayload := [("identity", .obj [("system", .str "jira"), ("entity_type", .str "issue"),
        ("immutable_id", .str "10001")]), ("state", .str "Done"), ("stateChanged", .bool true),
        ("fields", .obj fields)]
      sourceConnectorId := none, targetConnectorId := 3, targetTwinId := 6
      targetEntityType := "incident", targetExternalId := "INC1", targetState := none
      fields := [] } 1

def resolving (required : List String) (mapped : Fields) : Target.TranslationServices where
  sameText a b := a == b
  published := some
    { name := "Incidents", source := ⟨"jira", "issue"⟩, target := ⟨"servicenow", "incident"⟩
      version := 1, rules := [⟨.sourceToTarget, "Done", "Resolved", required, []⟩] }
  translateFields _ _ _ := some (.ready mapped)
  transactionId := 30
  provider := "servicenow"

def incidentRead : Target.TargetRead := ⟨⟨"servicenow", "incident", "INC1"⟩, some "New"⟩

def resolutionNotes : Fields := [("resolution", .obj [("notes", .str "Disk replaced")])]

def mappedCode : Fields := [("close_code", .str "Solved")]

theorem ok_of_toOption {services : Target.TranslationServices} {work : WorkOrder} {target : Target.TargetRead}
    (h : (orderDecision services work target).toOption = some decision) :
    orderDecision services work target = .ok decision := by
  cases hvalue : orderDecision services work target with
  | error message =>
    rw [hvalue] at h
    cases h
  | ok found =>
    rw [hvalue] at h
    rw [Option.some.inj h]

/-- What is reported missing is not there, exactly when every required path
that the source has a value at, and whose top level name the field mapping
writes, gets a value from the field mapping. -/
theorem missing_unavailable_iff (services : Target.TranslationServices) (work : WorkOrder)
    (target : Target.TargetRead) {decision : Evaluation}
    (h : orderDecision services work target = .ok decision) :
    (∀ path ∈ decision.missingTargetFields, hasValue (orderSource work) path = false ∧
      hasValue (spread [] (orderMapped services work target)) path = false) ↔
    ∀ path ∈ orderRequired services work target, hasValue (orderSource work) path = true →
      (lookup (spread [] (orderMapped services work target)) (topLevel path)).isSome = true →
      hasValue (spread [] (orderMapped services work target)) path = true := by
  rw [(orderDecision_spec h).2.1]
  constructor
  · intro hmissing path hpath hsource hname
    by_contra hno
    have hnot : hasValue (spread (orderSource work) (orderMapped services work target)) path = false := by
      rw [hasValue_spread, if_pos hname]
      simpa using hno
    have := (hmissing path (List.mem_filter.mpr ⟨hpath, by rw [hnot]; rfl⟩)).1
    rw [hsource] at this
    cases this
  · intro hcovered path hpath
    obtain ⟨hrequired, hnot⟩ := List.mem_filter.mp hpath
    rw [hasValue_spread] at hnot
    by_cases hname : (lookup (spread [] (orderMapped services work target)) (topLevel path)).isSome
        = true
    · rw [if_pos hname] at hnot
      have hmapped : hasValue (spread [] (orderMapped services work target)) path = false := by
        simpa using hnot
      refine ⟨?_, hmapped⟩
      by_contra hsource
      rw [hcovered path hrequired (by simpa using hsource) hname] at hmapped
      cases hmapped
    · rw [if_neg hname] at hnot
      refine ⟨by simpa using hnot, ?_⟩
      rw [hasValue, segmentsOf_eq, ownValue_obj_cons, Option.not_isSome_iff_eq_none.mp hname]
      rfl

/-- The field mapping writes a part of the resolution, the source has the other. -/
def mappedResolutionCode : Fields := [("resolution", .obj [("code", .str "Solved")])]

theorem closed_with_code_missing_nothing :
    ∃ decision, orderDecision (resolving ["close_code", "resolution.notes"] mappedCode)
        (resolveOrder resolutionNotes) incidentRead = .ok decision ∧
      ∀ path ∈ decision.missingTargetFields,
        hasValue (orderSource (resolveOrder resolutionNotes)) path = false ∧
          hasValue (spread [] (orderMapped (resolving ["close_code", "resolution.notes"] mappedCode)
            (resolveOrder resolutionNotes) incidentRead)) path = false := by
  have hsome : (orderDecision (resolving ["close_code", "resolution.notes"] mappedCode)
      (resolveOrder resolutionNotes) incidentRead).toOption.isSome = true := by decide
  obtain ⟨decision, hdecision⟩ := Option.isSome_iff_exists.mp hsome
  exact ⟨decision, ok_of_toOption hdecision,
    (missing_unavailable_iff _ _ _ (ok_of_toOption hdecision)).mpr (by decide)⟩

/-- With both parts there, one of them is reported missing. -/
theorem resolution_in_two_parts_held :
    ¬ ∀ (services : Target.TranslationServices) (work : WorkOrder) (target : Target.TargetRead)
      (decision : Evaluation), orderDecision services work target = .ok decision →
        ∀ path ∈ decision.missingTargetFields, hasValue (orderSource work) path = false ∧
          hasValue (spread [] (orderMapped services work target)) path = false := by
  intro h
  have hmissing : (orderDecision
      (resolving ["resolution.code", "resolution.notes"] mappedResolutionCode)
      (resolveOrder resolutionNotes) incidentRead).toOption.map (·.missingTargetFields)
      = some ["resolution.notes"] := by decide
  obtain ⟨decision, hdecision, hpaths⟩ := Option.map_eq_some_iff.mp hmissing
  have hnone := (h _ _ _ decision (ok_of_toOption hdecision) "resolution.notes"
    (by rw [hpaths]; exact List.mem_singleton_self _)).1
  exact absurd hnone (by decide)

end Cadena.Connectors
