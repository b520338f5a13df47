import Cadena.Audit.Integrity
import Cadena.Base.Canonical
import Cadena.Connectors.FieldMapping

/-!
# Picked fields

`pickPaths` over names without dots restricts an object to those names.
Objects are compared entry by entry: by what `lookup` finds under each key,
up to the canonical form of the value.
-/

namespace Cadena.Connectors

open Cadena.Base Cadena.Audit

/-! ## Objects as lookups -/

variable {key name : String} {es picked source : Fields}

theorem lookup_eq_none : lookup es key = none ↔ ∀ e ∈ es, e.1 ≠ key := by
  simp [lookup, List.find?_eq_none]

theorem lookup_isSome : (lookup es key).isSome = true ↔ key ∈ es.map (·.1) := by
  simp [lookup, List.find?_isSome]

theorem mem_iff_lookup (hes : DistinctKeys es) {value : Json} : (key, value) ∈ es ↔ lookup es key = some value := by
  constructor
  · intro hmem
    obtain ⟨found, hfound⟩ : ∃ e, es.find? (fun e => decide (e.1 = key)) = some e := by
      rw [← Option.isSome_iff_exists, List.find?_isSome]
      exact ⟨_, hmem, by simp⟩
    have hkey : found.1 = key := by simpa using List.find?_some hfound
    have heq : found = (key, value) :=
      List.inj_on_of_nodup_map hes (List.mem_of_find?_eq_some hfound) hmem hkey
    rw [lookup, hfound, heq]
    rfl
  · intro h
    obtain ⟨found, hfound, rfl⟩ := Option.map_eq_some_iff.mp h
    have hkey : found.1 = key := by simpa using List.find?_some hfound
    rw [← hkey]
    exact List.mem_of_find?_eq_some hfound

theorem lookup_canonEntries (es : Fields) (key : String) :
    lookup (canonEntries es) key = (lookup es key).map canon := by
  rw [canonEntries_eq]
  induction es with
  | nil => rfl
  | cons e es ih =>
    rw [List.map_cons]
    unfold lookup at ih ⊢
    by_cases hkey : e.1 = key
    · rw [List.find?_cons_of_pos (by simpa using hkey),
        List.find?_cons_of_pos (by simpa using hkey)]
      rfl
    · rw [List.find?_cons_of_neg (by simpa using hkey),
        List.find?_cons_of_neg (by simpa using hkey)]
      exact ih

theorem stableStringify_obj_eq_iff {ds : Fields} (hes : DistinctKeys es) (hds : DistinctKeys ds) :
    stableStringify (.obj es) = stableStringify (.obj ds) ↔
      ∀ key, (lookup es key).map canon = (lookup ds key).map canon := by
  rw [stableStringify_inj, canon_obj_eq_iff hes hds]
  have hmem : ∀ key value, (key, value) ∈ canonEntries es ↔
      (lookup es key).map canon = some value := fun key value => by
    rw [mem_iff_lookup hes.canonEntries, lookup_canonEntries]
  have hmem' : ∀ key value, (key, value) ∈ canonEntries ds ↔
      (lookup ds key).map canon = some value := fun key value => by
    rw [mem_iff_lookup hds.canonEntries, lookup_canonEntries]
  constructor
  · intro h key
    exact Option.ext fun value => by rw [← hmem, ← hmem', h]
  · rintro h ⟨key, value⟩
    rw [hmem, hmem', h]

theorem setKey_keys (es : Fields) (key : String) (value : Json) :
    (setKey es key value).map (·.1) =
      if key ∈ es.map (·.1) then es.map (·.1) else es.map (·.1) ++ [key] := by
  unfold setKey
  by_cases h : key ∈ es.map (·.1)
  · rw [if_pos h, if_pos (lookup_isSome.mpr h), List.map_map]
    refine List.map_congr_left fun e _ => ?_
    by_cases he : e.1 = key
    · simp [he]
    · simp [he]
  · rw [if_neg h, if_neg (mt lookup_isSome.mp h), List.map_append]
    rfl

theorem distinctKeys_nil : DistinctKeys ([] : Fields) := List.nodup_nil

theorem distinctKeys_setKey (h : DistinctKeys es) (key : String) (value : Json) :
    DistinctKeys (setKey es key value) := by
  unfold DistinctKeys
  rw [setKey_keys]
  by_cases hkey : key ∈ es.map (·.1)
  · rw [if_pos hkey]
    exact h
  · rw [if_neg hkey]
    exact List.nodup_append.mpr ⟨h, List.nodup_singleton _, by
      intro a ha b hb
      rw [List.mem_singleton.mp hb]
      rintro rfl
      exact hkey ha⟩

theorem splitDots_ne_nil (t : Text) : splitDots t ≠ [] := by
  cases t with
  | nil => exact List.cons_ne_nil _ _
  | cons c cs =>
    unfold splitDots
    by_cases hc : c = '.'
    · rw [if_pos hc]
      exact List.cons_ne_nil _ _
    · rw [if_neg hc]
      split <;> exact List.cons_ne_nil _ _

theorem segmentsOf_ne_nil (path : String) : segmentsOf path ≠ [] := by
  rw [segmentsOf]
  exact fun h => splitDots_ne_nil _ (List.map_eq_nil_iff.mp h)

theorem splitDots_cons_of_ne {c : Char} {cs part : Text} {parts : List Text} (hc : c ≠ '.')
    (h : splitDots cs = part :: parts) : splitDots (c :: cs) = (c :: part) :: parts := by
  rw [splitDots, if_neg hc, h]

theorem splitDots_head {t part : Text} {parts : List Text} (h : splitDots t = part :: parts) :
    splitDots part = [part] := by
  induction t generalizing part parts with
  | nil =>
    cases h
    rfl
  | cons c cs ih =>
    by_cases hc : c = '.'
    · rw [splitDots, if_pos hc] at h
      cases h
      rfl
    · obtain ⟨first, rest, hcs⟩ := List.exists_cons_of_ne_nil (splitDots_ne_nil cs)
      rw [splitDots_cons_of_ne hc hcs] at h
      cases h
      exact splitDots_cons_of_ne hc (ih hcs)

/-- `name.split('.')` is the name itself. -/
def DotFree (name : String) : Prop := segmentsOf name = [name]

theorem topLevel_dotFree (path : String) : DotFree (topLevel path) := by
  obtain ⟨part, parts, h⟩ := List.exists_cons_of_ne_nil (splitDots_ne_nil path.toList)
  have htop : topLevel path = String.ofList part := by
    rw [topLevel, segmentsOf, h]
    rfl
  rw [DotFree, htop, segmentsOf, String.toList_ofList, splitDots_head h]
  rfl

theorem writtenFieldNames_dotFree {mappings : List FieldMappingDefinition} {orgId : Uuid}
    {endpoint : FieldMappingEndpoint} :
    ∀ name ∈ writtenFieldNames mappings orgId endpoint, DotFree name := by
  intro name h
  obtain ⟨-, -, -, -, rule, -, -, rfl⟩ := mem_writtenFieldNames.mp h
  exact topLevel_dotFree _

/-! ## Picking names -/

/-- One step of `pickPaths`. -/
def pickPath (source picked : Fields) (path : String) : Fields :=
  match walk (.obj source) (segmentsOf path) with
  | none => picked
  | some value => writePath picked (segmentsOf path) value

theorem pickPaths_eq (source : Fields) (paths : List String) :
    pickPaths source paths = paths.foldl (pickPath source) [] := rfl

theorem pickPath_dotFree (h : DotFree name) : pickPath source picked name =
      match lookup source name with
      | none => picked
      | some value => setKey picked name value := by
  rw [pickPath, h]
  show (match walk (.obj source) [name] with
    | none => picked
    | some value => setKey picked name value) = _
  cases hl : lookup source name with
  | none => simp only [walk, property, hl]
  | some value => simp only [walk, property, hl]

theorem pickPath_distinct (source : Fields) (h : DotFree name)
    (hp : DistinctKeys picked) : DistinctKeys (pickPath source picked name) := by
  rw [pickPath_dotFree h]
  cases lookup source name with
  | none => exact hp
  | some value => exact distinctKeys_setKey hp name value

theorem lookup_pickPath (h : DotFree name) : lookup (pickPath source picked name) key =
      if key = name then (lookup source name).or (lookup picked key)
      else lookup picked key := by
  rw [pickPath_dotFree h]
  cases lookup source name with
  | none => by_cases hk : key = name <;> simp [hk]
  | some value =>
    show lookup (setKey picked name value) key = _
    rw [lookup_setKey]
    by_cases hk : key = name <;> simp [hk]

theorem foldl_pickPath {names : List String} (h : ∀ n ∈ names, DotFree n) (hp : DistinctKeys picked) :
    DistinctKeys (names.foldl (pickPath source) picked) ∧
      ∀ key, lookup (names.foldl (pickPath source) picked) key =
        if key ∈ names then (lookup source key).or (lookup picked key)
        else lookup picked key := by
  induction names generalizing picked with
  | nil => exact ⟨hp, fun key => by simp⟩
  | cons name names ih =>
    obtain ⟨hname, hnames⟩ := List.forall_mem_cons.mp h
    obtain ⟨hdist, hlookup⟩ := ih hnames (pickPath_distinct source hname hp)
    refine ⟨hdist, fun key => ?_⟩
    rw [List.foldl_cons, hlookup key, lookup_pickPath hname]
    by_cases hk : key = name
    · subst hk
      by_cases hmem : key ∈ names
      · rw [if_pos hmem, if_pos rfl, if_pos (List.mem_cons_self)]
        cases lookup source key <;> rfl
      · rw [if_neg hmem, if_pos rfl, if_pos (List.mem_cons_self)]
    · by_cases hmem : key ∈ names
      · rw [if_pos hmem, if_neg hk, if_pos (List.mem_cons_of_mem _ hmem)]
      · rw [if_neg hmem, if_neg hk, if_neg (by simp [hk, hmem])]

theorem lookup_pickPaths {names : List String} (h : ∀ n ∈ names, DotFree n) (key : String) :
    lookup (pickPaths source names) key = if key ∈ names then lookup source key else none := by
  rw [pickPaths_eq, (foldl_pickPath h distinctKeys_nil).2 key]
  simp [lookup]

theorem pickPaths_distinct {names : List String}
    (h : ∀ n ∈ names, DotFree n) : DistinctKeys (pickPaths source names) :=
  (foldl_pickPath h distinctKeys_nil).1

end Cadena.Connectors
