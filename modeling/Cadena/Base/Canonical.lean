import Cadena.Base.Json

/-!
# Comparing canonical objects

Keys are totally ordered by their code units, so that sorting forgets
the order of insertion and nothing else: two objects with distinct keys
have one canonical form exactly when they have the same entries up to the
canonical form of the values.
-/

namespace Cadena.Base

/-! ## The order of keys -/

theorem unitsLe_total : ∀ ms ns : List Nat, unitsLe ms ns = true ∨ unitsLe ns ms = true
  | [], _ => .inl rfl
  | _ :: _, [] => .inr rfl
  | m :: ms, n :: ns => by
    simp only [unitsLe, Bool.or_eq_true, Bool.and_eq_true, decide_eq_true_eq, beq_iff_eq]
    have ih := unitsLe_total ms ns
    rcases Nat.lt_trichotomy m n with hlt | heq | hgt
    · exact .inl (.inl hlt)
    · rcases ih with ih | ih
      · exact .inl (.inr ⟨heq, ih⟩)
      · exact .inr (.inr ⟨heq.symm, ih⟩)
    · exact .inr (.inl hgt)

theorem unitsLe_trans : ∀ ls ms ns : List Nat,
    unitsLe ls ms = true → unitsLe ms ns = true → unitsLe ls ns = true
  | [], _, _, _, _ => rfl
  | _ :: _, [], _, h, _ => by cases h
  | _ :: _, _ :: _, [], _, h => by cases h
  | l :: ls, m :: ms, n :: ns, hlm, hmn => by
    simp only [unitsLe, Bool.or_eq_true, Bool.and_eq_true, decide_eq_true_eq,
      beq_iff_eq] at hlm hmn ⊢
    rcases hlm with hlm | ⟨rfl, hlm⟩
    · rcases hmn with hmn | ⟨rfl, -⟩
      · exact .inl (Nat.lt_trans hlm hmn)
      · exact .inl hlm
    · rcases hmn with hmn | ⟨rfl, hmn⟩
      · exact .inl hmn
      · exact .inr ⟨rfl, unitsLe_trans ls ms ns hlm hmn⟩

theorem unitsLe_antisymm : ∀ ms ns : List Nat,
    unitsLe ms ns = true → unitsLe ns ms = true → ms = ns
  | [], [], _, _ => rfl
  | [], _ :: _, _, h => by cases h
  | _ :: _, [], h, _ => by cases h
  | m :: ms, n :: ns, h, h' => by
    simp only [unitsLe, Bool.or_eq_true, Bool.and_eq_true, decide_eq_true_eq,
      beq_iff_eq] at h h'
    rcases h with hlt | ⟨rfl, h⟩
    · rcases h' with hgt | ⟨rfl, -⟩
      · omega
      · exact absurd hlt (Nat.lt_irrefl _)
    · rcases h' with hlt | ⟨-, h'⟩
      · exact absurd hlt (Nat.lt_irrefl _)
      · rw [unitsLe_antisymm ms ns h h']

/-- A character's code point is no surrogate, so a first unit tells whether
a second follows. -/
theorem utf16_append_inj {c d : Char} {r r' : List Nat} (h : utf16 c ++ r = utf16 d ++ r') :
    c = d ∧ r = r' := by
  have hvalid : ∀ x : Char, x.toNat < 0xD800 ∨ (0xDFFF < x.toNat ∧ x.toNat < 0x110000) := by
    intro x
    have := x.valid
    simpa [UInt32.isValidChar, Nat.isValidChar] using this
  have hc := hvalid c
  have hd := hvalid d
  have heq : c.toNat = d.toNat → c = d := fun h => Char.ext (UInt32.toNat_inj.mp h)
  unfold utf16 at h
  by_cases hcs : c.toNat < 0x10000
  · by_cases hds : d.toNat < 0x10000
    · rw [if_pos hcs, if_pos hds] at h
      obtain ⟨hn, hr⟩ := List.cons.inj h
      exact ⟨heq hn, hr⟩
    · rw [if_pos hcs, if_neg hds] at h
      have hn := (List.cons.inj h).1
      omega
  · by_cases hds : d.toNat < 0x10000
    · rw [if_neg hcs, if_pos hds] at h
      have hn := (List.cons.inj h).1
      omega
    · rw [if_neg hcs, if_neg hds] at h
      obtain ⟨hhi, hrest⟩ := List.cons.inj h
      obtain ⟨hlo, hr⟩ := List.cons.inj hrest
      exact ⟨heq (by omega), hr⟩

theorem utf16_ne_nil (c : Char) : utf16 c ≠ [] := by
  unfold utf16
  by_cases hc : c.toNat < 0x10000
  · rw [if_pos hc]
    exact List.cons_ne_nil _ _
  · rw [if_neg hc]
    exact List.cons_ne_nil _ _

theorem flatMap_utf16_inj {cs ds : Text} (h : cs.flatMap utf16 = ds.flatMap utf16) :
    cs = ds := by
  induction cs generalizing ds with
  | nil =>
    cases ds with
    | nil => rfl
    | cons d ds =>
      rw [List.flatMap_nil, List.flatMap_cons] at h
      exact absurd (List.append_eq_nil_iff.mp h.symm).1 (utf16_ne_nil d)
  | cons c cs ih =>
    cases ds with
    | nil =>
      rw [List.flatMap_nil, List.flatMap_cons] at h
      exact absurd (List.append_eq_nil_iff.mp h).1 (utf16_ne_nil c)
    | cons d ds =>
      rw [List.flatMap_cons, List.flatMap_cons] at h
      obtain ⟨rfl, hrest⟩ := utf16_append_inj h
      rw [ih hrest]

theorem keyLe_antisymm {k l : String} (h : keyLe k l = true) (h' : keyLe l k = true) :
    k = l :=
  String.toList_inj.mp (flatMap_utf16_inj (unitsLe_antisymm _ _ h h'))

instance keyLe_isTotal {α : Type} :
    Std.Total (fun a b : String × α => keyLe a.1 b.1 = true) :=
  ⟨fun _ _ => unitsLe_total _ _⟩

instance keyLe_isTrans {α : Type} :
    IsTrans (String × α) (fun a b => keyLe a.1 b.1 = true) :=
  ⟨fun _ _ _ => unitsLe_trans _ _ _⟩

section Entries

variable {α : Type}

/-- No key occurs twice, as in every JavaScript object. -/
def DistinctKeys (es : List (String × α)) : Prop := (es.map (·.1)).Nodup

theorem sortEntries_perm (es : List (String × α)) : (sortEntries es).Perm es :=
  List.perm_insertionSort _ es

theorem sortEntries_pairwise (es : List (String × α)) :
    (sortEntries es).Pairwise fun a b => keyLe a.1 b.1 = true :=
  List.pairwise_insertionSort _ es

theorem DistinctKeys.nodup {es : List (String × α)} (h : DistinctKeys es) : es.Nodup :=
  List.Nodup.of_map _ h

theorem sortEntries_eq_iff {es ds : List (String × α)} (hes : DistinctKeys es) :
    sortEntries es = sortEntries ds ↔ es.Perm ds := by
  constructor
  · intro h
    exact (sortEntries_perm es).symm.trans (h ▸ sortEntries_perm ds)
  · intro hp
    have hsorted := (sortEntries_perm es).trans (hp.trans (sortEntries_perm ds).symm)
    refine List.Perm.eq_of_pairwise ?_ (sortEntries_pairwise es) (sortEntries_pairwise ds)
      hsorted
    intro a b ha hb hab hba
    have hb' : b ∈ es := hp.mem_iff.mpr (mem_sortEntries.mp hb)
    exact List.inj_on_of_nodup_map hes (mem_sortEntries.mp ha) hb' (keyLe_antisymm hab hba)

theorem sortEntries_eq_iff_mem {es ds : List (String × α)} (hes : DistinctKeys es)
    (hds : DistinctKeys ds) :
    sortEntries es = sortEntries ds ↔ ∀ e, e ∈ es ↔ e ∈ ds := by
  rw [sortEntries_eq_iff hes, List.perm_ext_iff_of_nodup hes.nodup hds.nodup]

end Entries

theorem DistinctKeys.canonEntries {es : Fields} (h : DistinctKeys es) :
    DistinctKeys (canonEntries es) := by
  unfold DistinctKeys
  rw [canonEntries_eq, List.map_map]
  exact h

/-- Objects have one canonical form when they have the same entries up to
the canonical form of the values. -/
theorem canon_obj_eq_iff {es ds : Fields} (hes : DistinctKeys es) (hds : DistinctKeys ds) :
    canon (.obj es) = canon (.obj ds) ↔
      ∀ e, e ∈ canonEntries es ↔ e ∈ canonEntries ds := by
  rw [canon, canon, Json.obj.injEq,
    sortEntries_eq_iff_mem hes.canonEntries hds.canonEntries]

end Cadena.Base
