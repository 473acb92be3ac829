import FinanceContext.Dictionaries

/-!
Values grouped under two keys: `setdefault(k, {}).setdefault(j, []).append(v)`.
-/

namespace FinanceContext.NestedGroups

open Dictionaries

variable {K J V W : Type} [DecidableEq K] [DecidableEq J]

abbrev Nested (K J V : Type) := List (K × List (J × V))

def groupsAt (k : K) (d : Nested K J V) : List (J × V) := (get k d).getD []

def itemsAt (k : K) (j : J) (d : Nested K J (List V)) : List V := (get j (groupsAt k d)).getD []

def extendAt (k : K) (j : J) (vs : List V) (d : Nested K J (List V)) : Nested K J (List V) :=
  set k (set j (itemsAt k j d ++ vs) (groupsAt k d)) d

def pushAt (k : K) (j : J) (v : V) (d : Nested K J (List V)) : Nested K J (List V) :=
  extendAt k j [v] d

def mapItems (f : V → W) (d : Nested K J V) : Nested K J W :=
  d.map fun group => (group.1, group.2.map fun item => (item.1, f item.2))

/-- No key stands twice, at either level. -/
def WellKeyed (d : Nested K J V) : Prop :=
  (d.map Prod.fst).Nodup ∧ ∀ group ∈ d, (group.2.map Prod.fst).Nodup

omit [DecidableEq J] in
theorem groupsAt_set (k k' : K) (groups : List (J × V)) (d : Nested K J V) :
    groupsAt k' (set k groups d) = if k = k' then groups else groupsAt k' d := by
  unfold groupsAt
  rw [get_set]
  split_ifs <;> rfl

theorem itemsAt_extendAt (k k' : K) (j j' : J) (vs : List V) (d : Nested K J (List V)) :
    itemsAt k' j' (extendAt k j vs d) =
      if k = k' ∧ j = j' then itemsAt k' j' d ++ vs else itemsAt k' j' d := by
  unfold itemsAt extendAt
  rw [groupsAt_set]
  by_cases hk : k = k'
  · subst hk
    rw [if_pos rfl, get_set]
    by_cases hj : j = j'
    · subst hj
      simp [itemsAt]
    · simp [hj]
  · simp [hk]

theorem itemsAt_pushAt (k k' : K) (j j' : J) (v : V) (d : Nested K J (List V)) :
    itemsAt k' j' (pushAt k j v d) =
      if k = k' ∧ j = j' then itemsAt k' j' d ++ [v] else itemsAt k' j' d :=
  itemsAt_extendAt k k' j j' [v] d

omit [DecidableEq K] [DecidableEq J] in
theorem wellKeyed_nil : WellKeyed ([] : Nested K J V) := ⟨.nil, List.forall_mem_nil _⟩

omit [DecidableEq J] in
theorem WellKeyed.groupsAt {d : Nested K J V} (h : WellKeyed d) (k : K) :
    ((groupsAt k d).map Prod.fst).Nodup := by
  unfold NestedGroups.groupsAt
  cases hget : get k d with
  | none => exact List.nodup_nil
  | some groups => exact h.2 _ (mem_of_get hget)

theorem WellKeyed.extendAt {d : Nested K J (List V)} (h : WellKeyed d) (k : K) (j : J)
    (vs : List V) : WellKeyed (extendAt k j vs d) := by
  refine ⟨nodup_keys_set h.1, fun group hgroup => ?_⟩
  rcases mem_of_mem_set hgroup with rfl | hmem
  · exact nodup_keys_set (h.groupsAt k)
  · exact h.2 group hmem

theorem WellKeyed.pushAt {d : Nested K J (List V)} (h : WellKeyed d) (k : K) (j : J) (v : V) :
    WellKeyed (pushAt k j v d) := h.extendAt k j [v]

omit [DecidableEq K] [DecidableEq J] in
theorem WellKeyed.mapItems {d : Nested K J V} (h : WellKeyed d) (f : V → W) :
    WellKeyed (mapItems f d) := by
  constructor
  · simpa [NestedGroups.mapItems, Function.comp_def] using h.1
  · intro group hgroup
    obtain ⟨group', hgroup', rfl⟩ := List.mem_map.mp hgroup
    simpa [Function.comp_def] using h.2 group' hgroup'

omit [DecidableEq J] in
theorem groupsAt_mapItems (f : V → W) (k : K) (d : Nested K J V) :
    groupsAt k (mapItems f d) = (groupsAt k d).map fun item => (item.1, f item.2) := by
  unfold groupsAt mapItems
  rw [get_mapValues (List.map fun item : J × V => (item.1, f item.2)) k d]
  cases get k d <;> rfl

theorem get_groupsAt_mapItems (f : V → W) (k : K) (j : J) (d : Nested K J V) :
    get j (groupsAt k (mapItems f d)) = (get j (groupsAt k d)).map f := by
  rw [groupsAt_mapItems, get_mapValues]

theorem itemsAt_mapItems (f : List V → List W) (hf : f [] = []) (k : K) (j : J)
    (d : Nested K J (List V)) : itemsAt k j (mapItems f d) = f (itemsAt k j d) := by
  unfold itemsAt
  rw [get_groupsAt_mapItems]
  cases get j (groupsAt k d) with
  | none => exact hf.symm
  | some items => rfl

def extendAll (d : Nested K J (List V)) (parts : List (K × J × List V)) : Nested K J (List V) :=
  parts.foldl (fun d part => extendAt part.1 part.2.1 part.2.2 d) d

def flat (d : Nested K J V) : List (K × J × V) :=
  d.flatMap fun group => group.2.map fun item => (group.1, item.1, item.2)

/-- No empty group and no empty list. -/
def Filled (d : Nested K J (List V)) : Prop :=
  ∀ group ∈ d, group.2 ≠ [] ∧ ∀ item ∈ group.2, item.2 ≠ []

theorem mem_itemsAt_extendAll {k : K} {j : J} {v : V} (parts : List (K × J × List V))
    (d : Nested K J (List V)) :
    v ∈ itemsAt k j (extendAll d parts) ↔
      v ∈ itemsAt k j d ∨ ∃ part ∈ parts, part.1 = k ∧ part.2.1 = j ∧ v ∈ part.2.2 := by
  unfold extendAll
  induction parts generalizing d with
  | nil => simp
  | cons part parts ih =>
    rw [List.foldl_cons, ih, itemsAt_extendAt]
    by_cases hkey : part.1 = k ∧ part.2.1 = j
    · rw [if_pos hkey, List.mem_append, List.exists_mem_cons_iff, or_assoc]
      simp only [hkey.1, hkey.2, true_and]
    · have hskip : ¬(part.1 = k ∧ part.2.1 = j ∧ v ∈ part.2.2) := fun h => hkey ⟨h.1, h.2.1⟩
      rw [if_neg hkey, List.exists_mem_cons_iff, or_iff_right hskip]

theorem WellKeyed.extendAll {d : Nested K J (List V)} (h : WellKeyed d)
    (parts : List (K × J × List V)) : WellKeyed (extendAll d parts) := by
  unfold NestedGroups.extendAll
  induction parts generalizing d with
  | nil => exact h
  | cons part parts ih => exact ih (h.extendAt _ _ _)

theorem WellKeyed.mem_flat {d : Nested K J V} (h : WellKeyed d) {k : K} {j : J} {v : V} :
    (k, j, v) ∈ flat d ↔ get j (NestedGroups.groupsAt k d) = some v := by
  simp only [flat, List.mem_flatMap, List.mem_map, Prod.mk.injEq]
  constructor
  · rintro ⟨group, hgroup, item, hitem, rfl, rfl, rfl⟩
    have hget : get group.1 d = some group.2 := get_of_mem h.1 hgroup
    rw [NestedGroups.groupsAt, hget]
    exact get_of_mem (h.2 group hgroup) hitem
  · intro hget
    unfold NestedGroups.groupsAt at hget
    cases hgroup : get k d with
    | none =>
      rw [hgroup] at hget
      cases hget
    | some groups =>
      rw [hgroup] at hget
      exact ⟨(k, groups), mem_of_get hgroup, (j, v), mem_of_get hget, rfl, rfl, rfl⟩

omit [DecidableEq K] [DecidableEq J] in
theorem WellKeyed.nodup_flat {d : Nested K J V} (h : WellKeyed d) :
    ((flat d).map fun part => (part.1, part.2.1)).Nodup := by
  obtain ⟨hkeys, hgroups⟩ := h
  induction d with
  | nil => exact List.nodup_nil
  | cons group d ih =>
    obtain ⟨hnew, hkeys⟩ := List.nodup_cons.mp hkeys
    obtain ⟨hgroup, hgroups⟩ := List.forall_mem_cons.mp hgroups
    have hsplit : flat (group :: d) =
        (group.2.map fun item => (group.1, item.1, item.2)) ++ flat d := by simp [flat]
    rw [hsplit, List.map_append, List.map_map]
    refine List.nodup_append.mpr ⟨?_, ih hkeys hgroups, ?_⟩
    · have hpair : ((fun part : K × J × V => (part.1, part.2.1)) ∘
          fun item : J × V => (group.1, item.1, item.2)) = Prod.mk group.1 ∘ Prod.fst := rfl
      rw [hpair, ← List.map_map]
      exact hgroup.map fun a b hab => (Prod.mk.inj hab).2
    · intro a ha b hb hab
      obtain ⟨item, -, rfl⟩ := List.mem_map.mp ha
      obtain ⟨part, hpart, rfl⟩ := List.mem_map.mp hb
      obtain ⟨group', hgroup', hitem⟩ := List.mem_flatMap.mp hpart
      obtain ⟨item', -, rfl⟩ := List.mem_map.mp hitem
      have hkey : group.1 = group'.1 := (Prod.mk.inj hab).1
      exact hnew (hkey ▸ List.mem_map_of_mem hgroup')

omit [DecidableEq J] in
theorem Filled.groupsAt {d : Nested K J (List V)} (h : Filled d) (k : K) :
    ∀ item ∈ groupsAt k d, item.2 ≠ [] := by
  unfold NestedGroups.groupsAt
  cases hget : get k d with
  | none => exact List.forall_mem_nil _
  | some groups => exact (h _ (mem_of_get hget)).2

theorem set_ne_nil (j : J) (v : V) (groups : List (J × V)) : set j v groups ≠ [] := by
  cases groups with
  | nil => exact List.cons_ne_nil _ _
  | cons first groups =>
    unfold Dictionaries.set
    split_ifs <;> exact List.cons_ne_nil _ _

theorem Filled.extendAt {d : Nested K J (List V)} (h : Filled d) (k : K) (j : J) {vs : List V}
    (hvs : vs ≠ []) : Filled (extendAt k j vs d) := by
  intro group hgroup
  rcases mem_of_mem_set hgroup with rfl | hmem
  · refine ⟨set_ne_nil _ _ _, fun item hitem => ?_⟩
    rcases mem_of_mem_set hitem with rfl | hold
    · exact List.append_ne_nil_of_right_ne_nil _ hvs
    · exact h.groupsAt k item hold
  · exact h group hmem

theorem Filled.extendAll {d : Nested K J (List V)} (h : Filled d) {parts : List (K × J × List V)}
    (hparts : ∀ part ∈ parts, part.2.2 ≠ []) : Filled (extendAll d parts) := by
  unfold NestedGroups.extendAll
  induction parts generalizing d with
  | nil => exact h
  | cons part parts ih =>
    obtain ⟨hpart, hparts⟩ := List.forall_mem_cons.mp hparts
    exact ih (h.extendAt _ _ hpart) hparts

omit [DecidableEq K] [DecidableEq J] in
theorem Filled.mapItems {d : Nested K J (List V)} (h : Filled d) {f : List V → List W}
    (hf : ∀ vs, vs ≠ [] → f vs ≠ []) : Filled (mapItems f d) := by
  intro group hgroup
  obtain ⟨group', hgroup', rfl⟩ := List.mem_map.mp hgroup
  refine ⟨fun hnil => (h group' hgroup').1 (List.map_eq_nil_iff.mp hnil), fun item hitem => ?_⟩
  obtain ⟨item', hitem', rfl⟩ := List.mem_map.mp hitem
  exact hf _ ((h group' hgroup').2 item' hitem')

end FinanceContext.NestedGroups
