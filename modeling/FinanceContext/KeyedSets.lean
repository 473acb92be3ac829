import FinanceContext.Dictionaries

/-!
Dictionaries whose values are sets in the order of first insertion:
`setdefault(k, {}).setdefault(v, None)`.
-/

namespace FinanceContext.Dictionaries

variable {K V : Type} [DecidableEq K] [DecidableEq V]

def insertOnce (k : K) (v : V) (d : List (K × List V)) : List (K × List V) :=
  let old := (get k d).getD []
  set k (if v ∈ old then old else old ++ [v]) d

def collected (ps : List (K × V)) : List (K × List V) :=
  ps.foldl (fun d p => insertOnce p.1 p.2 d) []

theorem collected_concat (ps : List (K × V)) (p : K × V) :
    collected (ps ++ [p]) = insertOnce p.1 p.2 (collected ps) := by
  simp [collected, List.foldl_append]

theorem mem_get_collected (k : K) (v : V) (ps : List (K × V)) :
    v ∈ (get k (collected ps)).getD [] ↔ (k, v) ∈ ps := by
  induction ps using List.reverseRecOn with
  | nil => simp [collected]
  | append_singleton ps p ih =>
    rw [collected_concat, insertOnce, get_set, List.mem_append, List.mem_singleton]
    by_cases hk : p.1 = k
    · subst hk
      rw [if_pos rfl, Option.getD_some]
      have hpair : (p.1, v) = p ↔ v = p.2 := by rw [Prod.ext_iff]; simp
      rw [hpair, ← ih]
      split_ifs with hold
      · constructor
        · exact .inl
        · rintro (h | rfl)
          · exact h
          · exact hold
      · simp
    · have hne : (k, v) ≠ p := fun h => hk (congrArg Prod.fst h).symm
      rw [if_neg hk, ih]
      simp [hne]

theorem nodup_get_collected (k : K) (ps : List (K × V)) :
    ((get k (collected ps)).getD []).Nodup := by
  induction ps using List.reverseRecOn with
  | nil => exact List.nodup_nil
  | append_singleton ps p ih =>
    rw [collected_concat, insertOnce, get_set]
    by_cases hk : p.1 = k
    · subst hk
      rw [if_pos rfl, Option.getD_some]
      split_ifs with hold
      · exact ih
      · exact List.nodup_append.mpr ⟨ih, List.nodup_singleton _, by
          rintro a ha b hb rfl
          exact hold (List.mem_singleton.mp hb ▸ ha)⟩
    · rwa [if_neg hk]

theorem get_collected_filter (k : K) (ps : List (K × V)) :
    get k (collected (ps.filter (·.1 = k))) = get k (collected ps) := by
  induction ps using List.reverseRecOn with
  | nil => rfl
  | append_singleton ps p ih =>
    rw [List.filter_append, collected_concat, insertOnce, get_set]
    by_cases hk : p.1 = k
    · subst hk
      have hlast : [p].filter (fun q => decide (q.1 = p.1)) = [p] := by simp
      rw [hlast, collected_concat, insertOnce, get_set, ih]
    · have hlast : [p].filter (fun q => decide (q.1 = k)) = [] := by simp [hk]
      rw [hlast, List.append_nil, ih, if_neg hk]

theorem get_collected_restrict (q : K → Bool) (k : K) (ps : List (K × V)) :
    get k (collected (ps.filter fun p => q p.1)) =
      if q k then get k (collected ps) else none := by
  rw [← get_collected_filter k, List.filter_filter, ← get_collected_filter k ps]
  have hpairs : ps.filter (fun p => decide (p.1 = k) && q p.1) =
      if q k then ps.filter (·.1 = k) else [] := by
    cases hq : q k with
    | true =>
      apply List.filter_congr
      intro p _
      by_cases hp : p.1 = k
      · simp [hp, hq]
      · simp [hp]
    | false =>
      apply List.filter_eq_nil_iff.mpr
      intro p _ h
      obtain ⟨hp, hwanted⟩ := Bool.and_eq_true_iff.mp h
      rw [of_decide_eq_true hp, hq] at hwanted
      cases hwanted
  rw [hpairs]
  split_ifs <;> rfl

theorem nodup_keys_collected (ps : List (K × V)) : ((collected ps).map Prod.fst).Nodup := by
  induction ps using List.reverseRecOn with
  | nil => exact List.nodup_nil
  | append_singleton ps p ih =>
    rw [collected_concat]
    exact nodup_keys_set ih

theorem get_reverse {W : Type} {k : K} {d : List (K × W)} (h : (d.map Prod.fst).Nodup) :
    get k d.reverse = get k d := by
  have hrev : (d.reverse.map Prod.fst).Nodup := by
    rw [List.map_reverse]
    exact List.nodup_reverse.mpr h
  cases hget : get k d with
  | some w => exact get_of_mem hrev (List.mem_reverse.mpr (mem_of_get hget))
  | none =>
    cases hget' : get k d.reverse with
    | none => rfl
    | some w =>
      have hmem := List.mem_reverse.mp (mem_of_get hget')
      rw [get_of_mem h hmem] at hget
      cases hget

end FinanceContext.Dictionaries
