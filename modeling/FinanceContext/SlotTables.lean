import FinanceContext.Dictionaries
import FinanceContext.FirstOccurrences
import Mathlib.Data.List.Sort

namespace FinanceContext.SlotTables

open Dictionaries FirstOccurrences

section Intern

variable {K : Type} [DecidableEq K]

def intern (keys : List K) (k : K) : List K × ℕ :=
  if k ∈ keys then (keys, keys.idxOf k) else (keys ++ [k], keys.length)

theorem mem_intern {keys : List K} {k a : K} : a ∈ (intern keys k).1 ↔ a ∈ keys ∨ a = k := by
  unfold intern
  split_ifs with hk
  · constructor
    · exact .inl
    · rintro (ha | rfl)
      · exact ha
      · exact hk
  · rw [List.mem_append, List.mem_singleton]

theorem nodup_intern {keys : List K} (h : keys.Nodup) (k : K) : (intern keys k).1.Nodup := by
  unfold intern
  split_ifs with hk
  · exact h
  · apply List.nodup_append.mpr
    refine ⟨h, List.nodup_singleton k, fun a ha b hb => ?_⟩
    rw [List.mem_singleton.mp hb]
    exact fun hab => hk (hab ▸ ha)

theorem intern_slot (keys : List K) (k : K) :
    (intern keys k).2 = (intern keys k).1.idxOf k := by
  unfold intern
  split_ifs with hk
  · rfl
  · simp [List.idxOf_append_of_notMem hk]

theorem idxOf_intern {keys : List K} {a : K} (ha : a ∈ keys) (k : K) :
    (intern keys k).1.idxOf a = keys.idxOf a := by
  unfold intern
  split_ifs
  · rfl
  · exact List.idxOf_append_of_mem ha

end Intern

section Ranks

theorem getElem?_foldl_set {V : Type} {writes : List (ℕ × V)}
    (hwrites : (writes.map Prod.fst).Nodup) {first : List V} {i : ℕ} {v : V}
    (hmem : (i, v) ∈ writes) (hi : i < first.length) :
    (writes.foldl (fun found w => found.set w.1 w.2) first)[i]? = some v := by
  have hlength (ws : List (ℕ × V)) (init : List V) :
      (ws.foldl (fun found w => found.set w.1 w.2) init).length = init.length := by
    induction ws generalizing init with
    | nil => rfl
    | cons w ws ih => rw [List.foldl_cons, ih, List.length_set]
  induction writes using List.reverseRecOn with
  | nil => cases hmem
  | append_singleton writes w ih =>
    rw [List.map_append, List.nodup_append] at hwrites
    obtain ⟨hnodup, -, hne⟩ := hwrites
    rw [List.foldl_append, List.foldl_cons, List.foldl_nil, List.getElem?_set]
    rcases List.mem_append.mp hmem with hmem | hlast
    · have hother : w.1 ≠ i := fun h =>
        hne i (List.mem_map.mpr ⟨_, hmem, rfl⟩) w.1 (by simp) h.symm
      rw [if_neg hother]
      exact ih hnodup hmem
    · obtain rfl := List.mem_singleton.mp hlast
      simp [hlength, hi]

variable {K : Type} [DecidableEq K]

def ranks (keys sorted : List K) : List ℕ :=
  sorted.zipIdx.foldl (fun found entry => found.set (keys.idxOf entry.1) entry.2)
    (List.replicate sorted.length 0)

theorem ranks_idxOf {keys sorted : List K} (hperm : sorted.Perm keys) (hkeys : keys.Nodup) {k : K}
    (hk : k ∈ keys) : (ranks keys sorted).getD (keys.idxOf k) 0 = sorted.idxOf k := by
  have hsorted : sorted.Nodup := hperm.nodup_iff.mpr hkeys
  have hmem : k ∈ sorted := hperm.mem_iff.mpr hk
  let writes := sorted.zipIdx.map fun entry => (keys.idxOf entry.1, entry.2)
  have hfold : ranks keys sorted = writes.foldl (fun found w => found.set w.1 w.2)
      (List.replicate sorted.length 0) := by
    rw [List.foldl_map]
    rfl
  have hslots : writes.map Prod.fst = sorted.map keys.idxOf := by
    have hfst : sorted.zipIdx.map Prod.fst = sorted := by simp
    conv_rhs => rw [← hfst, List.map_map]
    exact List.map_map
  have hdistinct : (writes.map Prod.fst).Nodup := by
    rw [hslots]
    apply List.Nodup.map_on ?_ hsorted
    intro a ha b hb hab
    exact (List.idxOf_inj (hperm.mem_iff.mp ha)).mp hab
  have hwrite : (keys.idxOf k, sorted.idxOf k) ∈ writes := by
    refine List.mem_map.mpr ⟨(k, sorted.idxOf k), ?_, rfl⟩
    rw [List.mem_zipIdx_iff_getElem?]
    exact List.getElem?_idxOf hmem
  have hlt : keys.idxOf k < (List.replicate sorted.length 0).length := by
    rw [List.length_replicate, hperm.length_eq]
    exact List.idxOf_lt_length_iff.mpr hk
  rw [hfold, List.getD_eq_getElem?_getD, getElem?_foldl_set hdistinct hwrite hlt]
  rfl

theorem map_idxOf_self {l : List K} (h : l.Nodup) : l.map l.idxOf = List.range l.length := by
  apply List.ext_getElem
  · simp
  · intro i hi _
    rw [List.length_map] at hi
    simp [List.Nodup.idxOf_getElem h i hi]

end Ranks

section Groups

variable {K V : Type} [DecidableEq K]

theorem firsts_filter (p : K → Bool) (l : List K) {seen seen' : List K}
    (hseen : ∀ a, p a = true → (a ∈ seen ↔ a ∈ seen')) :
    firsts id seen (l.filter p) = (firsts id seen' l).filter p := by
  induction l generalizing seen seen' with
  | nil => rfl
  | cons b l ih =>
    by_cases hb : p b = true
    · rw [List.filter_cons_of_pos hb]
      by_cases hmem : b ∈ seen
      · have hmem' : b ∈ seen' := (hseen b hb).mp hmem
        simp only [firsts, id, hmem, hmem', if_true]
        exact ih hseen
      · have hmem' : b ∉ seen' := fun h => hmem ((hseen b hb).mpr h)
        simp only [firsts, id, hmem, hmem', if_false, List.filter_cons_of_pos hb]
        congr 1
        apply ih
        intro a ha
        rw [List.mem_cons, List.mem_cons, hseen a ha]
    · rw [List.filter_cons_of_neg hb]
      simp only [firsts, id]
      split_ifs
      · exact ih hseen
      · rw [List.filter_cons_of_neg hb]
        apply ih
        intro a ha
        have hne : a ≠ b := fun h => hb (h ▸ ha)
        rw [hseen a ha, List.mem_cons, or_iff_right hne]

theorem firsts_concat (seen l : List K) (a : K) :
    firsts id seen (l ++ [a]) =
      if a ∈ seen ∨ a ∈ l then firsts id seen l else firsts id seen l ++ [a] := by
  induction l generalizing seen with
  | nil => by_cases h : a ∈ seen <;> simp [firsts, h]
  | cons b l ih =>
    simp only [List.cons_append, firsts, id, List.mem_cons]
    by_cases hb : b ∈ seen
    · rw [if_pos hb, if_pos hb, ih]
      have hiff : (a ∈ seen ∨ a ∈ l) ↔ (a ∈ seen ∨ a = b ∨ a ∈ l) := by
        constructor
        · rintro (h | h)
          · exact .inl h
          · exact .inr (.inr h)
        · rintro (h | rfl | h)
          · exact .inl h
          · exact .inl hb
          · exact .inr h
      simp only [hiff]
    · rw [if_neg hb, if_neg hb, ih]
      have hiff : (a ∈ b :: seen ∨ a ∈ l) ↔ (a ∈ seen ∨ a = b ∨ a ∈ l) := by
        rw [List.mem_cons]
        tauto
      simp only [hiff]
      split_ifs <;> rfl

theorem keys_grouped (ps : List (K × V)) :
    (grouped ps).map Prod.fst = firsts id [] (ps.map Prod.fst) := by
  induction ps using List.reverseRecOn with
  | nil => rfl
  | append_singleton ps p ih =>
    rw [grouped_concat, push, keys_set, ih, List.map_append, List.map_singleton, firsts_concat]
    have hiff : p.1 ∈ firsts id [] (ps.map Prod.fst) ↔ (p.1 ∈ ([] : List K) ∨
        p.1 ∈ ps.map Prod.fst) := by
      rw [mem_firsts_id]
      simp
    simp only [hiff]

theorem grouped_eq (ps : List (K × V)) :
    grouped ps = (firsts id [] (ps.map Prod.fst)).map fun k =>
      (k, (ps.filter (·.1 = k)).map Prod.snd) := by
  have hself : ∀ group ∈ grouped ps,
      (group.1, (ps.filter (·.1 = group.1)).map Prod.snd) = group := by
    rintro ⟨k, vs⟩ hmem
    obtain ⟨-, rfl⟩ := mem_grouped.mp hmem
    rfl
  rw [← keys_grouped, List.map_map]
  exact ((List.map_congr_left hself).trans (List.map_id _)).symm

end Groups

end FinanceContext.SlotTables
