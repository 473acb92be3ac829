import Mathlib.Data.List.Induction
import Mathlib.Data.List.Nodup

/-!
Dictionaries that keep the order of first insertion, and what is left in one after a
list of assignments.
-/

namespace FinanceContext.Dictionaries

variable {K V : Type} [DecidableEq K]

def get (k : K) (d : List (K × V)) : Option V := (d.find? (·.1 = k)).map Prod.snd

def set (k : K) (v : V) : List (K × V) → List (K × V)
  | [] => [(k, v)]
  | p :: d => if p.1 = k then (k, v) :: d else p :: set k v d

def filled (ps : List (K × V)) : List (K × V) := ps.foldl (fun d p => set p.1 p.2 d) []

@[simp] theorem get_nil (k : K) : get k ([] : List (K × V)) = none := rfl

theorem get_cons (k : K) (p : K × V) (d : List (K × V)) :
    get k (p :: d) = if p.1 = k then some p.2 else get k d := by
  unfold get
  by_cases h : p.1 = k <;> simp [h]

theorem get_set (k k' : K) (v : V) (d : List (K × V)) :
    get k' (set k v d) = if k = k' then some v else get k' d := by
  induction d with
  | nil => simp [set, get_cons]
  | cons p d ih =>
    simp only [set]
    by_cases hp : p.1 = k
    · rw [if_pos hp, get_cons, get_cons, hp]
      by_cases hk : k = k' <;> simp [hk]
    · rw [if_neg hp, get_cons, get_cons, ih]
      by_cases hk : p.1 = k'
      · have hne : k ≠ k' := fun h => hp (hk.trans h.symm)
        simp [hk, hne]
      · simp [hk]

theorem set_eq_self {k : K} {v : V} {d : List (K × V)} (h : get k d = some v) :
    set k v d = d := by
  induction d with
  | nil => cases h
  | cons p d ih =>
    rw [get_cons] at h
    simp only [set]
    split_ifs at h ⊢ with hp
    · rw [← Option.some.inj h, ← hp]
    · rw [ih h]

theorem filled_concat (ps : List (K × V)) (p : K × V) :
    filled (ps ++ [p]) = set p.1 p.2 (filled ps) := by
  simp [filled, List.foldl_append]

theorem get_filled (k : K) (ps : List (K × V)) :
    get k (filled ps) = ((ps.filter (·.1 = k)).getLast?).map Prod.snd := by
  induction ps using List.reverseRecOn with
  | nil => rfl
  | append_singleton ps p ih =>
    rw [filled_concat, get_set, List.filter_append]
    by_cases hk : p.1 = k
    · simp [hk]
    · simp [hk, ih]

theorem getLast?_filter_of_unique {α : Type} {p : α → Bool} {l : List α} {a : α} (ha : a ∈ l)
    (hp : p a = true) (hunique : ∀ b ∈ l, p b = true → b = a) :
    (l.filter p).getLast? = some a := by
  have hne := List.ne_nil_of_mem (List.mem_filter.mpr ⟨ha, hp⟩)
  obtain ⟨hmem, hlast⟩ := List.mem_filter.mp (List.getLast_mem hne)
  rw [List.getLast?_eq_some_getLast hne, hunique _ hmem hlast]

theorem mem_of_get {k : K} {v : V} {d : List (K × V)} (h : get k d = some v) : (k, v) ∈ d := by
  induction d with
  | nil => cases h
  | cons p d ih =>
    rw [get_cons] at h
    split_ifs at h with hp
    · rw [← Option.some.inj h, ← hp]
      exact List.mem_cons_self
    · exact List.mem_cons_of_mem _ (ih h)

theorem get_append (k : K) (d d' : List (K × V)) :
    get k (d ++ d') = (get k d).or (get k d') := by
  unfold get
  rw [List.find?_append, Option.map_or]

theorem keys_set (k : K) (v : V) (d : List (K × V)) :
    (set k v d).map Prod.fst = if k ∈ d.map Prod.fst then d.map Prod.fst
      else d.map Prod.fst ++ [k] := by
  induction d with
  | nil => rfl
  | cons p d ih =>
    simp only [set]
    by_cases hp : p.1 = k
    · simp [hp]
    · have hk : k ≠ p.1 := fun h => hp h.symm
      simp only [hp, if_false, List.map_cons, ih, List.mem_cons, hk, false_or]
      split_ifs <;> rfl

theorem nodup_keys_set {k : K} {v : V} {d : List (K × V)} (h : (d.map Prod.fst).Nodup) :
    ((set k v d).map Prod.fst).Nodup := by
  rw [keys_set]
  split_ifs with hk
  · exact h
  · exact List.nodup_append.mpr ⟨h, List.nodup_singleton k, by
      intro a ha b hb
      rw [List.mem_singleton.mp hb]
      exact fun hab => hk (hab ▸ ha)⟩

theorem set_of_notMem {k : K} (v : V) {d : List (K × V)} (h : k ∉ d.map Prod.fst) :
    set k v d = d ++ [(k, v)] := by
  induction d with
  | nil => rfl
  | cons p d ih =>
    obtain ⟨hp, hd⟩ := not_or.mp (mt List.mem_cons.mpr h)
    rw [set, if_neg (Ne.symm hp), ih hd, List.cons_append]

theorem filled_eq_self {ps : List (K × V)} (h : (ps.map Prod.fst).Nodup) : filled ps = ps := by
  induction ps using List.reverseRecOn with
  | nil => rfl
  | append_singleton ps p ih =>
    rw [List.map_append, List.nodup_append] at h
    obtain ⟨hps, -, hne⟩ := h
    have hp : p.1 ∉ ps.map Prod.fst := fun hmem => hne _ hmem p.1 (by simp) rfl
    rw [filled_concat, ih hps, set_of_notMem p.2 hp]

theorem nodup_keys_filled (ps : List (K × V)) : ((filled ps).map Prod.fst).Nodup := by
  induction ps using List.reverseRecOn with
  | nil => exact List.nodup_nil
  | append_singleton ps p ih =>
    rw [filled_concat]
    exact nodup_keys_set ih

theorem mem_of_mem_set {k : K} {v : V} {d : List (K × V)} {p : K × V} (h : p ∈ set k v d) :
    p = (k, v) ∨ p ∈ d := by
  induction d with
  | nil => exact .inl (List.mem_singleton.mp h)
  | cons first d ih =>
    unfold set at h
    split_ifs at h
    · rcases List.mem_cons.mp h with rfl | hmem
      · exact .inl rfl
      · exact .inr (List.mem_cons_of_mem first hmem)
    · rcases List.mem_cons.mp h with rfl | hmem
      · exact .inr List.mem_cons_self
      · exact (ih hmem).imp_right (List.mem_cons_of_mem first)

theorem get_of_mem {k : K} {v : V} {d : List (K × V)} (hd : (d.map Prod.fst).Nodup)
    (h : (k, v) ∈ d) : get k d = some v := by
  induction d with
  | nil => cases h
  | cons p d ih =>
    obtain ⟨hp, hd⟩ := List.nodup_cons.mp hd
    rw [get_cons]
    rcases List.mem_cons.mp h with rfl | h
    · simp
    · have hne : p.1 ≠ k := fun hk => hp (hk ▸ List.mem_map_of_mem (f := Prod.fst) h)
      rw [if_neg hne]
      exact ih hd h

theorem mem_of_mem_filled {p : K × V} {ps : List (K × V)} (h : p ∈ filled ps) : p ∈ ps := by
  have hget : get p.1 (filled ps) = some p.2 := get_of_mem (nodup_keys_filled ps) h
  rw [get_filled] at hget
  obtain ⟨q, hq, hv⟩ := Option.map_eq_some_iff.mp hget
  obtain ⟨hmem, hkey⟩ := List.mem_filter.mp (List.mem_of_getLast? hq)
  obtain rfl : q = p := Prod.ext (of_decide_eq_true hkey) hv
  exact hmem

theorem get_filled_of_forall {k : K} {ps : List (K × V)} {w : Option V}
    (h : ∀ v, (k, v) ∈ ps ↔ w = some v) : get k (filled ps) = w := by
  rw [get_filled]
  cases w with
  | none =>
    have hnil : ps.filter (·.1 = k) = [] := by
      refine List.filter_eq_nil_iff.mpr fun p hp hk => ?_
      have hmem : (k, p.2) ∈ ps := by
        rw [← of_decide_eq_true hk]
        exact hp
      exact absurd ((h p.2).mp hmem) (by simp)
    rw [hnil]
    rfl
  | some v =>
    have hlast : (ps.filter (·.1 = k)).getLast? = some (k, v) := by
      refine getLast?_filter_of_unique ((h v).mpr rfl) (decide_eq_true rfl) fun p hp hk => ?_
      obtain ⟨key, v'⟩ := p
      obtain rfl : key = k := of_decide_eq_true hk
      rw [Option.some.inj ((h v').mp hp)]
    rw [hlast]
    rfl

theorem get_filter (q : K → Bool) (k : K) (d : List (K × V)) :
    get k (d.filter fun p => q p.1) = if q k then get k d else none := by
  induction d with
  | nil => simp
  | cons p d ih =>
    rw [List.filter_cons, get_cons]
    by_cases hp : p.1 = k
    · subst hp
      cases hq : q p.1 with
      | true => simp [get_cons]
      | false => simpa [hq] using ih
    · cases hq : q p.1 with
      | true => simpa [get_cons, hp] using ih
      | false => simpa [hp] using ih

/-- One value put at the end of the list of its key: `setdefault(k, []).append(v)`. -/
def push (k : K) (v : V) (d : List (K × List V)) : List (K × List V) :=
  set k ((get k d).getD [] ++ [v]) d

def grouped (ps : List (K × V)) : List (K × List V) := ps.foldl (fun d p => push p.1 p.2 d) []

theorem getD_get_foldl_push (ps : List (K × V)) (d : List (K × List V)) (k : K) :
    (get k (ps.foldl (fun d p => push p.1 p.2 d) d)).getD [] =
      (get k d).getD [] ++ (ps.filter (·.1 = k)).map Prod.snd := by
  induction ps generalizing d with
  | nil => simp
  | cons p ps ih =>
    rw [List.foldl_cons, ih, push, get_set, List.filter_cons]
    by_cases hk : p.1 = k
    · subst hk
      simp
    · simp [hk]

theorem grouped_concat (ps : List (K × V)) (p : K × V) :
    grouped (ps ++ [p]) = push p.1 p.2 (grouped ps) := by
  simp [grouped, List.foldl_append]

theorem getD_get_grouped (k : K) (ps : List (K × V)) :
    (get k (grouped ps)).getD [] = (ps.filter (·.1 = k)).map Prod.snd := by
  induction ps using List.reverseRecOn with
  | nil => rfl
  | append_singleton ps p ih =>
    rw [grouped_concat, push, get_set, List.filter_append, List.map_append, ← ih]
    by_cases hk : p.1 = k
    · subst hk
      simp
    · simp [hk]

theorem get_grouped_eq_none_iff (k : K) (ps : List (K × V)) :
    get k (grouped ps) = none ↔ ∀ p ∈ ps, p.1 ≠ k := by
  induction ps using List.reverseRecOn with
  | nil => simp [grouped]
  | append_singleton ps p ih =>
    rw [grouped_concat, push, get_set]
    by_cases hk : p.1 = k
    · rw [if_pos hk]
      constructor
      · intro h
        cases h
      · intro h
        exact absurd hk (h p (by simp))
    · rw [if_neg hk, ih]
      constructor
      · intro h q hq
        rcases List.mem_append.mp hq with hq | hq
        · exact h q hq
        · rwa [List.mem_singleton.mp hq]
      · intro h q hq
        exact h q (List.mem_append_left _ hq)

theorem nodup_keys_grouped (ps : List (K × V)) : ((grouped ps).map Prod.fst).Nodup := by
  induction ps using List.reverseRecOn with
  | nil => exact List.nodup_nil
  | append_singleton ps p ih =>
    rw [grouped_concat]
    exact nodup_keys_set ih

theorem mem_grouped {k : K} {vs : List V} {ps : List (K × V)} :
    (k, vs) ∈ grouped ps ↔ vs ≠ [] ∧ vs = (ps.filter (·.1 = k)).map Prod.snd := by
  have hvalues := getD_get_grouped k ps
  constructor
  · intro h
    have hget := get_of_mem (nodup_keys_grouped ps) h
    rw [hget] at hvalues
    obtain rfl : vs = _ := hvalues
    refine ⟨fun hnil => ?_, rfl⟩
    have hnone := (get_grouped_eq_none_iff k ps).mpr fun p hp hk => by
      have hmem : p ∈ ps.filter (·.1 = k) := List.mem_filter.mpr ⟨hp, decide_eq_true hk⟩
      rw [List.map_eq_nil_iff.mp hnil] at hmem
      cases hmem
    rw [hget] at hnone
    cases hnone
  · rintro ⟨hne, rfl⟩
    cases hget : get k (grouped ps) with
    | none =>
      rw [hget] at hvalues
      exact absurd hvalues.symm hne
    | some vs =>
      rw [hget] at hvalues
      exact hvalues ▸ mem_of_get hget

theorem mem_keys_iff (k : K) (d : List (K × V)) : k ∈ d.map Prod.fst ↔ get k d ≠ none := by
  induction d with
  | nil => simp
  | cons p d ih =>
    rw [List.map_cons, List.mem_cons, get_cons]
    by_cases hp : p.1 = k
    · simp [hp]
    · have hk : k ≠ p.1 := fun h => hp h.symm
      simp only [hk, hp, false_or, if_false]
      exact ih

theorem get_mapValues {W : Type} (f : V → W) (k : K) (d : List (K × V)) :
    get k (d.map fun e => (e.1, f e.2)) = (get k d).map f := by
  induction d with
  | nil => rfl
  | cons p d ih =>
    rw [List.map_cons, get_cons, get_cons, ih]
    split_ifs <;> rfl

theorem set_mapValues {W : Type} (f : V → W) (k : K) (v : V) (d : List (K × V)) :
    set k (f v) (d.map fun e => (e.1, f e.2)) = (set k v d).map fun e => (e.1, f e.2) := by
  induction d with
  | nil => rfl
  | cons p d ih =>
    rw [List.map_cons, set, set, ih]
    split_ifs <;> rfl

theorem grouped_mapValues {W : Type} (f : V → W) (ps : List (K × V)) :
    grouped (ps.map fun p => (p.1, f p.2)) = (grouped ps).map fun e => (e.1, e.2.map f) := by
  induction ps using List.reverseRecOn with
  | nil => rfl
  | append_singleton ps p ih =>
    rw [List.map_append, List.map_singleton, grouped_concat, grouped_concat, ih]
    unfold push
    rw [get_mapValues, ← set_mapValues (List.map f)]
    congr 1
    cases get p.1 (grouped ps) <;> simp

end FinanceContext.Dictionaries
