import Mathlib.Data.List.Chain
import Mathlib.Tactic.Tauto

/-!
Keeping the first item of each key: over a whole list, and with a memory that is emptied when
a new run of items begins.
-/

namespace FinanceContext.FirstOccurrences

variable {α κ ρ : Type}

/-- Between two equal entries there is no other entry. -/
def Contiguous (l : List ρ) : Prop := ∀ a b, List.Sublist [a, b, a] l → b = a

instance [DecidableEq ρ] (l : List ρ) : Decidable (Contiguous l) :=
  decidable_of_iff (∀ a ∈ l, ∀ b ∈ l, List.Sublist [a, b, a] l → b = a) (by
    constructor
    · intro h a b hab
      exact h a (hab.subset (by simp)) b (hab.subset (by simp)) hab
    · intro h a _ b _ hab
      exact h a b hab)

theorem Contiguous.sublist {l m : List ρ} (hm : Contiguous m) (h : l.Sublist m) : Contiguous l :=
  fun a b hab => hm a b (hab.trans h)

theorem Contiguous.notMem {a b : ρ} {l : List ρ} (h : Contiguous (a :: b :: l)) (hab : b ≠ a) :
    a ∉ l := by
  intro hmem
  apply hab
  apply h a b
  exact .cons_cons a (.cons_cons b (List.singleton_sublist.mpr hmem))

theorem sublist_of_sublist_flatMap_replicate (f : α → ρ) (n : α → ℕ) {l : List ρ}
    (hl : l.IsChain (· ≠ ·)) (es : List α)
    (h : l.Sublist (es.flatMap fun e => List.replicate (n e) (f e))) : l.Sublist (es.map f) := by
  induction es generalizing l with
  | nil => simpa using h
  | cons e es ih =>
    rw [List.flatMap_cons] at h
    obtain ⟨l₁, l₂, rfl, h₁, h₂⟩ := List.sublist_append_iff.mp h
    obtain ⟨k, -, rfl⟩ := List.sublist_replicate_iff.mp h₁
    obtain ⟨hk, hl₂, -⟩ := List.isChain_append.mp hl
    have hrest := ih hl₂ h₂
    rw [List.map_cons]
    match k with
    | 0 => exact hrest.cons _
    | 1 => exact hrest.cons_cons _
    | k + 2 => simp [List.replicate_succ] at hk

theorem Contiguous.flatMap {β : Type} (f : α → ρ) (g : β → ρ) (rows : α → List β)
    (hrows : ∀ e, ∀ b ∈ rows e, g b = f e) {es : List α} (h : Contiguous (es.map f)) :
    Contiguous ((es.flatMap rows).map g) := by
  have hmap : (es.flatMap rows).map g =
      es.flatMap fun e => List.replicate (rows e).length (f e) := by
    rw [List.map_flatMap]
    congr
    funext e
    exact List.eq_replicate_iff.mpr ⟨by simp, by simpa using hrows e⟩
  rw [hmap]
  intro a b hab
  by_contra hne
  apply hne
  apply h a b
  apply sublist_of_sublist_flatMap_replicate f _ ?_ es hab
  simp [hne, Ne.symm hne]

variable [DecidableEq κ] [DecidableEq ρ]

def firsts (key : α → κ) : List κ → List α → List α
  | _, [] => []
  | seen, a :: l =>
    if key a ∈ seen then firsts key seen l else a :: firsts key (key a :: seen) l

theorem mem_firsts_id {seen l : List κ} {a : κ} : a ∈ firsts id seen l ↔ a ∈ l ∧ a ∉ seen := by
  induction l generalizing seen with
  | nil => simp [firsts]
  | cons b l ih =>
    rw [firsts]
    by_cases hb : b ∈ seen
    · have hne : a ∉ seen → a ≠ b := fun ha hab => ha (hab ▸ hb)
      simp only [id, hb, if_true, ih, List.mem_cons]
      tauto
    · simp only [id, hb, if_false, List.mem_cons, ih]
      by_cases hab : a = b
      · simp [hab, hb]
      · simp [hab]

theorem nodup_firsts_id (seen l : List κ) : (firsts id seen l).Nodup := by
  induction l generalizing seen with
  | nil => exact List.nodup_nil
  | cons b l ih =>
    rw [firsts]
    split_ifs
    · exact ih seen
    · exact List.nodup_cons.mpr ⟨fun h => (mem_firsts_id.mp h).2 List.mem_cons_self, ih _⟩

section Keys

variable {key : α → κ} {seen : List κ}

theorem firsts_congr {seen' : List κ} (h : ∀ k, k ∈ seen ↔ k ∈ seen') (l : List α) :
    firsts key seen l = firsts key seen' l := by
  induction l generalizing seen seen' with
  | nil => rfl
  | cons a l ih =>
    have hcons : ∀ k, k ∈ key a :: seen ↔ k ∈ key a :: seen' := by
      intro k
      rw [List.mem_cons, List.mem_cons, h]
    rw [firsts, firsts, ih h, ih hcons]
    simp only [h]

theorem mem_map_firsts {l : List α} {k : κ} :
    k ∈ (firsts key seen l).map key ↔ k ∈ l.map key ∧ k ∉ seen := by
  induction l generalizing seen with
  | nil => simp [firsts]
  | cons a l ih =>
    rw [firsts]
    split_ifs with ha
    · rw [ih, List.map_cons, List.mem_cons]
      have hne : k ∉ seen → k ≠ key a := fun hk heq => hk (heq ▸ ha)
      tauto
    · rw [List.map_cons, List.mem_cons, ih, List.map_cons, List.mem_cons, List.mem_cons]
      by_cases hk : k = key a
      · simp [hk, ha]
      · simp [hk]

theorem nodup_map_firsts (l : List α) : ((firsts key seen l).map key).Nodup := by
  induction l generalizing seen with
  | nil => exact List.nodup_nil
  | cons a l ih =>
    rw [firsts]
    split_ifs
    · exact ih
    · rw [List.map_cons, List.nodup_cons, mem_map_firsts]
      exact ⟨fun h => h.2 List.mem_cons_self, ih⟩

theorem subset_firsts (l : List α) : firsts key seen l ⊆ l := by
  induction l generalizing seen with
  | nil => exact List.Subset.refl _
  | cons a l ih =>
    rw [firsts]
    split_ifs
    · exact List.subset_cons_of_subset a ih
    · exact List.cons_subset_cons a ih

theorem firsts_of_nodup {l : List α} (h : (l.map key).Nodup) (hnew : ∀ a ∈ l, key a ∉ seen) :
    firsts key seen l = l := by
  induction l generalizing seen with
  | nil => rfl
  | cons a l ih =>
    obtain ⟨ha, hl⟩ := List.nodup_cons.mp h
    obtain ⟨hseen, hrest⟩ := List.forall_mem_cons.mp hnew
    rw [firsts, if_neg hseen, ih hl]
    intro b hb hmem
    rcases List.mem_cons.mp hmem with heq | hold
    · exact ha (heq ▸ List.mem_map_of_mem hb)
    · exact hrest b hb hold

theorem firsts_append (l m : List α) : firsts key seen (l ++ m) =
    firsts key seen l ++ firsts key ((firsts key seen l).map key ++ seen) m := by
  induction l generalizing seen with
  | nil => rfl
  | cons a l ih =>
    rw [List.cons_append, firsts, firsts]
    split_ifs with ha
    · exact ih
    · rw [ih, List.cons_append]
      congr 2
      apply firsts_congr
      intro k
      simp only [List.map_cons, List.mem_append, List.mem_cons]
      tauto

theorem firsts_append_congr {l l' : List α} (h : firsts key seen l = firsts key seen l')
    (m : List α) : firsts key seen (l ++ m) = firsts key seen (l' ++ m) := by
  rw [firsts_append, firsts_append, h]

theorem firsts_append_of_mem {l : List α} {a : α} (h : key a ∈ l.map key) (m : List α) :
    firsts key [] (l ++ a :: m) = firsts key [] (l ++ m) := by
  have hseen : key a ∈ (firsts key [] l).map key ++ [] := by
    rw [List.append_nil, mem_map_firsts]
    exact ⟨h, List.not_mem_nil⟩
  rw [firsts_append, firsts, if_pos hseen, ← firsts_append]

theorem firsts_append_filter {l : List α} {known : List κ} (h : ∀ k ∈ known, k ∈ l.map key)
    (m : List α) :
    firsts key [] (l ++ m.filter fun a => key a ∉ known) = firsts key [] (l ++ m) := by
  induction m generalizing l with
  | nil => rfl
  | cons a m ih =>
    by_cases ha : key a ∈ known
    · rw [List.filter_cons_of_neg (by simpa using ha), firsts_append_of_mem (h _ ha), ih h]
    · rw [List.filter_cons_of_pos (by simpa using ha), List.append_cons, List.append_cons l a m]
      apply ih
      intro k hk
      rw [List.map_append]
      exact List.mem_append_left _ (h k hk)

end Keys

def runSeen (run : α → ρ) (key : α → κ) (state : Option ρ × List κ) (a : α) :
    Option ρ × List κ :=
  let seen := if state.1 = some (run a) then state.2 else []
  (some (run a), if key a ∈ seen then seen else key a :: seen)

def runFirsts (run : α → ρ) (key : α → κ) : Option ρ × List κ → List α → List α
  | _, [] => []
  | state, a :: l =>
    let rest := runFirsts run key (runSeen run key state a) l
    if state.1 = some (run a) ∧ key a ∈ state.2 then rest else a :: rest

theorem runFirsts_append (run : α → ρ) (key : α → κ) (state : Option ρ × List κ)
    (l m : List α) :
    runFirsts run key state (l ++ m) =
      runFirsts run key state l ++ runFirsts run key (l.foldl (runSeen run key) state) m := by
  induction l generalizing state with
  | nil => rfl
  | cons a l ih =>
    simp only [List.cons_append, runFirsts, List.foldl_cons, ih]
    split_ifs <;> rfl

theorem runSeen_same {run : α → ρ} {key : α → κ} {seen : List κ} {a : α} :
    runSeen run key (some (run a), seen) a =
      (some (run a), if key a ∈ seen then seen else key a :: seen) := by
  simp [runSeen]

theorem runSeen_other {run : α → ρ} {key : α → κ} {current : Option ρ} {seen : List κ} {a : α}
    (h : current ≠ some (run a)) :
    runSeen run key (current, seen) a = (some (run a), [key a]) := by
  simp [runSeen, h]

/-- Keys of earlier runs play no part in a later one: `before` holds all keys seen with their
runs, `seen` those of the current run. -/
theorem firsts_eq_runFirsts_of_seen (run : α → ρ) (key : α → κ) (l : List α)
    {current : Option ρ} {seen : List κ} {before : List (ρ × κ)}
    (hruns : Contiguous (current.toList ++ l.map run))
    (hseen : ∀ r, current = some r → ∀ k, (r, k) ∈ before ↔ k ∈ seen)
    (hpast : ∀ p ∈ before, some p.1 ≠ current → p.1 ∉ l.map run) :
    firsts (fun a => (run a, key a)) before l = runFirsts run key (current, seen) l := by
  induction l generalizing current seen before with
  | nil => rfl
  | cons a l ih =>
    have hrest : Contiguous ((some (run a)).toList ++ l.map run) :=
      hruns.sublist (List.sublist_append_right _ _)
    have hpastRest : ∀ p ∈ before, some p.1 ≠ current → p.1 ∉ l.map run :=
      fun p hp hne hmem => hpast p hp hne (List.mem_cons_of_mem _ hmem)
    by_cases hcur : current = some (run a)
    · subst hcur
      by_cases hkey : key a ∈ seen
      · have hbefore : (run a, key a) ∈ before := (hseen _ rfl _).mpr hkey
        simp only [firsts, runFirsts, hbefore, hkey, runSeen_same, if_true, and_self]
        exact ih hrest hseen hpastRest
      · have hbefore : (run a, key a) ∉ before := fun h => hkey ((hseen _ rfl _).mp h)
        simp only [firsts, runFirsts, hbefore, hkey, runSeen_same, if_false, and_false]
        congr 1
        apply ih hrest
        · intro r hr k
          obtain rfl := Option.some.inj hr
          simp [hseen _ rfl k]
        · intro p hp hne
          rcases List.mem_cons.mp hp with rfl | hp
          · exact absurd rfl hne
          · exact hpastRest p hp hne
    · have hbefore : ∀ k, (run a, k) ∉ before := fun k h =>
        hpast _ h (fun he => hcur he.symm) List.mem_cons_self
      simp only [firsts, runFirsts, hbefore, hcur, runSeen_other hcur, if_false, false_and]
      congr 1
      apply ih hrest
      · intro r hr k
        obtain rfl := Option.some.inj hr
        simp [hbefore]
      · intro p hp hne
        rcases List.mem_cons.mp hp with rfl | hp
        · exact absurd rfl hne
        · by_cases hp1 : current = some p.1
          · subst hp1
            apply Contiguous.notMem hruns
            intro he
            exact hne (congrArg some he.symm)
          · exact hpastRest p hp (fun he => hp1 he.symm)

theorem firsts_eq_runFirsts (run : α → ρ) (key : α → κ) {l : List α}
    (h : Contiguous (l.map run)) :
    firsts (fun a => (run a, key a)) [] l = runFirsts run key (none, []) l := by
  apply firsts_eq_runFirsts_of_seen
  · exact h
  · intro r hr
    cases hr
  · intro p hp
    cases hp

end FinanceContext.FirstOccurrences
