import FinanceContext.HopReachability
import Mathlib.Data.Finset.Card
import Mathlib.Data.Finset.Range
import Mathlib.Data.List.Find

namespace FinanceContext

open Relation HopReachability

abbrev Components := ℕ → List (ℕ × ℕ) → ℕ → ℕ

/-- Two vertices have one label exactly when each reaches the other. -/
def FindsComponents (components : Components) : Prop :=
  ∀ n (pairs : List (ℕ × ℕ)), (∀ p ∈ pairs, p.1 < n ∧ p.2 < n) → ∀ i < n, ∀ j < n,
    (components n pairs i = components n pairs j ↔ Mutual (fun a b => (a, b) ∈ pairs) i j)

namespace ComponentLabels

variable (pairs : List (ℕ × ℕ))

/-- The vertices within a number of steps of one. -/
def within (i : ℕ) : ℕ → Finset ℕ
  | 0 => {i}
  | k + 1 => within i k ∪ ((pairs.filter fun p => p.1 ∈ within i k).map Prod.snd).toFinset

theorem within_subset_succ (i k : ℕ) : within pairs i k ⊆ within pairs i (k + 1) :=
  Finset.subset_union_left

theorem mem_within_succ {i k j : ℕ} :
    j ∈ within pairs i (k + 1) ↔
      j ∈ within pairs i k ∨ ∃ a ∈ within pairs i k, (a, j) ∈ pairs := by
  simp only [within, Finset.mem_union, List.mem_toFinset, List.mem_map, List.mem_filter,
    decide_eq_true_eq]
  constructor
  · rintro (h | ⟨⟨a, b⟩, ⟨hp, ha⟩, rfl⟩)
    · exact .inl h
    · exact .inr ⟨a, ha, hp⟩
  · rintro (h | ⟨a, ha, hp⟩)
    · exact .inl h
    · exact .inr ⟨(a, j), ⟨hp, ha⟩, rfl⟩

theorem reaches_of_mem_within {i k j : ℕ} (h : j ∈ within pairs i k) :
    ReflTransGen (fun a b => (a, b) ∈ pairs) i j := by
  induction k generalizing j with
  | zero => rw [Finset.mem_singleton.mp h]
  | succ k ih =>
    rcases (mem_within_succ pairs).mp h with h | ⟨a, ha, hp⟩
    · exact ih h
    · exact (ih ha).tail hp

theorem mem_within_of_stable {i k j : ℕ} (hstable : within pairs i (k + 1) = within pairs i k)
    (h : ReflTransGen (fun a b => (a, b) ∈ pairs) i j) : j ∈ within pairs i k := by
  induction h with
  | refl =>
    clear hstable
    induction k with
    | zero => exact Finset.mem_singleton_self i
    | succ k ih => exact within_subset_succ pairs i k ih
  | tail _ hp ih =>
    rw [← hstable]
    exact (mem_within_succ pairs).mpr (.inr ⟨_, ih, hp⟩)

theorem within_subset_range {n i : ℕ} (hpairs : ∀ p ∈ pairs, p.1 < n ∧ p.2 < n) (hi : i < n)
    (k : ℕ) : within pairs i k ⊆ Finset.range n := by
  intro j hj
  rw [Finset.mem_range]
  induction k generalizing j with
  | zero => rwa [Finset.mem_singleton.mp hj]
  | succ k ih =>
    rcases (mem_within_succ pairs).mp hj with hj | ⟨a, -, hp⟩
    · exact ih hj
    · exact (hpairs _ hp).2

theorem mem_within_iff {n i j : ℕ} (hpairs : ∀ p ∈ pairs, p.1 < n ∧ p.2 < n) (hi : i < n) :
    j ∈ within pairs i n ↔ ReflTransGen (fun a b => (a, b) ∈ pairs) i j := by
  refine ⟨reaches_of_mem_within pairs, fun h => ?_⟩
  have hmono (k m : ℕ) (hkm : k ≤ m) : within pairs i k ⊆ within pairs i m := by
    induction hkm with
    | refl => exact Finset.Subset.refl _
    | step _ ih => exact ih.trans (within_subset_succ pairs i _)
  have hstable : ∃ k ≤ n, within pairs i (k + 1) = within pairs i k := by
    by_contra hnone
    have hgrow (k : ℕ) (hk : k ≤ n + 1) : k < (within pairs i k).card := by
      induction k with
      | zero => simp [within]
      | succ k ih =>
        have hne : within pairs i k ≠ within pairs i (k + 1) :=
          fun he => hnone ⟨k, by omega, he.symm⟩
        have hlt := Finset.card_lt_card
          (Finset.ssubset_iff_subset_ne.mpr ⟨within_subset_succ pairs i k, hne⟩)
        have hprev := ih (by omega)
        omega
    have hcard := Finset.card_le_card (within_subset_range pairs hpairs hi (n + 1))
    rw [Finset.card_range] at hcard
    have hbig := hgrow (n + 1) (Nat.le_refl _)
    omega
  obtain ⟨k, hk, hk'⟩ := hstable
  exact hmono k n hk (mem_within_of_stable pairs hk' h)

/-- Each vertex is labelled by the first vertex of its component. -/
def firstMutual : Components := fun n pairs i =>
  ((List.range n).find? fun j => j ∈ within pairs i n ∧ i ∈ within pairs j n).getD n

theorem firstMutual_mutual {n i : ℕ} (hpairs : ∀ p ∈ pairs, p.1 < n ∧ p.2 < n) (hi : i < n) :
    firstMutual n pairs i < n ∧
      Mutual (fun a b => (a, b) ∈ pairs) i (firstMutual n pairs i) := by
  unfold firstMutual
  cases hfind : (List.range n).find? fun j => j ∈ within pairs i n ∧ i ∈ within pairs j n with
  | none =>
    have hself := List.find?_eq_none.mp hfind i (List.mem_range.mpr hi)
    have hmem : i ∈ within pairs i n := (mem_within_iff pairs hpairs hi).mpr .refl
    simp [hmem] at hself
  | some m =>
    have hm : m < n := List.mem_range.mp (List.mem_of_find?_eq_some hfind)
    have hboth := List.find?_some hfind
    simp only [decide_eq_true_eq] at hboth
    exact ⟨hm, (mem_within_iff pairs hpairs hi).mp hboth.1,
      (mem_within_iff pairs hpairs hm).mp hboth.2⟩

theorem findsComponents_firstMutual : FindsComponents firstMutual := by
  intro n pairs hpairs i hi j hj
  constructor
  · intro h
    have hmi := (firstMutual_mutual pairs hpairs hi).2
    have hmj := (firstMutual_mutual pairs hpairs hj).2
    rw [← h] at hmj
    exact hmi.trans hmj.symm
  · intro h
    unfold firstMutual
    congr 1
    apply List.find?_congr
    intro m hm
    have hm := List.mem_range.mp hm
    rw [decide_eq_decide, mem_within_iff pairs hpairs hi, mem_within_iff pairs hpairs hm,
      mem_within_iff pairs hpairs hj, mem_within_iff pairs hpairs hm]
    exact ⟨fun him => h.symm.trans him, fun hjm => h.trans hjm⟩

end ComponentLabels

end FinanceContext
