import Mathlib.Algebra.Order.Group.Int
import Mathlib.Data.List.Basic
import Mathlib.Data.List.Sort
import Mathlib.Tactic.Linarith
import Mathlib.Tactic.Ring

/-!
Intervals that hold a number, found in a balanced tree of the greatest ends: a slot is left out
when no interval under it reaches the number.
-/

namespace FinanceContext.SegmentTrees

/-- `while size < target: size *= 2` -/
def grow (target : ℕ) : ℕ → ℕ → ℕ
  | 0, size => size
  | fuel + 1, size => if size < target then grow target fuel (2 * size) else size

def valueAt (tree : List ℤ) (slot : ℕ) : ℤ := tree.getD slot (-1)

def setLeaves : ℕ → List ℕ → List ℤ → List ℤ
  | _, [], tree => tree
  | slot, value :: values, tree => setLeaves (slot + 1) values (tree.set slot value)

def fillDown : ℕ → List ℤ → List ℤ
  | 0, tree => tree
  | slot + 1, tree =>
    fillDown slot (tree.set (slot + 1)
      (max (valueAt tree (2 * (slot + 1))) (valueAt tree (2 * (slot + 1) + 1))))

def build (size : ℕ) (values : List ℕ) : List ℤ :=
  fillDown (size - 1) (setLeaves size values (List.replicate (2 * size) (-1)))

/-- The leaves before `limit` that reach `x`; the stack of the search is the recursion. -/
def stab (tree : List ℤ) (limit : ℕ) (x : ℤ) : ℕ → ℕ → ℕ → ℕ → List ℕ
  | 0, _, _, _ => []
  | fuel + 1, slot, lo, hi =>
    if limit ≤ lo ∨ valueAt tree slot < x then []
    else if lo = hi then [lo]
    else
      let mid := (lo + hi) / 2
      stab tree limit x fuel (2 * slot) lo mid ++
        stab tree limit x fuel (2 * slot + 1) (mid + 1) hi

section Building

theorem exists_grow_eq_pow (target fuel k : ℕ) : ∃ m, grow target fuel (2 ^ k) = 2 ^ m := by
  induction fuel generalizing k with
  | zero => exact ⟨k, rfl⟩
  | succ fuel ih =>
    simp only [grow]
    split_ifs
    · rw [← pow_succ']
      exact ih (k + 1)
    · exact ⟨k, rfl⟩

theorem le_grow {target fuel size : ℕ} (h : target ≤ size * 2 ^ fuel) :
    target ≤ grow target fuel size := by
  induction fuel generalizing size with
  | zero => simpa [grow] using h
  | succ fuel ih =>
    simp only [grow]
    split_ifs with hlt
    · apply ih
      rw [pow_succ] at h
      calc target ≤ size * (2 ^ fuel * 2) := h
        _ = 2 * size * 2 ^ fuel := by ring
    · omega

theorem valueAt_set (tree : List ℤ) (slot other : ℕ) (value : ℤ) :
    valueAt (tree.set slot value) other =
      if slot = other ∧ slot < tree.length then value else valueAt tree other := by
  unfold valueAt
  rw [List.getD_eq_getElem?_getD, List.getD_eq_getElem?_getD, List.getElem?_set]
  by_cases hslot : slot = other
  · subst hslot
    by_cases hlt : slot < tree.length
    · simp [hlt]
    · simp [hlt]
  · simp [hslot]

theorem length_setLeaves (slot : ℕ) (values : List ℕ) (tree : List ℤ) :
    (setLeaves slot values tree).length = tree.length := by
  induction values generalizing slot tree with
  | nil => rfl
  | cons value values ih => rw [setLeaves, ih, List.length_set]

theorem valueAt_setLeaves_of_lt {slot other : ℕ} (h : other < slot) (values : List ℕ)
    (tree : List ℤ) : valueAt (setLeaves slot values tree) other = valueAt tree other := by
  induction values generalizing slot tree with
  | nil => rfl
  | cons value values ih =>
    rw [setLeaves, ih (by omega), valueAt_set, if_neg (by omega)]

theorem valueAt_setLeaves {slot index : ℕ} {values : List ℕ} {tree : List ℤ}
    (hindex : index < values.length) (hroom : slot + values.length ≤ tree.length) :
    valueAt (setLeaves slot values tree) (slot + index) = values[index] := by
  induction values generalizing slot index tree with
  | nil => simp at hindex
  | cons value values ih =>
    rw [List.length_cons] at hindex hroom
    rw [setLeaves]
    cases index with
    | zero =>
      rw [valueAt_setLeaves_of_lt (by omega), valueAt_set, if_pos ⟨rfl, by omega⟩]
      rfl
    | succ index =>
      have hslot : slot + (index + 1) = slot + 1 + index := by omega
      rw [hslot, ih (by omega) (by rw [List.length_set]; omega)]
      rfl

theorem valueAt_fillDown_of_lt {slot other : ℕ} (h : slot < other) (tree : List ℤ) :
    valueAt (fillDown slot tree) other = valueAt tree other := by
  induction slot generalizing tree with
  | zero => rfl
  | succ slot ih => rw [fillDown, ih (by omega), valueAt_set, if_neg (by omega)]

theorem valueAt_fillDown {last slot : ℕ} {tree : List ℤ} (hslot : 1 ≤ slot) (hlast : slot ≤ last)
    (hroom : last < tree.length) :
    valueAt (fillDown last tree) slot =
      max (valueAt (fillDown last tree) (2 * slot))
        (valueAt (fillDown last tree) (2 * slot + 1)) := by
  induction last generalizing tree with
  | zero => omega
  | succ last ih =>
    rw [fillDown]
    rcases Nat.lt_or_ge last slot with hnew | hold
    · obtain rfl : slot = last + 1 := by omega
      rw [valueAt_fillDown_of_lt (by omega), valueAt_fillDown_of_lt (by omega),
        valueAt_fillDown_of_lt (by omega), valueAt_set, valueAt_set, valueAt_set,
        if_pos ⟨rfl, hroom⟩, if_neg (by omega), if_neg (by omega)]
    · exact ih hold (by rw [List.length_set]; omega)

end Building

section Searching

/-- Every inner slot holds the greater value of its halves. -/
def IsHeap (size : ℕ) (tree : List ℤ) : Prop :=
  ∀ slot, 1 ≤ slot → slot < size →
    valueAt tree slot = max (valueAt tree (2 * slot)) (valueAt tree (2 * slot + 1))

variable {size : ℕ} {tree : List ℤ}

theorem leaf_le_of_isHeap (hheap : IsHeap size tree) {height slot lo : ℕ}
    (hslot : slot * 2 ^ height = size + lo) (hroom : lo + 2 ^ height ≤ size) {leaf : ℕ}
    (hlo : lo ≤ leaf) (hhi : leaf < lo + 2 ^ height) :
    valueAt tree (size + leaf) ≤ valueAt tree slot := by
  induction height generalizing slot lo with
  | zero =>
    obtain rfl : leaf = lo := by simp only [pow_zero] at hhi; omega
    rw [← hslot, pow_zero, mul_one]
  | succ height ih =>
    have hpos : 0 < 2 ^ height := Nat.two_pow_pos height
    rw [pow_succ] at hroom hhi hslot
    generalize hp : 2 ^ height = p at *
    have hinner : slot < size := by nlinarith
    have hfirst : 1 ≤ slot := by
      rcases Nat.eq_zero_or_pos slot with rfl | h
      · omega
      · exact h
    rw [hheap slot hfirst hinner]
    rcases Nat.lt_or_ge leaf (lo + p) with hleft | hright
    · exact (ih (by linarith) (by omega) hlo hleft).trans (le_max_left _ _)
    · exact (ih (by linarith) (by omega) hright (by omega)).trans (le_max_right _ _)

theorem stab_eq (hheap : IsHeap size tree) {limit : ℕ} {x : ℤ} {height fuel slot lo : ℕ}
    (hfuel : height < fuel) (hslot : slot * 2 ^ height = size + lo)
    (hroom : lo + 2 ^ height ≤ size) :
    stab tree limit x fuel slot lo (lo + 2 ^ height - 1) =
      (List.range' lo (2 ^ height)).filter fun leaf =>
        leaf < limit && x ≤ valueAt tree (size + leaf) := by
  induction height generalizing fuel slot lo with
  | zero =>
    obtain ⟨fuel, rfl⟩ : ∃ n, fuel = n + 1 := ⟨fuel - 1, by omega⟩
    have hleaf : size + lo = slot := by rw [← hslot, pow_zero, mul_one]
    simp only [stab, pow_zero, Nat.add_sub_cancel, List.range'_one, List.filter_cons,
      List.filter_nil, hleaf, if_true]
    by_cases hprune : limit ≤ lo ∨ valueAt tree slot < x
    · have hnot : ¬(decide (lo < limit) && decide (x ≤ valueAt tree slot)) = true := by
        simp only [Bool.and_eq_true, decide_eq_true_eq]
        omega
      rw [if_pos hprune, if_neg hnot]
    · have hyes : (decide (lo < limit) && decide (x ≤ valueAt tree slot)) = true := by
        simp only [Bool.and_eq_true, decide_eq_true_eq]
        omega
      rw [if_neg hprune, if_pos hyes]
  | succ height ih =>
    obtain ⟨fuel, rfl⟩ : ∃ n, fuel = n + 1 := ⟨fuel - 1, by omega⟩
    have hpos : 0 < 2 ^ height := Nat.two_pow_pos height
    have hbound (leaf : ℕ) (hlo : lo ≤ leaf) (hhi : leaf < lo + 2 ^ (height + 1)) :
        valueAt tree (size + leaf) ≤ valueAt tree slot :=
      leaf_le_of_isHeap hheap hslot hroom hlo hhi
    rw [stab]
    split_ifs with hprune hlast
    · symm
      apply List.filter_eq_nil_iff.mpr
      intro leaf hleaf
      have hleaf' := List.mem_range'_1.mp hleaf
      have hle := hbound leaf hleaf'.1 hleaf'.2
      simp only [Bool.and_eq_true, decide_eq_true_eq]
      omega
    · rw [pow_succ] at hlast
      omega
    · have hmid : (lo + (lo + 2 ^ (height + 1) - 1)) / 2 = lo + 2 ^ height - 1 := by
        rw [pow_succ]
        omega
      have hnext : lo + 2 ^ height - 1 + 1 = lo + 2 ^ height := by omega
      have hend : lo + 2 ^ (height + 1) - 1 = lo + 2 ^ height + 2 ^ height - 1 := by
        rw [pow_succ]
        omega
      rw [pow_succ] at hslot hroom
      have hleft : stab tree limit x fuel (2 * slot) lo (lo + 2 ^ height - 1) =
          (List.range' lo (2 ^ height)).filter fun leaf =>
            leaf < limit && x ≤ valueAt tree (size + leaf) :=
        ih (by omega) (by linarith) (by omega)
      have hright : stab tree limit x fuel (2 * slot + 1) (lo + 2 ^ height)
          (lo + 2 ^ height + 2 ^ height - 1) =
          (List.range' (lo + 2 ^ height) (2 ^ height)).filter fun leaf =>
            leaf < limit && x ≤ valueAt tree (size + leaf) :=
        ih (by omega) (by linarith) (by omega)
      simp only [hmid, hnext]
      rw [hend, hleft, hright, ← List.filter_append, pow_succ, mul_two, ← List.range'_append_1]

end Searching

end FinanceContext.SegmentTrees
