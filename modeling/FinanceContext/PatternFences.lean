import FinanceContext.Patterns

/-!
A character that a pattern neither reads nor sees: what stands on its two sides is searched
apart.
-/

namespace Patterns

variable {α γ : Type}

mutual

def Avoids (c : α) : Pattern α γ → Prop
  | .one p => p c = false
  | .sequence parts => AvoidsAll c parts
  | .choice parts => AvoidsAll c parts
  | .many p => p c = false
  | .opt r => Avoids c r
  | .group _ r => Avoids c r
  | .notAfter p => p c = false
  | .notBefore p => p c = false

def AvoidsAll (c : α) : List (Pattern α γ) → Prop
  | [] => True
  | r :: parts => Avoids c r ∧ AvoidsAll c parts

end

theorem avoidsAll_iff {c : α} {parts : List (Pattern α γ)} :
    AvoidsAll c parts ↔ ∀ r ∈ parts, Avoids c r := by
  induction parts with
  | nil => simp [AvoidsAll]
  | cons r parts ih => rw [AvoidsAll, ih, List.forall_mem_cons]

def Place.extend (tail : List α) (place : Place α γ) : Place α γ :=
  ⟨place.before, place.after ++ tail, place.groups⟩

def Place.under (front : List α) (place : Place α γ) : Place α γ :=
  ⟨place.before ++ front, place.after, place.groups⟩

theorem length_after_le {r : Pattern α γ} {place next : Place α γ} (h : next ∈ run r place) :
    next.after.length ≤ place.after.length := by
  obtain ⟨word, hbetween, -⟩ := run_reads r place next h
  rw [hbetween.2, List.length_append]
  omega

theorem any_head?_fence {p : α → Bool} {c : α} (hc : p c = false) (text tail : List α) :
    (text ++ c :: tail).head?.any p = text.head?.any p := by
  cases text with
  | nil => simp [hc]
  | cons ch text => simp

section After

variable {c : α} (tail : List α)

theorem manyFrom_extend {p : α → Bool} (hc : p c = false) (groups : List (γ × List α))
    (before after : List α) :
    manyFrom p groups before (after ++ c :: tail) =
      (manyFrom p groups before after).map (Place.extend (c :: tail)) := by
  induction after generalizing before with
  | nil => simp [manyFrom, hc, Place.extend]
  | cons ch after ih =>
    rw [List.cons_append, manyFrom, manyFrom]
    by_cases hch : p ch = true
    · rw [if_pos hch, if_pos hch, ih, List.map_append]
      rfl
    · rw [if_neg hch, if_neg hch]
      rfl

mutual

theorem run_extend : ∀ (r : Pattern α γ), Avoids c r → ∀ place : Place α γ,
    run r (place.extend (c :: tail)) = (run r place).map (Place.extend (c :: tail))
  | .one p, hc, ⟨before, after, groups⟩ => by
    cases after with
    | nil =>
      have hp : p c = false := hc
      simp [run, Place.extend, hp]
    | cons ch after =>
      simp only [run, Place.extend, List.cons_append]
      split
      · rfl
      · rfl
  | .sequence parts, hc, place => by
    rw [run, run]
    exact runSequence_extend parts hc place
  | .choice parts, hc, place => by
    rw [run, run]
    exact runChoice_extend parts hc place
  | .many p, hc, place => by
    rw [run, run]
    exact manyFrom_extend tail hc place.groups place.before place.after
  | .opt r, hc, place => by
    rw [run, run, run_extend r hc place, List.map_append]
    rfl
  | .group name r, hc, place => by
    rw [run, run, run_extend r hc place, List.map_map, List.map_map]
    apply List.map_congr_left
    intro next hnext
    have hle := length_after_le hnext
    have htaken : (place.after ++ c :: tail).take
        ((place.after ++ c :: tail).length - (next.after ++ c :: tail).length) =
        place.after.take (place.after.length - next.after.length) := by
      rw [List.length_append, List.length_append, Nat.add_sub_add_right]
      exact List.take_append_of_le_length (Nat.sub_le _ _)
    simp only [Function.comp_apply, Place.extend, htaken]
  | .notAfter p, hc, place => by
    by_cases hseen : place.before.head?.any p = true
    · rw [run, run, if_pos hseen, Place.extend, if_pos hseen]
      rfl
    · rw [run, run, if_neg hseen, Place.extend, if_neg hseen]
      rfl
  | .notBefore p, hc, place => by
    have hfence := any_head?_fence (p := p) hc place.after tail
    by_cases hseen : place.after.head?.any p = true
    · rw [run, run, if_pos hseen, Place.extend, if_pos (by rw [hfence, hseen])]
      rfl
    · rw [run, run, if_neg hseen, Place.extend, if_neg (by rwa [hfence])]
      rfl

theorem runSequence_extend : ∀ (parts : List (Pattern α γ)), AvoidsAll c parts →
    ∀ place : Place α γ, runSequence parts (place.extend (c :: tail)) =
      (runSequence parts place).map (Place.extend (c :: tail))
  | [], _, _ => rfl
  | r :: parts, hc, place => by
    rw [runSequence, runSequence, run_extend r hc.1 place, List.flatMap_map, List.map_flatMap]
    congr 1
    funext next
    exact runSequence_extend parts hc.2 next

theorem runChoice_extend : ∀ (parts : List (Pattern α γ)), AvoidsAll c parts →
    ∀ place : Place α γ, runChoice parts (place.extend (c :: tail)) =
      (runChoice parts place).map (Place.extend (c :: tail))
  | [], _, _ => rfl
  | r :: parts, hc, place => by
    rw [runChoice, runChoice, run_extend r hc.1 place, runChoice_extend parts hc.2 place,
      List.map_append]

end

end After

section Before

variable {c : α} (front : List α)

theorem manyFrom_under {p : α → Bool} (groups : List (γ × List α)) (before after : List α) :
    manyFrom p groups (before ++ front) after =
      (manyFrom p groups before after).map (Place.under front) := by
  induction after generalizing before with
  | nil => rfl
  | cons ch after ih =>
    rw [manyFrom, manyFrom]
    by_cases hch : p ch = true
    · rw [if_pos hch, if_pos hch, ← List.cons_append, ih, List.map_append]
      rfl
    · rw [if_neg hch, if_neg hch]
      rfl

mutual

theorem run_under : ∀ (r : Pattern α γ), Avoids c r → ∀ place : Place α γ,
    run r (place.under (c :: front)) = (run r place).map (Place.under (c :: front))
  | .one p, _, ⟨before, after, groups⟩ => by
    cases after with
    | nil => rfl
    | cons ch after =>
      simp only [run, Place.under]
      split
      · rfl
      · rfl
  | .sequence parts, hc, place => by
    rw [run, run]
    exact runSequence_under parts hc place
  | .choice parts, hc, place => by
    rw [run, run]
    exact runChoice_under parts hc place
  | .many p, _, place => by
    rw [run, run]
    exact manyFrom_under (c :: front) place.groups place.before place.after
  | .opt r, hc, place => by
    rw [run, run, run_under r hc place, List.map_append]
    rfl
  | .group name r, hc, place => by
    rw [run, run, run_under r hc place, List.map_map, List.map_map]
    rfl
  | .notAfter p, hc, place => by
    have hfence := any_head?_fence (p := p) hc place.before front
    by_cases hseen : place.before.head?.any p = true
    · rw [run, run, if_pos hseen, Place.under, if_pos (by rw [hfence, hseen])]
      rfl
    · rw [run, run, if_neg hseen, Place.under, if_neg (by rwa [hfence])]
      rfl
  | .notBefore p, _, place => by
    by_cases hseen : place.after.head?.any p = true
    · rw [run, run, if_pos hseen, Place.under, if_pos hseen]
      rfl
    · rw [run, run, if_neg hseen, Place.under, if_neg hseen]
      rfl

theorem runSequence_under : ∀ (parts : List (Pattern α γ)), AvoidsAll c parts →
    ∀ place : Place α γ, runSequence parts (place.under (c :: front)) =
      (runSequence parts place).map (Place.under (c :: front))
  | [], _, _ => rfl
  | r :: parts, hc, place => by
    rw [runSequence, runSequence, run_under r hc.1 place, List.flatMap_map, List.map_flatMap]
    congr 1
    funext next
    exact runSequence_under parts hc.2 next

theorem runChoice_under : ∀ (parts : List (Pattern α γ)), AvoidsAll c parts →
    ∀ place : Place α γ, runChoice parts (place.under (c :: front)) =
      (runChoice parts place).map (Place.under (c :: front))
  | [], _, _ => rfl
  | r :: parts, hc, place => by
    rw [runChoice, runChoice, run_under r hc.1 place, runChoice_under parts hc.2 place,
      List.map_append]

end

end Before

section Searches

variable {c : α} {r : Pattern α γ}

theorem isEmpty_run_fence (hc : Avoids c r) (before after tail : List α) :
    (run r ⟨before, after ++ c :: tail, []⟩).isEmpty = (run r ⟨before, after, []⟩).isEmpty := by
  have hrun := run_extend tail r hc ⟨before, after, []⟩
  rw [Place.extend] at hrun
  rw [hrun, List.isEmpty_map]

theorem foundFrom_under (hc : Avoids c r) (before front after : List α) :
    foundFrom r (before ++ c :: front) after = foundFrom r before after := by
  have hhere : ∀ before after : List α, (run r ⟨before ++ c :: front, after, []⟩).isEmpty =
      (run r ⟨before, after, []⟩).isEmpty := by
    intro before after
    have hrun := run_under front r hc ⟨before, after, []⟩
    rw [Place.under] at hrun
    rw [hrun, List.isEmpty_map]
  induction after generalizing before with
  | nil => rw [foundFrom, foundFrom, hhere]
  | cons ch after ih => rw [foundFrom, foundFrom, hhere, ← List.cons_append, ih]

theorem foundFrom_fence (hc : Avoids c r) (before a b : List α) :
    foundFrom r before (a ++ c :: b) = (foundFrom r before a || foundFrom r [] b) := by
  induction a generalizing before with
  | nil =>
    have hhere := isEmpty_run_fence hc before [] b
    rw [List.nil_append] at hhere ⊢
    rw [foundFrom, foundFrom, hhere]
    exact congrArg _ (foundFrom_under hc [] before b)
  | cons ch a ih =>
    rw [List.cons_append, foundFrom, foundFrom, ih, ← List.cons_append, isEmpty_run_fence hc,
      Bool.or_assoc]

theorem found_fence (hc : Avoids c r) (a b : List α) :
    found r (a ++ c :: b) = (found r a || found r b) :=
  foundFrom_fence hc [] a b

theorem foundFrom_of_between {place next : Place α γ} {word : List α}
    (h : place.Between next word) (hfound : foundFrom r next.before next.after = true) :
    foundFrom r place.before place.after = true := by
  obtain ⟨before, after, groups⟩ := place
  obtain ⟨hbefore, hafter⟩ := h
  dsimp only at hbefore hafter ⊢
  induction word generalizing before after with
  | nil =>
    rw [hbefore, List.reverse_nil, List.nil_append] at hfound
    rwa [hafter, List.nil_append]
  | cons ch word ih =>
    rw [hafter, List.cons_append, foundFrom, Bool.or_eq_true]
    right
    apply ih
    · rw [hbefore, List.reverse_cons, List.append_assoc]
      rfl
    · rfl

end Searches

/-- A reading of a text that looks at the two sides of `c` apart. -/
structure FencedBy (c : α) (read : List α → Bool) : Prop where
  empty : read [] = false
  split : ∀ a b, read (a ++ c :: b) = (read a || read b)

theorem fencedBy_found {c : α} {r : Pattern α γ} (hc : Avoids c r)
    (hneeds : Needs (fun _ => True) r) : FencedBy c (found r) where
  empty := found_eq_false hneeds (by simp)
  split := found_fence hc

theorem fencedBy_contains [BEq α] [LawfulBEq α] {c mark : α} (h : mark ≠ c) :
    FencedBy c (·.contains mark) where
  empty := rfl
  split a b := by simp [h]

namespace FencedBy

variable {c : α} {read : List α → Bool} (h : FencedBy c read)
include h

theorem cons (b : List α) : read (c :: b) = read b := by
  have hsplit := h.split [] b
  rwa [h.empty, Bool.false_or] at hsplit

theorem append_cons_cons (a b : List α) : read (a ++ c :: c :: b) = (read a || read b) := by
  rw [h.split, h.cons]

theorem concat (a : List α) : read (a ++ [c]) = read a := by
  rw [h.split, h.empty, Bool.or_false]

theorem or {other : List α → Bool} (hother : FencedBy c other) :
    FencedBy c fun text => read text || other text where
  empty := by rw [h.empty, hother.empty, Bool.or_false]
  split a b := by
    rw [h.split, hother.split]
    simp only [Bool.or_assoc, Bool.or_left_comm]

end FencedBy

section Around

variable {p : α → Bool} {read : List α → Bool} (h : ∀ c, p c = true → FencedBy c read)
include h

theorem read_of_fences (hempty : read [] = false) {text : List α} (htext : ∀ c ∈ text, p c = true) :
    read text = false := by
  induction text with
  | nil => exact hempty
  | cons c text ih =>
    rw [List.forall_mem_cons] at htext
    rw [(h c htext.1).cons]
    exact ih htext.2

theorem read_append_fences {b : List α} (hb : ∀ c ∈ b, p c = true) (text : List α) :
    read (text ++ b) = read text := by
  cases b with
  | nil => rw [List.append_nil]
  | cons c b =>
    rw [List.forall_mem_cons] at hb
    have hc := h c hb.1
    rw [hc.split, read_of_fences h hc.empty hb.2, Bool.or_false]

theorem read_fences_append {a : List α} (ha : ∀ c ∈ a, p c = true) (text : List α) :
    read (a ++ text) = read text := by
  induction a with
  | nil => rfl
  | cons c a ih =>
    rw [List.forall_mem_cons] at ha
    rw [List.cons_append, (h c ha.1).cons]
    exact ih ha.2

end Around

end Patterns
