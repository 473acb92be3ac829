import Mathlib.Data.List.Induction
import Mathlib.Logic.Relation

/-!
Parents in a sequence of depths: the nearest shallower element, found with a stack, and parents
that some roots look for on the other side.
-/

namespace FinanceContext.ParentScans

open Relation

section Stacks

variable {α : Type} (depth : α → ℕ) (skip : α → Bool)

/-- What may still be a parent, the last element first. -/
def push (stack : List α) (a : α) : List α :=
  if skip a then stack else a :: stack.dropWhile fun b => depth a ≤ depth b

def stackOf (seen : List α) : List α := seen.foldl (push depth skip) []

/-- The scan for the nearest element that is shallower. -/
def nearest (seen : List α) (limit : ℕ) : Option α :=
  seen.reverse.find? fun b => !skip b && depth b < limit

variable {depth skip}

theorem find?_dropWhile {p q : α → Bool} (h : ∀ b, q b = true → p b = false) (l : List α) :
    (l.dropWhile q).find? p = l.find? p := by
  induction l with
  | nil => rfl
  | cons b l ih =>
    by_cases hq : q b = true
    · rw [List.dropWhile_cons_of_pos hq, List.find?_cons_of_neg (by simp [h b hq]), ih]
    · rw [List.dropWhile_cons_of_neg hq]

theorem head?_dropWhile {p q : α → Bool} (h : ∀ b, q b = !p b) (l : List α) :
    (l.dropWhile q).head? = l.find? p := by
  induction l with
  | nil => rfl
  | cons b l ih =>
    cases hp : p b with
    | true => simp [h b, hp]
    | false => simp [h b, hp, ih]

theorem nearest_append (seen : List α) (a : α) (limit : ℕ) :
    nearest depth skip (seen ++ [a]) limit =
      if skip a = false ∧ depth a < limit then some a else nearest depth skip seen limit := by
  unfold nearest
  rw [List.reverse_append, List.reverse_singleton, List.singleton_append, List.find?_cons]
  by_cases ha : skip a = false ∧ depth a < limit
  · rw [if_pos ha]
    simp [ha.1, ha.2]
  · rw [if_neg ha]
    have hnot : (!skip a && decide (depth a < limit)) = false := by
      by_contra htrue
      simp only [Bool.not_eq_false, Bool.and_eq_true, Bool.not_eq_true', decide_eq_true_eq] at htrue
      exact ha htrue
    rw [hnot]

theorem find?_stackOf (seen : List α) (limit : ℕ) :
    (stackOf depth skip seen).find? (fun b => depth b < limit) =
      nearest depth skip seen limit := by
  induction seen using List.reverseRecOn with
  | nil => rfl
  | append_singleton seen a ih =>
    rw [nearest_append, ← ih, stackOf, List.foldl_append, List.foldl_cons, List.foldl_nil]
    change (push depth skip (stackOf depth skip seen) a).find? _ = _
    unfold push
    cases hskip : skip a with
    | true => simp
    | false =>
      simp only [Bool.false_eq_true, if_false, true_and]
      by_cases hlimit : depth a < limit
      · rw [if_pos hlimit, List.find?_cons_of_pos (by simpa using hlimit)]
      · rw [if_neg hlimit, List.find?_cons_of_neg (by simpa using hlimit)]
        apply find?_dropWhile
        intro b hb
        simp only [decide_eq_true_eq] at hb
        simp only [decide_eq_false_iff_not]
        omega

theorem head?_stackOf (seen : List α) (limit : ℕ) :
    ((stackOf depth skip seen).dropWhile fun b => limit ≤ depth b).head? =
      nearest depth skip seen limit := by
  rw [← find?_stackOf]
  apply head?_dropWhile
  intro b
  simp only [← decide_not, Nat.not_lt]

theorem nearest_eq_some {seen : List α} {limit : ℕ} {b : α}
    (h : nearest depth skip seen limit = some b) : ∃ before behind,
      seen = before ++ b :: behind ∧ skip b = false ∧ depth b < limit ∧
        ∀ c ∈ behind, skip c = false → limit ≤ depth c := by
  obtain ⟨hb, front, back, hsplit, hfront⟩ := List.find?_eq_some_iff_append.mp h
  simp only [Bool.and_eq_true, Bool.not_eq_true', decide_eq_true_eq] at hb
  refine ⟨back.reverse, front.reverse, ?_, hb.1, hb.2, ?_⟩
  · have hseen := congrArg List.reverse hsplit
    rw [List.reverse_reverse] at hseen
    rw [hseen]
    simp
  · intro c hc hskip
    have hnot := hfront c (List.mem_reverse.mp hc)
    simpa [hskip] using hnot

theorem nearest_isSome {seen : List α} {limit : ℕ} {b : α} (hb : b ∈ seen)
    (hskip : skip b = false) (hlimit : depth b < limit) :
    (nearest depth skip seen limit).isSome = true := by
  unfold nearest
  rw [List.find?_isSome]
  exact ⟨b, List.mem_reverse.mpr hb, by simp [hskip, hlimit]⟩

end Stacks

section Cycles

theorem transGen_within {α : Type} {R : α → α → Prop} {p : α → Prop} (hp : ∀ a b, R a b → p a)
    {a b : α} (h : TransGen R a b) (hb : p b) : TransGen (fun a b => R a b ∧ p b) a b := by
  induction h with
  | single hab => exact .single ⟨hab, hb⟩
  | tail _ hbc ih => exact (ih (hp _ _ hbc)).tail ⟨hbc, hb⟩

variable {up down : ℕ → ℕ → Prop}

/-- Parents above, and elements without one that take a parent below. No parent above is taken
across such an element. -/
structure TwoWay (up down : ℕ → ℕ → Prop) : Prop where
  above : ∀ a b, up a b → b < a
  below : ∀ r p, down r p → r < p
  one : ∀ a b c, up a b → up a c → b = c
  root : ∀ r p, down r p → ∀ b, ¬up r b
  crossing : ∀ r p, down r p → ∀ a b, up a b → b < r → a ≤ r

variable (h : TwoWay up down)

include h

theorem exists_root (a : ℕ) : ∃ r, ReflTransGen up a r ∧ ∀ b, ¬up r b := by
  induction a using Nat.strongRecOn with
  | _ a ih =>
    by_cases hroot : ∀ b, ¬up a b
    · exact ⟨a, .refl, hroot⟩
    · simp only [not_forall, not_not] at hroot
      obtain ⟨b, hab⟩ := hroot
      obtain ⟨r, hbr, hr⟩ := ih b (h.above a b hab)
      exact ⟨r, .head hab hbr, hr⟩

theorem root_unique {a r s : ℕ} (hr : ReflTransGen up a r) (hs : ReflTransGen up a s)
    (hroot : ∀ b, ¬up r b) (hroot' : ∀ b, ¬up s b) : r = s := by
  induction hr using ReflTransGen.head_induction_on with
  | refl =>
    rcases hs.cases_head with rfl | ⟨b, hb, -⟩
    · rfl
    · exact absurd hb (hroot b)
  | head hab _ ih =>
    rcases hs.cases_head with rfl | ⟨c, hc, hcs⟩
    · exact absurd hab (hroot' _)
    · obtain rfl := h.one _ _ _ hab hc
      exact ih hcs

theorem le_root {r p a s : ℕ} (hdown : down r p) (ha : r ≤ a) (hs : ReflTransGen up a s) :
    r ≤ s := by
  induction hs with
  | refl => exact ha
  | @tail b c _ hbc ih =>
    by_contra hlt
    have hle := h.crossing r p hdown b c hbc (by omega)
    obtain rfl : b = r := by omega
    exact h.root b p hdown c hbc

theorem acyclic_iff : (∀ a, ¬TransGen (fun a b => up a b ∨ down a b) a a) ↔
    ∀ r p, down r p → ¬ReflTransGen up p r := by
  constructor
  · intro hacyclic r p hdown hup
    apply hacyclic r
    exact .head' (.inr hdown) (hup.lift id fun _ _ hab => .inl hab)
  · intro hfree
    have hpotential {a b : ℕ} (hab : TransGen (fun a b => up a b ∨ down a b) a b) {r : ℕ}
        (har : ReflTransGen up a r) (hr : ∀ c, ¬up r c) :
        ∃ s, ReflTransGen up b s ∧ (∀ c, ¬up s c) ∧ (r < s ∨ r = s ∧ b < a) := by
      have hstep {a b : ℕ} (hab : up a b ∨ down a b) {r : ℕ} (har : ReflTransGen up a r)
          (hr : ∀ c, ¬up r c) :
          ∃ s, ReflTransGen up b s ∧ (∀ c, ¬up s c) ∧ (r < s ∨ r = s ∧ b < a) := by
        rcases hab with hab | hab
        · obtain ⟨s, hbs, hs⟩ := exists_root h b
          have hsame := root_unique h har (.head hab hbs) hr hs
          exact ⟨s, hbs, hs, .inr ⟨hsame, h.above a b hab⟩⟩
        · obtain rfl := root_unique h har .refl hr (h.root a b hab)
          obtain ⟨s, hbs, hs⟩ := exists_root h b
          have hbelow := h.below _ _ hab
          have hle := le_root h hab (by omega) hbs
          have hne : r ≠ s := by
            rintro rfl
            exact hfree r b hab hbs
          exact ⟨s, hbs, hs, .inl (by omega)⟩
      induction hab with
      | single hab => exact hstep hab har hr
      | tail _ hbc ih =>
        obtain ⟨s, hbs, hs, hrs⟩ := ih
        obtain ⟨t, hct, ht, hst⟩ := hstep hbc hbs hs
        exact ⟨t, hct, ht, by omega⟩
    intro a hcycle
    obtain ⟨r, har, hr⟩ := exists_root h a
    obtain ⟨s, has, hs, hlt⟩ := hpotential hcycle har hr
    have hsame := root_unique h har has hr hs
    omega

end Cycles

end FinanceContext.ParentScans
