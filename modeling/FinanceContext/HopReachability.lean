import Mathlib.Logic.Relation

/-!
Graphs with hops: vertices that only stand for a set of other vertices. Walking through the
hops reaches the same vertices as one edge for each member of a hop.
-/

namespace FinanceContext.HopReachability

open Relation

variable {V : Type} {R E : V → V → Prop} {IsCell : V → Prop} {below : V → V → Prop}

/-- `R` is `E` with some of its edges led through hops; `below h c` says that the cell `c` is
a member of the hop `h`. -/
structure Contracts (R E : V → V → Prop) (IsCell : V → Prop) (below : V → V → Prop) : Prop where
  fromCell : ∀ a b, IsCell a → R a b →
    (IsCell b → E a b) ∧ (¬IsCell b → ∀ c, below b c → E a c)
  fromHop : ∀ h b, ¬IsCell h → R h b →
    (IsCell b → below h b) ∧ (¬IsCell b → ∀ c, below b c → below h c)
  edge : ∀ a c, IsCell a → E a c → IsCell c ∧ TransGen R a c

theorem Contracts.reached (h : Contracts R E IsCell below) {a x : V} (ha : IsCell a)
    (hx : ReflTransGen R a x) :
    (IsCell x → ReflTransGen E a x) ∧ (¬IsCell x → ∀ c, below x c → ReflTransGen E a c) := by
  induction hx with
  | refl => exact ⟨fun _ => .refl, fun hhop => absurd ha hhop⟩
  | @tail x y _ hxy ih =>
    by_cases hcell : IsCell x
    · obtain ⟨hto, hthrough⟩ := h.fromCell x y hcell hxy
      have hax := ih.1 hcell
      exact ⟨fun hy => hax.tail (hto hy), fun hy c hc => hax.tail (hthrough hy c hc)⟩
    · obtain ⟨hto, hthrough⟩ := h.fromHop x y hcell hxy
      have hax := ih.2 hcell
      exact ⟨fun hy => hax y (hto hy), fun hy c hc => hax c (hthrough hy c hc)⟩

theorem Contracts.reach_iff (h : Contracts R E IsCell below) {a c : V} (ha : IsCell a)
    (hc : IsCell c) : ReflTransGen R a c ↔ ReflTransGen E a c := by
  constructor
  · intro hac
    exact (h.reached ha hac).1 hc
  · intro hac
    have hboth : IsCell c ∧ ReflTransGen R a c := by
      clear hc
      induction hac with
      | refl => exact ⟨ha, .refl⟩
      | tail _ hxy ih =>
        obtain ⟨hy, hwalk⟩ := h.edge _ _ ih.1 hxy
        exact ⟨hy, ih.2.trans hwalk.to_reflTransGen⟩
    exact hboth.2

/-- Two vertices of one strongly connected component. -/
def Mutual (R : V → V → Prop) (a b : V) : Prop := ReflTransGen R a b ∧ ReflTransGen R b a

theorem Contracts.mutual_iff (h : Contracts R E IsCell below) {a c : V} (ha : IsCell a)
    (hc : IsCell c) : Mutual R a c ↔ Mutual E a c :=
  and_congr (h.reach_iff ha hc) (h.reach_iff hc ha)

theorem Mutual.symm {a b : V} (h : Mutual R a b) : Mutual R b a := ⟨h.2, h.1⟩

theorem Mutual.trans {a b c : V} (h : Mutual R a b) (h' : Mutual R b c) : Mutual R a c :=
  ⟨h.1.trans h'.1, h'.2.trans h.2⟩

theorem Mutual.exists_edge {a b : V} (h : Mutual R a b) (hab : a ≠ b) :
    ∃ c, R a c ∧ ReflTransGen R c a := by
  rcases h.1.cases_head with rfl | ⟨c, hac, hcb⟩
  · exact absurd rfl hab
  · exact ⟨c, hac, hcb.trans h.2⟩

end FinanceContext.HopReachability
