import Mathlib.Algebra.Group.Nat.Defs
import Mathlib.Algebra.Group.Pi.Basic
import Mathlib.Algebra.GroupWithZero.Nat
import Mathlib.Algebra.Order.Pi
import Mathlib.Data.List.Count

/-!
Computations with a state that may fail, and what they add to a log kept in the state: each
entry is of some class, and a budget bounds the entries of every class. The rules compose
budgets along a computation whether it fails or not.
-/

namespace FinanceContext.MeteredRuns

variable {ε σ ρ κ α β : Type} [DecidableEq κ]

abbrev Run (ε σ α : Type) := ExceptT ε (StateM σ) α

def Run.from (m : Run ε σ α) (s : σ) : Except ε α × σ := m.run.run s

/-- What a run has to keep: where the log is, which entries it may hold, which errors may
come out of it, and the invariant of the state. -/
structure Meter (ε σ ρ κ : Type) where
  log : σ → List ρ
  of : ρ → κ
  allowed : ρ → Prop
  expected : ε → Prop
  inv : σ → Prop

def Ends (meter : Meter ε σ ρ κ) (post : α → Prop) : Except ε α → Prop
  | .ok a => post a
  | .error e => meter.expected e

def Spends (meter : Meter ε σ ρ κ) (budget : κ → ℕ) (m : Run ε σ α) (post : α → Prop) : Prop :=
  ∀ s, meter.inv s → meter.inv (m.from s).2 ∧ Ends meter post (m.from s).1 ∧
    ∃ added, meter.log (m.from s).2 = meter.log s ++ added ∧
      (∀ r ∈ added, meter.allowed r) ∧ ∀ k, added.countP (meter.of · = k) ≤ budget k

theorem from_bind (m : Run ε σ α) (f : α → Run ε σ β) (s : σ) :
    (m >>= f).from s = match m.from s with
      | (.ok a, s') => (f a).from s'
      | (.error e, s') => (.error e, s') := by
  simp only [Run.from, ExceptT.run_bind, StateT.run_bind]
  change (match (m.run.run s).1 with
    | .ok a => (f a).run
    | .error e => pure (.error e)).run (m.run.run s).2 = _
  rcases m.run.run s with ⟨result | a, s'⟩
  · rfl
  · rfl

variable {meter : Meter ε σ ρ κ} {budget budget' : κ → ℕ} {m : Run ε σ α} {post : α → Prop}

theorem Spends.mono (h : Spends meter budget m post) (hle : budget ≤ budget')
    {post' : α → Prop} (hpost : ∀ a, post a → post' a) : Spends meter budget' m post' := by
  intro s hs
  obtain ⟨hinv, hends, added, hlog, hallowed, hcount⟩ := h s hs
  refine ⟨hinv, ?_, added, hlog, hallowed, fun k => (hcount k).trans (hle k)⟩
  cases hresult : (m.from s).1 with
  | ok a =>
    rw [hresult] at hends
    exact hpost a hends
  | error e =>
    rw [hresult] at hends
    exact hends

theorem spends_pure (a : α) (h : post a) : Spends meter budget (pure a) post := by
  intro s hs
  refine ⟨hs, h, [], ?_, by simp, by simp⟩
  exact (List.append_nil _).symm

theorem spends_throw (e : ε) (h : meter.expected e) :
    Spends meter budget (throw e : Run ε σ α) post := by
  intro s hs
  refine ⟨hs, h, [], ?_, by simp, by simp⟩
  exact (List.append_nil _).symm

theorem Spends.bind {f : α → Run ε σ β} {post' : β → Prop} (hm : Spends meter budget m post)
    (hf : ∀ a, post a → Spends meter budget' (f a) post') :
    Spends meter (budget + budget') (m >>= f) post' := by
  intro s hs
  obtain ⟨hinv, hends, added, hlog, hallowed, hcount⟩ := hm s hs
  rw [from_bind]
  rcases hresult : m.from s with ⟨e | a, s'⟩
  · rw [hresult] at hinv hends hlog
    refine ⟨hinv, hends, added, hlog, hallowed, fun k => ?_⟩
    have hk := hcount k
    simp only [Pi.add_apply]
    omega
  · rw [hresult] at hinv hends hlog
    obtain ⟨hinv', hends', added', hlog', hallowed', hcount'⟩ := hf a hends s' hinv
    refine ⟨hinv', hends', added ++ added', ?_, ?_, fun k => ?_⟩
    · rw [hlog', hlog, List.append_assoc]
    · intro r hr
      rcases List.mem_append.mp hr with hr | hr
      · exact hallowed r hr
      · exact hallowed' r hr
    · have hk := hcount k
      have hk' := hcount' k
      rw [List.countP_append]
      simp only [Pi.add_apply]
      omega

theorem Spends.then {f : α → Run ε σ β} {post' : β → Prop} (hm : Spends meter 0 m post)
    (hf : ∀ a, post a → Spends meter budget (f a) post') :
    Spends meter budget (m >>= f) post' := by
  have h := hm.bind hf
  rwa [zero_add] at h

theorem Spends.finally {f : α → Run ε σ β} {post' : β → Prop} (hm : Spends meter budget m post)
    (hf : ∀ a, post a → Spends meter 0 (f a) post') :
    Spends meter budget (m >>= f) post' := by
  have h := hm.bind hf
  rwa [add_zero] at h

theorem spends_ite {c : Prop} [Decidable c] {m' : Run ε σ α} (h : c → Spends meter budget m post)
    (h' : ¬c → Spends meter budget m' post) :
    Spends meter budget (if c then m else m') post := by
  split_ifs with hc
  · exact h hc
  · exact h' hc

theorem spends_liftExcept (x : Except ε α) (hok : ∀ a, x = .ok a → post a)
    (herror : ∀ e, x = .error e → meter.expected e) :
    Spends meter budget (liftExcept x : Run ε σ α) post := by
  cases x with
  | ok a => exact spends_pure a (hok a rfl)
  | error e => exact spends_throw e (herror e rfl)

theorem spends_get {f : σ → Run ε σ α} (h : ∀ s, meter.inv s → Spends meter budget (f s) post) :
    Spends meter budget (get >>= f) post := fun s hs => h s hs s hs

theorem spends_modify {g : σ → σ} (hinv : ∀ s, meter.inv s → meter.inv (g s))
    (hlog : ∀ s, meter.log (g s) = meter.log s) :
    Spends meter budget (modify g : Run ε σ Unit) fun _ => True := by
  intro s hs
  refine ⟨hinv s hs, trivial, [], ?_, by simp, by simp⟩
  rw [List.append_nil]
  exact hlog s

end FinanceContext.MeteredRuns
