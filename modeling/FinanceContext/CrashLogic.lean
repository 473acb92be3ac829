import Mathlib.Data.List.Basic
import Mathlib.Order.Basic

/-!
Plans of atomic writes and the states a crash can leave behind. A plan reads
the state once and lists the writes it will make; a triple says what holds when
all of them are made and what holds after any prefix of them.
-/

namespace FinanceContext.CrashLogic

variable {σ ω : Type}

abbrev Plan (σ ω : Type) := σ → List ω

def apply (act : ω → σ → σ) (ws : List ω) (s : σ) : σ :=
  ws.foldl (fun t w => act w t) s

def finish (act : ω → σ → σ) (p : Plan σ ω) (s : σ) : σ := apply act (p s) s

def crash (act : ω → σ → σ) (p : Plan σ ω) (k : ℕ) (s : σ) : σ := apply act ((p s).take k) s

def seq (act : ω → σ → σ) (p q : Plan σ ω) : Plan σ ω := fun s => p s ++ q (finish act p s)

def cond (b : σ → Bool) (p q : Plan σ ω) : Plan σ ω := fun s => if b s then p s else q s

/-- `finish` describes the completed plan, `crash` every state on the way to it. -/
structure Triple (act : ω → σ → σ) (P : σ → Prop) (p : Plan σ ω) (Q C : σ → Prop) : Prop where
  finish : ∀ s, P s → Q (finish act p s)
  crash : ∀ s, P s → ∀ k, C (crash act p k s)

variable {act : ω → σ → σ}

@[simp] theorem apply_nil (s : σ) : apply act [] s = s := rfl

@[simp] theorem apply_cons (w : ω) (ws : List ω) (s : σ) :
    apply act (w :: ws) s = apply act ws (act w s) := rfl

theorem apply_append (ws vs : List ω) (s : σ) :
    apply act (ws ++ vs) s = apply act vs (apply act ws s) := by
  simp [apply, List.foldl_append]

theorem crash_of_length_le (p : Plan σ ω) (k : ℕ) (s : σ) (h : (p s).length ≤ k) :
    crash act p k s = finish act p s := by
  rw [crash, finish, List.take_of_length_le h]

@[simp] theorem crash_zero (p : Plan σ ω) (s : σ) : crash act p 0 s = s := by
  simp [crash]

theorem finish_seq (p q : Plan σ ω) (s : σ) :
    finish act (seq act p q) s = finish act q (finish act p s) := by
  rw [finish, seq, apply_append]
  rfl

theorem crash_seq (p q : Plan σ ω) (k : ℕ) (s : σ) :
    crash act (seq act p q) k s =
      if k ≤ (p s).length then crash act p k s
      else crash act q (k - (p s).length) (finish act p s) := by
  rw [crash, seq, List.take_append, apply_append]
  split_ifs with h
  · have hz : k - (p s).length = 0 := by omega
    rw [hz, List.take_zero, apply_nil]
    rfl
  · have hp : (p s).take k = p s := List.take_of_length_le (by omega)
    rw [hp]
    rfl

theorem apply_invariant {I : σ → Prop} (ws : List ω) (s : σ)
    (h : ∀ w ∈ ws, ∀ t, I t → I (act w t)) (hs : I s) : I (apply act ws s) := by
  induction ws generalizing s with
  | nil => exact hs
  | cons w ws ih =>
    exact ih _ (fun v hv => h v (List.mem_cons_of_mem _ hv)) (h w List.mem_cons_self s hs)

theorem crash_invariant {I : σ → Prop} (p : Plan σ ω) (k : ℕ) (s : σ)
    (h : ∀ w ∈ (p s).take k, ∀ t, I t → I (act w t)) (hs : I s) : I (crash act p k s) :=
  apply_invariant _ s h hs

theorem apply_frame {α : Type} (view : σ → α) (ws : List ω) (s : σ)
    (h : ∀ w ∈ ws, ∀ t, view (act w t) = view t) : view (apply act ws s) = view s :=
  apply_invariant (I := fun t => view t = view s) ws s
    (fun w hw t ht => (h w hw t).trans ht) rfl

theorem apply_of_mem {I : σ → Prop} {ws : List ω} {w : ω} (hw : w ∈ ws) (s : σ)
    (hset : ∀ t, I (act w t)) (h : ∀ v ∈ ws, ∀ t, I t → I (act v t)) : I (apply act ws s) := by
  obtain ⟨before, rest, rfl⟩ := List.append_of_mem hw
  rw [apply_append, apply_cons]
  refine apply_invariant rest _ (fun v hv t ht => h v ?_ t ht) (hset _)
  exact List.mem_append_right _ (List.mem_cons_of_mem _ hv)

/-- Every write the plan can list has the property. -/
def Emits (P : ω → Prop) (p : Plan σ ω) : Prop := ∀ s, ∀ w ∈ p s, P w

namespace Emits

variable {P : ω → Prop} {p q : Plan σ ω}

theorem nil : Emits P fun _ : σ => [] := fun _ _ hw => absurd hw List.not_mem_nil

theorem map {α : Type} {f : α → ω} (hf : ∀ a, P (f a)) (as : List α) :
    Emits P fun _ : σ => as.map f := by
  intro s w hw
  obtain ⟨a, -, rfl⟩ := List.mem_map.mp hw
  exact hf a

theorem seq (hp : Emits P p) (hq : Emits P q) : Emits P (seq act p q) := by
  intro s w hw
  rcases List.mem_append.mp hw with hw | hw
  · exact hp s w hw
  · exact hq _ w hw

theorem cond {b : σ → Bool} (hp : Emits P p) (hq : Emits P q) : Emits P (cond b p q) := by
  intro s w hw
  unfold CrashLogic.cond at hw
  split_ifs at hw
  · exact hp s w hw
  · exact hq s w hw

theorem mono {Q : ω → Prop} (h : ∀ w, P w → Q w) (hp : Emits P p) : Emits Q p :=
  fun s w hw => h w (hp s w hw)

theorem crash_invariant {I : σ → Prop} (hp : Emits P p) (h : ∀ w, P w → ∀ t, I t → I (act w t))
    (k : ℕ) (s : σ) (hs : I s) : I (crash act p k s) :=
  CrashLogic.crash_invariant p k s (fun w hw => h w (hp s w (List.mem_of_mem_take hw))) hs

theorem finish_invariant {I : σ → Prop} (hp : Emits P p)
    (h : ∀ w, P w → ∀ t, I t → I (act w t)) (s : σ) (hs : I s) : I (finish act p s) :=
  apply_invariant _ s (fun w hw => h w (hp s w hw)) hs

end Emits

namespace Triple

variable {P Q R C : σ → Prop} {p q : Plan σ ω}

theorem seq (h : Triple act P p Q C) (h' : Triple act Q q R C) :
    Triple act P (seq act p q) R C := by
  refine ⟨fun s hs => ?_, fun s hs k => ?_⟩
  · rw [finish_seq]
    exact h'.finish _ (h.finish s hs)
  · rw [crash_seq]
    split_ifs
    · exact h.crash s hs k
    · exact h'.crash _ (h.finish s hs) _

theorem cond {b : σ → Bool} (h : Triple act (fun s => P s ∧ b s = true) p Q C)
    (h' : Triple act (fun s => P s ∧ b s = false) q Q C) : Triple act P (cond b p q) Q C := by
  refine ⟨fun s hs => ?_, fun s hs k => ?_⟩ <;> cases hb : b s
  · simpa [CrashLogic.finish, CrashLogic.cond, hb] using h'.finish s ⟨hs, hb⟩
  · simpa [CrashLogic.finish, CrashLogic.cond, hb] using h.finish s ⟨hs, hb⟩
  · simpa [CrashLogic.crash, CrashLogic.cond, hb] using h'.crash s ⟨hs, hb⟩ k
  · simpa [CrashLogic.crash, CrashLogic.cond, hb] using h.crash s ⟨hs, hb⟩ k

theorem nil (h : ∀ s, P s → Q s) (hc : ∀ s, P s → C s) : Triple act P (fun _ => []) Q C :=
  ⟨fun s hs => h s hs, fun s hs k => by simpa [CrashLogic.crash] using hc s hs⟩

end Triple

end FinanceContext.CrashLogic
