import Mathlib.Order.Basic

/-!
Histories of a deterministic system: lists of events, oldest first, and what holds
of every event of one.
-/

namespace FinanceContext.Histories

variable {σ ε : Type}

def after (step : ε → σ → σ) (es : List ε) (s : σ) : σ := es.foldl (fun t e => step e t) s

/-- `ok` holds of each event in the state where it happens. -/
def Along (step : ε → σ → σ) (ok : ε → σ → Prop) : List ε → σ → Prop
  | [], _ => True
  | e :: es, s => ok e s ∧ Along step ok es (step e s)

variable {step : ε → σ → σ} {I : σ → Prop} {ok ok' : ε → σ → Prop}

theorem after_append (es es' : List ε) (s : σ) :
    after step (es ++ es') s = after step es' (after step es s) := List.foldl_append

theorem along_append {es es' : List ε} {s : σ} :
    Along step ok (es ++ es') s ↔ Along step ok es s ∧ Along step ok es' (after step es s) := by
  induction es generalizing s with
  | nil => exact ⟨fun h => ⟨trivial, h⟩, fun h => h.2⟩
  | cons e es ih =>
    refine ⟨fun h => ?_, fun h => ⟨h.1.1, ih.mpr ⟨h.1.2, h.2⟩⟩⟩
    obtain ⟨hes, hes'⟩ := ih.mp h.2
    exact ⟨⟨h.1, hes⟩, hes'⟩

theorem Along.imp (hok : ∀ e s, I s → ok e s → ok' e s)
    (hstep : ∀ e s, I s → ok e s → I (step e s)) {es : List ε} {s : σ} (hs : I s)
    (h : Along step ok es s) : Along step ok' es s := by
  induction es generalizing s with
  | nil => trivial
  | cons e es ih => exact ⟨hok e s hs h.1, ih (hstep e s hs h.1) h.2⟩

theorem along_iff_along (hiff : ∀ e s, I s → (ok e s ↔ ok' e s))
    (hstep : ∀ e s, I s → ok e s → I (step e s)) (es : List ε) (s : σ) (hs : I s) :
    Along step ok es s ↔ Along step ok' es s := by
  refine ⟨Along.imp (fun e t ht => (hiff e t ht).mp) hstep hs, Along.imp ?_ ?_ hs⟩
  · exact fun e t ht => (hiff e t ht).mpr
  · exact fun e t ht h => hstep e t ht ((hiff e t ht).mpr h)

theorem after_invariant (hstep : ∀ e s, I s → ok e s → I (step e s)) {es : List ε} {s : σ}
    (hs : I s) (h : Along step ok es s) : I (after step es s) := by
  induction es generalizing s with
  | nil => exact hs
  | cons e es ih => exact ih (hstep e s hs h.1) h.2

end FinanceContext.Histories
