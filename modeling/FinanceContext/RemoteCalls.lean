import Mathlib.Logic.Relation

/-!
Programs that call a remote party whose answers are not determined by the program: what
holds in every state they pass through, whatever is answered and wherever they stop.
-/

namespace FinanceContext.RemoteCalls

open Relation

inductive Prog (ω ρ α : Type) where
  | done (a : α)
  | call (op : ω) (next : ρ → Prog ω ρ α)

variable {ω ρ σ ε α β : Type}

namespace Prog

def bind : Prog ω ρ α → (α → Prog ω ρ β) → Prog ω ρ β
  | done a, f => f a
  | call op next, f => call op fun ans => (next ans).bind f

instance : Monad (Prog ω ρ) where
  pure := done
  bind := bind

def ask (op : ω) : Prog ω ρ ρ := call op done

end Prog

def Prog.exec (party : ω → σ → ρ × σ) : Prog ω ρ α → σ → α × σ
  | done a, s => (a, s)
  | call op next, s => (next (party op s).1).exec party (party op s).2

/-- `I` holds in every state the program passes through, and `Q` where it ends. -/
def Holds (respond : ω → σ → ρ → σ → Prop) (I : σ → Prop) :
    Prog ω ρ α → (α → σ → Prop) → σ → Prop
  | .done a, Q, s => I s ∧ Q a s
  | .call op next, Q, s => I s ∧ ∀ ans t, respond op s ans t → Holds respond I (next ans) Q t

inductive Step (respond : ω → σ → ρ → σ → Prop) :
    Prog ω ρ α × σ → Prog ω ρ α × σ → Prop
  | call {op : ω} {next : ρ → Prog ω ρ α} {s t : σ} {ans : ρ} (h : respond op s ans t) :
    Step respond (.call op next, s) (next ans, t)

/-- The program goes from `s` to `t`, or is stopped there. -/
def Passes (respond : ω → σ → ρ → σ → Prop) (p : Prog ω ρ α) (s t : σ) : Prop :=
  ∃ q, ReflTransGen (Step respond) (p, s) (q, t)

variable {respond : ω → σ → ρ → σ → Prop} {I : σ → Prop}

theorem passes_exec {party : ω → σ → ρ × σ}
    (h : ∀ op s, respond op s (party op s).1 (party op s).2) (p : Prog ω ρ α) (s : σ) :
    Passes respond p s (p.exec party s).2 := by
  induction p generalizing s with
  | done a => exact ⟨.done a, .refl⟩
  | call op next ih =>
    obtain ⟨q, hrun⟩ := ih (party op s).1 (party op s).2
    exact ⟨q, .head (.call (h op s)) hrun⟩

namespace Holds

variable {p : Prog ω ρ α} {Q Q' : α → σ → Prop} {s t : σ}

theorem here (h : Holds respond I p Q s) : I s := by
  cases p with
  | done a => exact h.1
  | call op next => exact h.1

theorem mono (h : Holds respond I p Q s) (hQ : ∀ a t, I t → Q a t → Q' a t) :
    Holds respond I p Q' s := by
  induction p generalizing s with
  | done a => exact ⟨h.1, hQ a s h.1 h.2⟩
  | call op next ih => exact ⟨h.1, fun ans t ht => ih ans (h.2 ans t ht)⟩

theorem bind {f : α → Prog ω ρ β} {R : β → σ → Prop}
    (h : Holds respond I p (fun a t => Holds respond I (f a) R t) s) :
    Holds respond I (p >>= f) R s := by
  induction p generalizing s with
  | done a => exact h.2
  | call op next ih => exact ⟨h.1, fun ans t ht => ih ans (h.2 ans t ht)⟩

theorem step {q : Prog ω ρ α} (h : Holds respond I p Q s)
    (hstep : Step respond (p, s) (q, t)) : Holds respond I q Q t := by
  cases hstep with
  | call hans => exact h.2 _ t hans

theorem passes (h : Holds respond I p Q s) (hpass : Passes respond p s t) : I t := by
  obtain ⟨q, hrun⟩ := hpass
  have hlast : ∀ y, ReflTransGen (Step respond) (p, s) y → Holds respond I y.1 Q y.2 := by
    intro y hy
    induction hy with
    | refl => exact h
    | tail _ hstep ih => exact ih.step hstep
  exact (hlast _ hrun).here

end Holds

/-- `Holds` for a program that can raise: `Q` where it returns, `E` where it raises. -/
def Ends (respond : ω → σ → ρ → σ → Prop) (I : σ → Prop) (x : ExceptT ε (Prog ω ρ) α)
    (Q : α → σ → Prop) (E : ε → σ → Prop) (s : σ) : Prop :=
  Holds respond I x.run (fun result t =>
    match result with
    | .ok a => Q a t
    | .error e => E e t) s

namespace Ends

variable {x : ExceptT ε (Prog ω ρ) α} {Q Q' : α → σ → Prop} {E E' : ε → σ → Prop} {s : σ}

theorem pure {a : α} (hI : I s) (hQ : Q a s) :
    Ends respond I (Pure.pure a : ExceptT ε (Prog ω ρ) α) Q E s := ⟨hI, hQ⟩

theorem throw {e : ε} (hI : I s) (hE : E e s) :
    Ends respond I (MonadExcept.throw e : ExceptT ε (Prog ω ρ) α) Q E s := ⟨hI, hE⟩

theorem mono (h : Ends respond I x Q E s) (hQ : ∀ a t, I t → Q a t → Q' a t)
    (hE : ∀ e t, I t → E e t → E' e t) : Ends respond I x Q' E' s := by
  apply Holds.mono h
  intro result t ht hresult
  cases result with
  | ok a => exact hQ a t ht hresult
  | error e => exact hE e t ht hresult

theorem bind {f : α → ExceptT ε (Prog ω ρ) β} {R : β → σ → Prop}
    (h : Ends respond I x (fun a t => Ends respond I (f a) R E t) E s) :
    Ends respond I (x >>= f) R E s := by
  apply Holds.bind
  apply Holds.mono h
  intro result t ht hresult
  cases result with
  | ok a => exact hresult
  | error e => exact ⟨ht, hresult⟩

theorem tryCatch {handler : ε → ExceptT ε (Prog ω ρ) α}
    (h : Ends respond I x Q (fun e t => Ends respond I (handler e) Q E t) s) :
    Ends respond I (MonadExcept.tryCatch x handler) Q E s := by
  apply Holds.bind
  apply Holds.mono h
  intro result t ht hresult
  cases result with
  | ok a => exact ⟨ht, hresult⟩
  | error e => exact hresult

theorem ask {op : ω} {R : ρ → σ → Prop} (hI : I s)
    (h : ∀ ans t, respond op s ans t → I t ∧ R ans t) :
    Ends respond I (liftM (Prog.ask op) : ExceptT ε (Prog ω ρ) ρ) R E s :=
  ⟨hI, fun ans t ht => h ans t ht⟩

end Ends

/-- What a run of calls reaches: each call starts where the one before it ended or was
stopped. -/
def Reached {κ : Type} (respond : κ → ω → σ → ρ → σ → Prop) (prog : κ → Prog ω ρ α) (s t : σ) :
    Prop := ReflTransGen (fun s t => ∃ c, Passes (respond c) (prog c) s t) s t

theorem reached_invariant {κ : Type} {respond : κ → ω → σ → ρ → σ → Prop}
    {prog : κ → Prog ω ρ α} (h : ∀ c s, I s → Holds (respond c) I (prog c) (fun _ _ => True) s)
    {s t : σ} (hs : I s) (hreach : Reached respond prog s t) : I t := by
  induction hreach with
  | refl => exact hs
  | tail _ hcall ih =>
    obtain ⟨c, hpass⟩ := hcall
    exact (h c _ ih).passes hpass

end FinanceContext.RemoteCalls
