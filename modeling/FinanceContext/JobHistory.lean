import FinanceContext.Histories
import FinanceContext.PipelineRun

namespace FinanceContext

open CrashLogic Histories

/-- One shared book and the session directories of its job. -/
structure System (S H : Type) where
  book : Book H
  dests : S → Dest H

inductive Action (H : Type) where
  | post (code : Code H) (upload : Upload)
  | run (code : Code H) (launch : Launch)
  | fail (jobId error : String) (generation : ℕ) (detail : Option String)
  | finish (jobId : String) (generation : ℕ)
  | busy (cap : ℕ) (jobId : String) (generation : ℕ)

/-- An action of one session; `stop` is the number of writes after which its
process ended, by an error or by a kill. -/
structure Event (S H : Type) where
  session : S
  action : Action H
  stop : Option ℕ := none

variable {S H : Type}

def Action.plan [DecidableEq H] : Action H → Plan (Disk H) (Op H)
  | post code upload => enqueueOrReuse code upload
  | run code launch => pipelineRun code launch
  | fail jobId error generation detail => failJob jobId error generation detail
  | finish jobId generation => finishChild jobId generation
  | busy cap jobId generation => requeueSharedCache cap jobId generation

namespace System

def uploaded (source legacy : Bool) : System S H where
  book := ⟨source, legacy, fun _ => none, none⟩
  dests := fun _ => ⟨none, fun _ => none⟩

def disk (y : System S H) (s : S) : Disk H := ⟨y.book, y.dests s⟩

section

variable [DecidableEq S]

def put (y : System S H) (s : S) (d : Disk H) : System S H :=
  ⟨d.book, Function.update y.dests s d.dest⟩

@[simp] theorem book_put (y : System S H) (s : S) (d : Disk H) : (y.put s d).book = d.book := rfl

@[simp] theorem dests_put_self (y : System S H) (s : S) (d : Disk H) :
    (y.put s d).dests s = d.dest := Function.update_self ..

theorem dests_put_of_ne (y : System S H) {s t : S} (h : t ≠ s) (d : Disk H) :
    (y.put s d).dests t = y.dests t := Function.update_of_ne h ..

end

end System

namespace Event

variable [DecidableEq H]

/-- The disk of the event's session after `k` of its writes. -/
def diskAt (e : Event S H) (k : ℕ) (y : System S H) : Disk H :=
  crash act e.action.plan k (y.disk e.session)

def writes (e : Event S H) (y : System S H) : ℕ :=
  let all := (e.action.plan (y.disk e.session)).length
  match e.stop with
  | none => all
  | some k => min k all

theorem diskAt_finish (e : Event S H) (y : System S H) (h : e.stop = none) :
    e.diskAt (e.writes y) y = CrashLogic.finish act e.action.plan (y.disk e.session) := by
  simp only [diskAt, writes, h]
  exact crash_of_length_le _ _ _ (Nat.le_refl _)

variable [DecidableEq S]

def step (e : Event S H) (y : System S H) : System S H :=
  y.put e.session (e.diskAt (e.writes y) y)

/-- The states an event passes through, its own start and end among them. -/
def Throughout (I : System S H → Prop) (e : Event S H) (y : System S H) : Prop :=
  ∀ k ≤ e.writes y, I (y.put e.session (e.diskAt k y))

end Event

def release (compile layout graph publish : ℕ) : Code ℕ where
  hash := fun
    | .compile => compile
    | .layout => layout
    | .graph => graph
    | .publish => publish
  irSchema := 0
  renderer := 0

def upload (rebuild : Bool) : Upload := ⟨"job", "book.xlsx", "digest", rebuild⟩

def launch (generation : ℕ) : Launch where
  payload := ⟨"job", some "book.xlsx", some "digest", generation⟩

end FinanceContext
