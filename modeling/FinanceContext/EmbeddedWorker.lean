import FinanceContext.Histories
import Mathlib.Data.List.Induction
import Mathlib.Logic.Function.Basic

/-!
The worker pool as a child of the server: one thread that starts it again after it exits, and any
number of calls that stop it, step by step and in any order.
-/

namespace FinanceContext.EmbeddedWorker

open Histories

variable {ι : Type}

/-- A child is killed once SIGKILL was sent to it, and exited once it is gone. -/
inductive Child where
  | running
  | killed
  | exited
  deriving DecidableEq

/-- Where `_supervise` stands, with `_spawn` inside it. -/
inductive Thread where
  | looping
  | reading
  | waiting (pid : ℕ)
  | ended (pid : ℕ)
  | resting
  | spawning
  | opening
  | opened (pid : ℕ)
  | shutting (pid : ℕ)
  | done
  deriving DecidableEq

/-- Where a call of `stop_for_serve` stands. -/
inductive Stop where
  | idle
  | entered
  | took (proc : Option ℕ)
  | joining
  | finished
  deriving DecidableEq

def Stop.emptied : Stop → Bool
  | .took _ | .joining | .finished => true
  | .idle | .entered => false

def Stop.settled : Stop → Bool
  | .idle | .joining | .finished => true
  | .entered | .took _ => false

/-- `slot` is `_proc`; the children are numbered in the order they were started in. -/
structure State (ι : Type) where
  stopping : Bool
  slot : Option ℕ
  spawned : ℕ
  child : ℕ → Child
  thread : Thread
  stops : ι → Stop
  registered : Bool

/-- `_spawn` in `start` comes first; the thread goes on where it returns. -/
def start : State ι := ⟨false, none, 0, fun _ => .exited, .spawning, fun _ => .idle, true⟩

/-- The end of `_shutdown_proc`. -/
def shutDown (pid : ℕ) (child : ℕ → Child) : ℕ → Child :=
  if child pid = .exited then child else Function.update child pid .killed

inductive Event (ι : Type) where
  | thread (opens : Bool)
  | stop (i : ι)
  | exit (pid : ℕ)

def Event.isThread : Event ι → Bool
  | .thread _ => true
  | .stop _ | .exit _ => false

/-- One step of the thread; `opens` says whether `Popen` starts a child. -/
def State.supervise (opens : Bool) (s : State ι) : State ι :=
  match s.thread with
  | .looping => { s with thread := if s.stopping then .done else .reading }
  | .reading => { s with thread := (s.slot.map .waiting).getD .resting }
  | .waiting pid => { s with thread := if s.child pid = .exited then .ended pid else .looping }
  | .ended _ => { s with thread := if s.stopping then .done else .resting }
  | .resting => { s with thread := if s.stopping then .done else .spawning }
  | .spawning => { s with thread := if s.stopping then .looping else .opening }
  | .opening =>
    if opens then
      { s with
        spawned := s.spawned + 1
        child := Function.update s.child s.spawned .running
        thread := .opened s.spawned }
    else { s with thread := .looping }
  | .opened pid =>
    if s.stopping then { s with slot := none, thread := .shutting pid }
    else { s with slot := some pid, thread := .looping }
  | .shutting pid => { s with child := shutDown pid s.child, thread := .looping }
  | .done => s

variable [DecidableEq ι]

/-- One step of a call; `thread.join` may return before the thread does. -/
def State.stop (i : ι) (s : State ι) : State ι :=
  match s.stops i with
  | .idle => { s with stopping := true, stops := Function.update s.stops i .entered }
  | .entered => { s with slot := none, stops := Function.update s.stops i (.took s.slot) }
  | .took proc =>
    { s with
      child := (proc.map (shutDown · s.child)).getD s.child
      stops := Function.update s.stops i .joining }
  | .joining => { s with registered := false, stops := Function.update s.stops i .finished }
  | .finished => s

def step : Event ι → State ι → State ι
  | .thread opens, s => s.supervise opens
  | .stop i, s => s.stop i
  | .exit pid, s => { s with child := Function.update s.child pid .exited }

def run (es : List (Event ι)) : State ι := after step es start

/-- `healthy`: `poll` knows of no exit. -/
def State.healthy (s : State ι) : Bool := s.slot.any (s.child · ≠ .exited)

/-- `embedded_worker_ready`. -/
def State.ready (s : State ι) : Option Bool := if s.registered then some s.healthy else none

section Invariant

def Quiet (s : State ι) : Prop := ∀ pid, s.child pid ≠ .running

/-- Who answers for a running child. -/
def Owned (s : State ι) (pid : ℕ) : Prop :=
  s.slot = some pid ∨ s.thread = .opened pid ∨ s.thread = .shutting pid ∨
    ∃ i, s.stops i = .took (some pid)

/-- What the thread has seen of the children. -/
def Knows (s : State ι) : Thread → Prop
  | .looping | .reading | .shutting _ => True
  | .waiting pid | .opened pid => pid + 1 = s.spawned
  | .ended _ | .spawning | .opening => Quiet s
  | .resting => s.stopping = true ∨ Quiet s
  | .done => s.stopping = true

structure Supervised (s : State ι) : Prop where
  flag : s.stopping = true ↔ ∃ i, s.stops i ≠ .idle
  emptied : ∀ i, (s.stops i).emptied = true → s.slot = none
  last : ∀ pid, s.child pid = .running → pid + 1 = s.spawned
  slot : ∀ pid, s.slot = some pid → pid + 1 = s.spawned ∨ ∃ new, s.thread = .opened new
  owned : ∀ pid, s.child pid = .running → Owned s pid
  knows : Knows s s.thread

omit [DecidableEq ι] in
theorem supervised_start : Supervised (start : State ι) where
  flag := by simp [start]
  emptied := fun _ _ => rfl
  last := fun _ h => nomatch h
  slot := fun _ h => nomatch h
  owned := fun _ h => nomatch h
  knows := fun _ h => nomatch h

theorem running_of_shutDown {pid other : ℕ} {child : ℕ → Child}
    (h : shutDown pid child other = .running) : child other = .running ∧ other ≠ pid := by
  unfold shutDown at h
  split_ifs at h with hexited
  · refine ⟨h, ?_⟩
    rintro rfl
    rw [hexited] at h
    cases h
  · by_cases hother : other = pid
    · rw [hother, Function.update_self] at h
      cases h
    · rw [Function.update_of_ne hother] at h
      exact ⟨h, hother⟩

omit [DecidableEq ι] in
theorem Supervised.quiet {s : State ι} (hs : Supervised s) (hslot : s.slot = none)
    (hopened : ∀ pid, s.thread ≠ .opened pid) (hshutting : ∀ pid, s.thread ≠ .shutting pid)
    (htook : ∀ i pid, s.stops i ≠ .took (some pid)) : Quiet s := by
  intro pid hpid
  rcases hs.owned pid hpid with h | h | h | ⟨i, h⟩
  · rw [hslot] at h
    cases h
  · exact hopened pid h
  · exact hshutting pid h
  · exact htook i pid h

omit [DecidableEq ι] in
theorem Supervised.setThread {s : State ι} (hs : Supervised s)
    (hopened : ∀ pid, s.thread ≠ .opened pid) (hshutting : ∀ pid, s.thread ≠ .shutting pid)
    {t : Thread} (hknows : Knows s t) : Supervised { s with thread := t } where
  flag := hs.flag
  emptied := hs.emptied
  last := hs.last
  slot := fun pid h => by
    rcases hs.slot pid h with hlast | ⟨new, hnew⟩
    · exact .inl hlast
    · exact absurd hnew (hopened new)
  owned := fun pid h => by
    rcases hs.owned pid h with h | h | h | h
    · exact .inl h
    · exact absurd h (hopened pid)
    · exact absurd h (hshutting pid)
    · exact .inr (.inr (.inr h))
  knows := hknows

omit [DecidableEq ι] in
theorem Supervised.idle {s : State ι} (hs : Supervised s) (h : ¬s.stopping = true) (i : ι) :
    s.stops i = .idle := by
  by_contra hi
  exact h (hs.flag.mpr ⟨i, hi⟩)

omit [DecidableEq ι] in
theorem Supervised.open {s : State ι} (hs : Supervised s) (hthread : s.thread = .opening) :
    Supervised { s with
      spawned := s.spawned + 1
      child := Function.update s.child s.spawned .running
      thread := .opened s.spawned } := by
  have hquiet : Quiet s := by
    have hknows := hs.knows
    rw [hthread] at hknows
    exact hknows
  have hnew {pid : ℕ} (h : Function.update s.child s.spawned .running pid = .running) :
      pid = s.spawned := by
    by_contra hne
    rw [Function.update_of_ne hne] at h
    exact hquiet pid h
  exact
    { flag := hs.flag
      emptied := hs.emptied
      last := fun pid h => congrArg (· + 1) (hnew h)
      slot := fun _ _ => .inr ⟨s.spawned, rfl⟩
      owned := fun pid h => .inr (.inl (by rw [hnew h]))
      knows := rfl }

omit [DecidableEq ι] in
theorem Supervised.store {s : State ι} (hs : Supervised s) {pid : ℕ}
    (hthread : s.thread = .opened pid) (hstop : ¬s.stopping = true) :
    Supervised { s with slot := some pid, thread := .looping } := by
  have hpid : pid + 1 = s.spawned := by
    have hknows := hs.knows
    rw [hthread] at hknows
    exact hknows
  exact
    { flag := hs.flag
      emptied := fun i h => by
        rw [hs.idle hstop i] at h
        cases h
      last := hs.last
      slot := fun other h => .inl (by rw [← Option.some.inj h]; exact hpid)
      owned := fun other h => .inl (by
        have hother := hs.last other h
        exact congrArg some (by omega))
      knows := trivial }

omit [DecidableEq ι] in
theorem Supervised.discard {s : State ι} (hs : Supervised s) {pid : ℕ}
    (hthread : s.thread = .opened pid) :
    Supervised { s with slot := none, thread := .shutting pid } := by
  have hpid : pid + 1 = s.spawned := by
    have hknows := hs.knows
    rw [hthread] at hknows
    exact hknows
  exact
    { flag := hs.flag
      emptied := fun _ _ => rfl
      last := hs.last
      slot := fun _ h => nomatch h
      owned := fun other h => .inr (.inr (.inl (by
        have hother := hs.last other h
        exact congrArg Thread.shutting (by omega))))
      knows := trivial }

omit [DecidableEq ι] in
theorem Supervised.shut {s : State ι} (hs : Supervised s) {pid : ℕ}
    (hthread : s.thread = .shutting pid) :
    Supervised { s with child := shutDown pid s.child, thread := .looping } where
  flag := hs.flag
  emptied := hs.emptied
  last := fun other h => hs.last other (running_of_shutDown h).1
  slot := fun other h => by
    rcases hs.slot other h with hlast | ⟨new, hnew⟩
    · exact .inl hlast
    · rw [hthread] at hnew
      cases hnew
  owned := fun other h => by
    obtain ⟨hrunning, hne⟩ := running_of_shutDown h
    rcases hs.owned other hrunning with h | h | h | h
    · exact .inl h
    · rw [hthread] at h
      cases h
    · rw [hthread] at h
      exact absurd (Thread.shutting.inj h).symm hne
    · exact .inr (.inr (.inr h))
  knows := trivial

omit [DecidableEq ι] in
theorem Supervised.supervise {s : State ι} (hs : Supervised s) (opens : Bool) :
    Supervised (s.supervise opens) := by
  have hknows := hs.knows
  unfold State.supervise
  cases hthread : s.thread with
  | looping =>
    apply hs.setThread (by simp [hthread]) (by simp [hthread])
    split_ifs with hstop
    · exact hstop
    · trivial
  | reading =>
    apply hs.setThread (by simp [hthread]) (by simp [hthread])
    cases hslot : s.slot with
    | none =>
      by_cases hstop : s.stopping = true
      · exact .inl hstop
      · refine .inr (hs.quiet hslot (by simp [hthread]) (by simp [hthread]) fun i pid => ?_)
        rw [hs.idle hstop i]
        exact nofun
    | some pid =>
      rcases hs.slot pid hslot with hlast | ⟨new, hnew⟩
      · exact hlast
      · rw [hthread] at hnew
        cases hnew
  | waiting pid =>
    rw [hthread] at hknows
    apply hs.setThread (by simp [hthread]) (by simp [hthread])
    split_ifs with hexited
    · intro other hother
      have hlast := hs.last other hother
      have hsame : other = pid := by
        have hpid : pid + 1 = s.spawned := hknows
        omega
      rw [hsame, hexited] at hother
      cases hother
    · trivial
  | ended pid =>
    rw [hthread] at hknows
    apply hs.setThread (by simp [hthread]) (by simp [hthread])
    split_ifs with hstop
    · exact hstop
    · exact .inr hknows
  | resting =>
    rw [hthread] at hknows
    apply hs.setThread (by simp [hthread]) (by simp [hthread])
    split_ifs with hstop
    · exact hstop
    · exact hknows.resolve_left hstop
  | spawning =>
    rw [hthread] at hknows
    apply hs.setThread (by simp [hthread]) (by simp [hthread])
    split_ifs
    · trivial
    · exact hknows
  | opening =>
    cases opens with
    | false => exact hs.setThread (by simp [hthread]) (by simp [hthread]) trivial
    | true => exact hs.open hthread
  | opened pid =>
    dsimp only
    split_ifs with hstop
    · exact hs.discard hthread
    · exact hs.store hthread hstop
  | shutting pid => exact hs.shut hthread
  | done => exact hs

theorem Supervised.called {s : State ι} (hs : Supervised s) {i : ι} {x : Stop} {slot : Option ℕ}
    {child : ℕ → Child} {stopping registered : Bool} (hstopping : stopping = true) (hx : x ≠ .idle)
    (hslot : slot = s.slot ∨ slot = none) (hemptied : x.emptied = true → slot = none)
    (hchild : ∀ pid, child pid = .running → s.child pid = .running)
    (hheld : ∀ pid, child pid = .running → s.slot = some pid ∨ s.stops i = .took (some pid) →
      slot = some pid ∨ x = .took (some pid)) :
    Supervised { s with
      stopping := stopping
      slot := slot
      child := child
      stops := Function.update s.stops i x
      registered := registered } where
  flag := by
    refine iff_of_true hstopping ⟨i, ?_⟩
    dsimp only
    rw [Function.update_self]
    exact hx
  emptied := fun j h => by
    dsimp only at h ⊢
    by_cases hj : j = i
    · rw [hj, Function.update_self] at h
      exact hemptied h
    · rw [Function.update_of_ne hj] at h
      rcases hslot with hsame | hnone
      · rw [hsame]
        exact hs.emptied j h
      · exact hnone
  last := fun pid h => hs.last pid (hchild pid h)
  slot := fun pid h => by
    dsimp only at h
    rcases hslot with hsame | hnone
    · rw [hsame] at h
      exact hs.slot pid h
    · rw [hnone] at h
      cases h
  owned := fun pid h => by
    have hkept : slot = some pid ∨ x = .took (some pid) → Owned { s with
        stopping := stopping
        slot := slot
        child := child
        stops := Function.update s.stops i x
        registered := registered } pid := by
      rintro (hin | hin)
      · exact .inl hin
      · refine .inr (.inr (.inr ⟨i, ?_⟩))
        dsimp only
        rw [Function.update_self, hin]
    rcases hs.owned pid (hchild pid h) with hin | hin | hin | ⟨j, hin⟩
    · exact hkept (hheld pid h (.inl hin))
    · exact .inr (.inl hin)
    · exact .inr (.inr (.inl hin))
    · by_cases hj : j = i
      · rw [hj] at hin
        exact hkept (hheld pid h (.inr hin))
      · refine .inr (.inr (.inr ⟨j, ?_⟩))
        dsimp only
        rw [Function.update_of_ne hj]
        exact hin
  knows := by
    have hquiet (h : Quiet s) (pid : ℕ) : child pid ≠ .running := fun hpid =>
      h pid (hchild pid hpid)
    have hknows := hs.knows
    dsimp only
    cases hthread : s.thread with
    | looping | reading | shutting _ => trivial
    | waiting _ | opened _ =>
      rw [hthread] at hknows
      exact hknows
    | ended _ | spawning | opening =>
      rw [hthread] at hknows
      exact hquiet hknows
    | resting => exact .inl hstopping
    | done => exact hstopping

theorem Supervised.stop {s : State ι} (hs : Supervised s) (i : ι) : Supervised (s.stop i) := by
  have hflag (h : s.stops i ≠ .idle) : s.stopping = true := hs.flag.mpr ⟨i, h⟩
  unfold State.stop
  cases hstop : s.stops i with
  | idle =>
    refine hs.called rfl nofun (.inl rfl) nofun (fun _ h => h) ?_
    rintro pid - (h | h)
    · exact .inl h
    · rw [hstop] at h
      cases h
  | entered =>
    refine hs.called (hflag (by simp [hstop])) nofun (.inr rfl) (fun _ => rfl) (fun _ h => h) ?_
    rintro pid - (h | h)
    · exact .inr (congrArg Stop.took h)
    · rw [hstop] at h
      cases h
  | took proc =>
    have hnone : s.slot = none := hs.emptied i (by rw [hstop]; rfl)
    have hrunning {pid : ℕ} (h : (proc.map (shutDown · s.child)).getD s.child pid = .running) :
        s.child pid = .running ∧ proc ≠ some pid := by
      cases proc with
      | none => exact ⟨h, nofun⟩
      | some other =>
        obtain ⟨hchild, hne⟩ := running_of_shutDown h
        exact ⟨hchild, fun hsame => hne (Option.some.inj hsame).symm⟩
    refine hs.called (hflag (by simp [hstop])) nofun (.inl rfl) (fun _ => hnone)
      (fun _ h => (hrunning h).1) ?_
    rintro pid hpid (h | h)
    · exact .inl h
    · rw [hstop] at h
      exact absurd (Stop.took.inj h) (hrunning hpid).2
  | joining =>
    have hnone : s.slot = none := hs.emptied i (by rw [hstop]; rfl)
    refine hs.called (hflag (by simp [hstop])) nofun (.inl rfl) (fun _ => hnone) (fun _ h => h) ?_
    rintro pid - (h | h)
    · exact .inl h
    · rw [hstop] at h
      cases h
  | finished => exact hs

omit [DecidableEq ι] in
theorem Supervised.exit {s : State ι} (hs : Supervised s) (pid : ℕ) :
    Supervised { s with child := Function.update s.child pid .exited } := by
  have hchild {other : ℕ} (h : Function.update s.child pid .exited other = .running) :
      s.child other = .running := by
    by_cases hother : other = pid
    · rw [hother, Function.update_self] at h
      cases h
    · rwa [Function.update_of_ne hother] at h
  have hquiet (h : Quiet s) (other : ℕ) :
      Function.update s.child pid .exited other ≠ .running := fun hother => h other (hchild hother)
  refine ⟨hs.flag, hs.emptied, fun other h => hs.last other (hchild h), hs.slot,
    fun other h => hs.owned other (hchild h), ?_⟩
  have hknows := hs.knows
  dsimp only
  cases hthread : s.thread with
  | looping | reading | shutting _ => trivial
  | waiting _ | opened _ | done =>
    rw [hthread] at hknows
    exact hknows
  | ended _ | spawning | opening =>
    rw [hthread] at hknows
    exact hquiet hknows
  | resting =>
    rw [hthread] at hknows
    exact hknows.imp_right hquiet

theorem supervised_run (es : List (Event ι)) : Supervised (run es) := by
  induction es using List.reverseRecOn with
  | nil => exact supervised_start
  | append_singleton es e ih =>
    rw [run, after_append]
    cases e with
    | thread opens => exact ih.supervise opens
    | stop i => exact ih.stop i
    | exit pid => exact ih.exit pid

end Invariant

section Ending

def Thread.left : Thread → ℕ
  | .done => 0
  | .looping | .ended _ | .resting => 1
  | .waiting _ | .spawning | .shutting _ => 2
  | .reading | .opened _ => 3
  | .opening => 4

def State.starts (s : State ι) : ℕ := s.spawned + if s.thread = .opening then 1 else 0

omit [DecidableEq ι] in
theorem supervise_stopping {s : State ι} (h : s.stopping = true) (opens : Bool) :
    (s.supervise opens).stopping = true ∧
      (s.supervise opens).thread.left ≤ s.thread.left - 1 ∧
      (s.supervise opens).starts ≤ s.starts := by
  unfold State.supervise
  cases hthread : s.thread with
  | looping | ended _ | resting | spawning | opened _ | shutting _ | done =>
    simp [h, hthread, Thread.left, State.starts]
  | reading =>
    cases hslot : s.slot <;> simp [h, hthread, Thread.left, State.starts]
  | waiting pid =>
    by_cases hexited : s.child pid = .exited <;>
      simp [h, hthread, hexited, Thread.left, State.starts]
  | opening =>
    cases opens <;> simp [h, hthread, Thread.left, State.starts]

theorem stop_thread (s : State ι) (i : ι) :
    (s.stop i).thread = s.thread ∧ (s.stop i).spawned = s.spawned ∧
      (s.stopping = true → (s.stop i).stopping = true) := by
  unfold State.stop
  cases s.stops i <;> simp

theorem after_stopping (es : List (Event ι)) {s : State ι} (h : s.stopping = true) :
    (after step es s).stopping = true ∧
      (after step es s).thread.left ≤ s.thread.left - es.countP Event.isThread ∧
      (after step es s).starts ≤ s.starts := by
  induction es using List.reverseRecOn with
  | nil => exact ⟨h, Nat.le_refl _, Nat.le_refl _⟩
  | append_singleton es e ih =>
    obtain ⟨hstop, hleft, hstarts⟩ := ih
    rw [after_append, List.countP_append]
    let t := after step es s
    have ht : t.stopping = true := hstop
    cases e with
    | thread opens =>
      obtain ⟨hnext, hrank, hmore⟩ := supervise_stopping ht opens
      have hone : [(Event.thread opens : Event ι)].countP Event.isThread = 1 := rfl
      refine ⟨hnext, ?_, Nat.le_trans hmore hstarts⟩
      have hrank : (after step [.thread opens] t).thread.left ≤ t.thread.left - 1 := hrank
      have hleft : t.thread.left ≤ s.thread.left - es.countP Event.isThread := hleft
      change (after step [.thread opens] t).thread.left ≤ _
      omega
    | stop i =>
      obtain ⟨hthread, hspawned, hkept⟩ := stop_thread t i
      have hnone : [Event.stop i].countP Event.isThread = 0 := rfl
      refine ⟨hkept ht, ?_, ?_⟩
      · change (t.stop i).thread.left ≤ _
        rw [hthread, hnone]
        exact hleft
      · change (t.stop i).starts ≤ _
        rw [State.starts, hthread, hspawned]
        exact hstarts
    | exit pid => exact ⟨hstop, hleft, hstarts⟩

/-- In every run no two children run at once, and each running child is in the slot, just started
or held by a call that stops it. Once a call has emptied the slot it stays empty and the server is
not ready. When the thread is done and no call is under way, no child runs. Once the flag is set the
thread is done after four of its own steps and starts one more child at most. -/
theorem worker_supervision (es : List (Event ι)) :
    let s := run es
    (∀ pid pid', s.child pid = .running → s.child pid' = .running → pid = pid') ∧
    (∀ pid, s.child pid = .running → Owned s pid) ∧
    (∀ i, (s.stops i).emptied = true → s.slot = none ∧ s.ready ≠ some true) ∧
    (s.thread = .done → (∀ i, (s.stops i).settled = true) → Quiet s) ∧
    (s.stopping = true → ∀ es', (run (es ++ es')).spawned ≤ s.spawned + 1 ∧
      (4 ≤ es'.countP Event.isThread → (run (es ++ es')).thread = .done)) := by
  intro s
  have hs : Supervised s := supervised_run es
  refine ⟨fun pid pid' h h' => ?_, hs.owned, fun i hi => ?_, fun hdone hsettled => ?_,
    fun hstop es' => ?_⟩
  · have hlast := hs.last pid h
    have hlast' := hs.last pid' h'
    omega
  · have hnone := hs.emptied i hi
    refine ⟨hnone, ?_⟩
    unfold State.ready State.healthy
    rw [hnone]
    split_ifs <;> simp
  · have hstop : s.stopping = true := by
      have hknows := hs.knows
      rw [hdone] at hknows
      exact hknows
    obtain ⟨i, hi⟩ := hs.flag.mp hstop
    have hemptied : (s.stops i).emptied = true := by
      have hsettled := hsettled i
      cases h : s.stops i with
      | idle => exact absurd h hi
      | entered | took _ =>
        rw [h] at hsettled
        cases hsettled
      | joining | finished => rfl
    apply hs.quiet (hs.emptied i hemptied) (by simp [hdone]) (by simp [hdone])
    intro j pid h
    have hsettled := hsettled j
    rw [h] at hsettled
    cases hsettled
  · have hrun : run (es ++ es') = after step es' s := after_append es es' start
    obtain ⟨-, hleft, hstarts⟩ := after_stopping es' hstop
    rw [hrun]
    constructor
    · have hone : s.starts ≤ s.spawned + 1 := by
        unfold State.starts
        split_ifs <;> omega
      have hmore : (after step es' s).spawned ≤ (after step es' s).starts := Nat.le_add_right _ _
      omega
    · intro hcount
      have hfour : s.thread.left ≤ 4 := by cases s.thread <;> simp [Thread.left]
      have hzero : (after step es' s).thread.left = 0 := by omega
      cases hthread : (after step es' s).thread with
      | done => rfl
      | _ =>
        rw [hthread] at hzero
        cases hzero

end Ending

end FinanceContext.EmbeddedWorker
