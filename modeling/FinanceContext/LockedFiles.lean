import FinanceContext.Histories
import Mathlib.Data.List.Induction
import Mathlib.Data.List.Nodup
import Mathlib.Logic.Function.Basic

/-!
Calls that change one file under a lock. A call takes the lock, loads the file, and either leaves
the file as it is or writes a text of its own beside it and puts it in place in one step. A call may
stop anywhere, and its lock is then free.
-/

namespace FinanceContext.LockedFiles

open Histories

variable {ι E β : Type}

/-- One call that took effect: what it saw beside the file, and whether it could read the file. -/
structure Entry (ι E : Type) where
  caller : ι
  sight : E
  readable : Bool

inductive Phase (ι E β : Type) where
  | idle
  | locked
  | loaded (seen : Option (List β)) (readable : Bool)
  | writing (entry : Entry ι E) (text : List β) (written : ℕ)
  | settled
  | finished
  | stopped

namespace Phase

def inside : Phase ι E β → Bool
  | locked | loaded _ _ | writing _ _ _ | settled => true
  | idle | finished | stopped => false

def pending : Phase ι E β → Bool
  | idle | locked | loaded _ _ | writing _ _ _ => true
  | settled | finished | stopped => false

def effective : Phase ι E β → Bool
  | settled | finished => true
  | idle | locked | loaded _ _ | writing _ _ _ | stopped => false

end Phase

/-- `log` lists the calls that took effect, oldest first. -/
structure State (ι E β : Type) where
  content : Option (List β)
  holder : Option ι
  phase : ι → Phase ι E β
  log : List (Entry ι E)

inductive Event (ι E : Type) where
  | lock (i : ι)
  | load (i : ι) (readable : Bool)
  | decide (i : ι) (sight : E)
  | write (i : ι) (n : ℕ)
  | replace (i : ι)
  | unlock (i : ι)
  | stop (i : ι)

def start (content : Option (List β)) : State ι E β := ⟨content, none, fun _ => .idle, []⟩

def found (readable : Bool) (content : Option (List β)) : Option (List β) :=
  if readable then content else none

section Steps

/- `plan` is the text a call writes for what it sees and finds; `none` leaves the file. -/
variable (plan : ι → E → Option (List β) → Option (List β))

def atOnce (content : Option (List β)) (entry : Entry ι E) : Option (List β) :=
  match plan entry.caller entry.sight (found entry.readable content) with
  | none => content
  | some text => some text

def inOrder (log : List (Entry ι E)) (content : Option (List β)) : Option (List β) :=
  log.foldl (atOnce plan) content

variable [DecidableEq ι]

def State.setPhase (s : State ι E β) (i : ι) (p : Phase ι E β) : State ι E β :=
  { s with phase := Function.update s.phase i p }

def step : Event ι E → State ι E β → State ι E β
  | .lock i, s =>
    match s.phase i, s.holder with
    | .idle, none => { s.setPhase i .locked with holder := some i }
    | _, _ => s
  | .load i readable, s =>
    match s.phase i with
    | .locked => s.setPhase i (.loaded (found readable s.content) readable)
    | _ => s
  | .decide i sight, s =>
    match s.phase i with
    | .loaded seen readable =>
      match plan i sight seen with
      | none => { s.setPhase i .settled with log := s.log ++ [⟨i, sight, readable⟩] }
      | some text => s.setPhase i (.writing ⟨i, sight, readable⟩ text 0)
    | _ => s
  | .write i n, s =>
    match s.phase i with
    | .writing entry text written => s.setPhase i (.writing entry text (written + n))
    | _ => s
  | .replace i, s =>
    match s.phase i with
    | .writing entry text written =>
      if text.length ≤ written then
        { s.setPhase i .settled with
          content := some (text.take written)
          log := s.log ++ [entry] }
      else s
    | _ => s
  | .unlock i, s =>
    match s.phase i with
    | .settled => { s.setPhase i .finished with holder := none }
    | _ => s
  | .stop i, s =>
    match s.phase i with
    | .finished => s
    | p => { s.setPhase i .stopped with holder := if p.inside then none else s.holder }

def run (es : List (Event ι E)) (content : Option (List β)) : State ι E β :=
  after (step plan) es (start content)

end Steps

section Invariant

variable {plan : ι → E → Option (List β) → Option (List β)} {first : Option (List β)}
  {s : State ι E β}

/-- What a call in some phase knows of the file. -/
def Knows (plan : ι → E → Option (List β) → Option (List β)) (i : ι)
    (content : Option (List β)) : Phase ι E β → Prop
  | .loaded seen readable => seen = found readable content
  | .writing entry text _ =>
    entry.caller = i ∧ plan i entry.sight (found entry.readable content) = some text
  | _ => True

/-- The file is what the calls of the log made of it, one after another. -/
structure Ordered (plan : ι → E → Option (List β) → Option (List β)) (first : Option (List β))
    (s : State ι E β) : Prop where
  content : s.content = inOrder plan s.log first
  callers : (s.log.map (·.caller)).Nodup
  pending : ∀ i, (s.phase i).pending = true → ∀ entry ∈ s.log, entry.caller ≠ i
  effective : ∀ i, (s.phase i).effective = true → ∃ entry ∈ s.log, entry.caller = i
  holder : ∀ i, (s.phase i).inside = true ↔ s.holder = some i
  knows : ∀ i, Knows plan i s.content (s.phase i)

theorem phase_setPhase [DecidableEq ι] (s : State ι E β) (i j : ι) (p : Phase ι E β) :
    (s.setPhase i p).phase j = if j = i then p else s.phase j := by
  simp [State.setPhase, Function.update_apply]

theorem ordered_start : Ordered plan first (start first : State ι E β) where
  content := rfl
  callers := List.nodup_nil
  pending := by simp [start]
  effective := by simp [start, Phase.effective]
  holder := by simp [start, Phase.inside]
  knows := fun _ => trivial

theorem Ordered.alone (h : Ordered plan first s) {i j : ι} (hi : (s.phase i).inside = true)
    (hj : (s.phase j).inside = true) : i = j := by
  have hholder := ((h.holder i).mp hi).symm.trans ((h.holder j).mp hj)
  exact Option.some.inj hholder

theorem inside_of_knows {p : Phase ι E β} {i : ι} {content content' : Option (List β)}
    (hp : p.inside = false) : Knows plan i content p → Knows plan i content' p := by
  cases p <;> first | exact id | cases hp

variable [DecidableEq ι]

theorem Ordered.move (h : Ordered plan first s) {i : ι} {p : Phase ι E β}
    (hinside : p.inside = (s.phase i).inside) (hpending : p.pending = (s.phase i).pending)
    (heffective : p.effective = (s.phase i).effective) (hknows : Knows plan i s.content p) :
    Ordered plan first (s.setPhase i p) := by
  refine ⟨h.content, h.callers, fun j hj => ?_, fun j hj => ?_, fun j => ?_, fun j => ?_⟩
  · apply h.pending j
    rw [phase_setPhase] at hj
    split_ifs at hj with hji
    · rw [hji, ← hpending, hj]
    · exact hj
  · apply h.effective j
    rw [phase_setPhase] at hj
    split_ifs at hj with hji
    · rw [hji, ← heffective, hj]
    · exact hj
  · change _ ↔ s.holder = some j
    rw [phase_setPhase, ← h.holder j]
    split_ifs with hji
    · rw [hji, hinside]
    · exact Iff.rfl
  · change Knows plan j s.content _
    rw [phase_setPhase]
    split_ifs with hji
    · rw [hji]
      exact hknows
    · exact h.knows j

theorem Ordered.settle (h : Ordered plan first s) (i : ι) (entry : Entry ι E)
    (hinside : (s.phase i).inside = true) (hpending : (s.phase i).pending = true)
    (hcaller : entry.caller = i) :
    Ordered plan first { s.setPhase i .settled with
      content := atOnce plan s.content entry
      log := s.log ++ [entry] } := by
  refine ⟨?_, ?_, fun j hj => ?_, fun j hj => ?_, fun j => ?_, fun j => ?_⟩
  · simp only [inOrder, List.foldl_append, List.foldl_cons, List.foldl_nil]
    rw [h.content]
    rfl
  · simp only [List.map_append, List.map_cons, List.map_nil]
    rw [List.nodup_append]
    refine ⟨h.callers, List.nodup_singleton _, ?_⟩
    intro a ha b hb
    obtain ⟨other, hother, rfl⟩ := List.mem_map.mp ha
    obtain rfl := List.mem_singleton.mp hb
    rw [hcaller]
    exact h.pending i hpending other hother
  · rw [phase_setPhase] at hj
    split_ifs at hj with hji
    · cases hj
    · intro other hother
      rcases List.mem_append.mp hother with hold | hnew
      · exact h.pending j hj other hold
      · rw [List.mem_singleton.mp hnew, hcaller]
        exact fun heq => hji heq.symm
  · rw [phase_setPhase] at hj
    split_ifs at hj with hji
    · exact ⟨entry, List.mem_append_right _ (List.mem_singleton_self _), hcaller.trans hji.symm⟩
    · obtain ⟨other, hother, hname⟩ := h.effective j hj
      exact ⟨other, List.mem_append_left _ hother, hname⟩
  · change _ ↔ s.holder = some j
    rw [phase_setPhase, ← h.holder j]
    split_ifs with hji
    · rw [hji, hinside]
      exact Iff.rfl
    · exact Iff.rfl
  · change Knows plan j (atOnce plan s.content entry) _
    rw [phase_setPhase]
    split_ifs with hji
    · trivial
    · have hout : (s.phase j).inside = false := by
        cases hin : (s.phase j).inside with
        | false => rfl
        | true => exact absurd (h.alone hin hinside) hji
      exact inside_of_knows hout (h.knows j)

theorem Ordered.leave (h : Ordered plan first s) (i : ι) (p : Phase ι E β)
    (hinside : p.inside = false) (hpending : p.pending = false)
    (heffective : p.effective = true → (s.phase i).effective = true) :
    Ordered plan first { s.setPhase i p with
      holder := if (s.phase i).inside then none else s.holder } := by
  refine ⟨h.content, h.callers, fun j hj => ?_, fun j hj => ?_, fun j => ?_, fun j => ?_⟩
  · rw [phase_setPhase] at hj
    split_ifs at hj with hji
    · rw [hpending] at hj
      cases hj
    · exact h.pending j hj
  · apply h.effective j
    rw [phase_setPhase] at hj
    split_ifs at hj with hji
    · rw [hji]
      exact heffective hj
    · exact hj
  · change _ ↔ (if (s.phase i).inside then none else s.holder) = some j
    rw [phase_setPhase]
    split_ifs with hji hin hin
    · simp [hinside]
    · rw [hinside, ← h.holder j, hji]
      simp [hin]
    · simp only [iff_false]
      exact fun hj => hji (h.alone hj hin)
    · exact h.holder j
  · change Knows plan j s.content _
    rw [phase_setPhase]
    split_ifs with hji
    · cases p <;> trivial
    · exact h.knows j

theorem Ordered.after_step (h : Ordered plan first s) (e : Event ι E) :
    Ordered plan first (step plan e s) := by
  cases e with
  | lock i =>
    simp only [step]
    cases hp : s.phase i with
    | idle =>
      cases hholder : s.holder with
      | some j => exact h
      | none =>
        have hfree (j : ι) : (s.phase j).inside = false := by
          cases hin : (s.phase j).inside with
          | false => rfl
          | true =>
            have := (h.holder j).mp hin
            rw [hholder] at this
            cases this
        refine ⟨h.content, h.callers, fun j hj => ?_, fun j hj => ?_, fun j => ?_, fun j => ?_⟩
        · apply h.pending j
          change ((s.setPhase i .locked).phase j).pending = true at hj
          rw [phase_setPhase] at hj
          split_ifs at hj with hji
          · rw [hji, hp]
            rfl
          · exact hj
        · apply h.effective j
          change ((s.setPhase i .locked).phase j).effective = true at hj
          rw [phase_setPhase] at hj
          split_ifs at hj with hji
          · cases hj
          · exact hj
        · change ((s.setPhase i .locked).phase j).inside = true ↔ some i = some j
          rw [phase_setPhase]
          split_ifs with hji
          · simp [Phase.inside, hji]
          · rw [hfree j]
            simp [Ne.symm hji]
        · change Knows plan j s.content ((s.setPhase i .locked).phase j)
          rw [phase_setPhase]
          split_ifs with hji
          · trivial
          · exact h.knows j
    | locked | loaded _ _ | writing _ _ _ | settled | finished | stopped => exact h
  | load i readable =>
    simp only [step]
    cases hp : s.phase i with
    | locked => exact h.move (by rw [hp]; rfl) (by rw [hp]; rfl) (by rw [hp]; rfl) rfl
    | idle | loaded _ _ | writing _ _ _ | settled | finished | stopped => exact h
  | decide i sight =>
    simp only [step]
    cases hp : s.phase i with
    | loaded seen readable =>
      have hseen : seen = found readable s.content := by
        have := h.knows i
        rwa [hp] at this
      cases hplan : plan i sight seen with
      | none =>
        have hsettle := h.settle i ⟨i, sight, readable⟩
          (by rw [hp]; rfl) (by rw [hp]; rfl) rfl
        have hsame : atOnce plan s.content ⟨i, sight, readable⟩ = s.content := by
          rw [atOnce, ← hseen, hplan]
        rw [hsame] at hsettle
        simp only [hplan]
        exact hsettle
      | some text =>
        simp only [hplan]
        exact h.move (by rw [hp]; rfl) (by rw [hp]; rfl) (by rw [hp]; rfl)
          ⟨rfl, by rw [← hseen]; exact hplan⟩
    | idle | locked | writing _ _ _ | settled | finished | stopped => exact h
  | write i n =>
    simp only [step]
    cases hp : s.phase i with
    | writing entry text written =>
      have hknows := h.knows i
      rw [hp] at hknows
      exact h.move (by rw [hp]; rfl) (by rw [hp]; rfl) (by rw [hp]; rfl) hknows
    | idle | locked | loaded _ _ | settled | finished | stopped => exact h
  | replace i =>
    simp only [step]
    cases hp : s.phase i with
    | writing entry text written =>
      dsimp only
      split_ifs with hwhole
      · obtain ⟨hcaller, hplan⟩ : entry.caller = i ∧
            plan i entry.sight (found entry.readable s.content) = some text := by
          have := h.knows i
          rwa [hp] at this
        have hnext : atOnce plan s.content entry = some (text.take written) := by
          rw [atOnce, hcaller, hplan, List.take_of_length_le hwhole]
        rw [← hnext]
        exact h.settle i entry (by rw [hp]; rfl) (by rw [hp]; rfl) hcaller
      · exact h
    | idle | locked | loaded _ _ | settled | finished | stopped => exact h
  | unlock i =>
    simp only [step]
    cases hp : s.phase i with
    | settled =>
      have hleave := h.leave i .finished rfl rfl
        (by rw [hp]; exact fun _ => rfl)
      rw [hp] at hleave
      exact hleave
    | idle | locked | loaded _ _ | writing _ _ _ | finished | stopped => exact h
  | stop i =>
    have hleave := h.leave i .stopped rfl rfl (fun hp => by cases hp)
    simp only [step]
    cases hp : s.phase i with
    | finished => exact h
    | idle | locked | loaded _ _ | writing _ _ _ | settled | stopped =>
      rw [hp] at hleave
      exact hleave

theorem ordered_run (es : List (Event ι E)) (first : Option (List β)) :
    Ordered plan first (run plan es first) := by
  have hstep (e : Event ι E) (t : State ι E β) (ht : Ordered plan first t) :
      Ordered plan first (step plan e t) := ht.after_step e
  induction es using List.reverseRecOn with
  | nil => exact ordered_start
  | append_singleton es e ih =>
    rw [run, after_append]
    exact hstep e _ ih


theorem pending_step (e : Event ι E) (s : State ι E β) {j : ι}
    (h : (s.phase j).pending = false) : ((step plan e s).phase j).pending = false := by
  have hset (i : ι) (p : Phase ι E β) (hp : i = j → p.pending = false) :
      ((s.setPhase i p).phase j).pending = false := by
    rw [phase_setPhase]
    split_ifs with hji
    · exact hp hji.symm
    · exact h
  cases e with
  | lock i =>
    simp only [step]
    cases hi : s.phase i with
    | idle =>
      cases s.holder with
      | some _ => exact h
      | none =>
        apply hset
        rintro rfl
        rw [hi] at h
        cases h
    | locked | loaded _ _ | writing _ _ _ | settled | finished | stopped => exact h
  | load i readable =>
    simp only [step]
    cases hi : s.phase i with
    | locked =>
      apply hset
      rintro rfl
      rw [hi] at h
      cases h
    | idle | loaded _ _ | writing _ _ _ | settled | finished | stopped => exact h
  | decide i sight =>
    simp only [step]
    cases hi : s.phase i with
    | loaded seen readable =>
      dsimp only
      cases plan i sight seen with
      | none => exact hset i _ fun _ => rfl
      | some text =>
        apply hset
        rintro rfl
        rw [hi] at h
        cases h
    | idle | locked | writing _ _ _ | settled | finished | stopped => exact h
  | write i n =>
    simp only [step]
    cases hi : s.phase i with
    | writing entry text written =>
      apply hset
      rintro rfl
      rw [hi] at h
      cases h
    | idle | locked | loaded _ _ | settled | finished | stopped => exact h
  | replace i =>
    simp only [step]
    cases hi : s.phase i with
    | writing entry text written =>
      dsimp only
      split_ifs
      · exact hset i _ fun _ => rfl
      · exact h
    | idle | locked | loaded _ _ | settled | finished | stopped => exact h
  | unlock i =>
    simp only [step]
    cases hi : s.phase i with
    | settled => exact hset i _ fun _ => rfl
    | idle | locked | loaded _ _ | writing _ _ _ | finished | stopped => exact h
  | stop i =>
    simp only [step]
    cases hi : s.phase i with
    | finished => exact h
    | idle | locked | loaded _ _ | writing _ _ _ | settled | stopped =>
      exact hset i _ fun _ => rfl

theorem Ordered.log_step (h : Ordered plan first s) (e : Event ι E) :
    (step plan e s).log = s.log ∨ ∃ entry, (step plan e s).log = s.log ++ [entry] ∧
      (s.phase entry.caller).pending = true := by
  cases e with
  | lock i =>
    simp only [step]
    split <;> exact .inl rfl
  | load i readable =>
    simp only [step]
    split <;> exact .inl rfl
  | decide i sight =>
    simp only [step]
    cases hi : s.phase i with
    | loaded seen readable =>
      dsimp only
      cases plan i sight seen with
      | none => exact .inr ⟨⟨i, sight, readable⟩, rfl, by rw [hi]; rfl⟩
      | some text => exact .inl rfl
    | idle | locked | writing _ _ _ | settled | finished | stopped => exact .inl rfl
  | write i n =>
    simp only [step]
    split <;> exact .inl rfl
  | replace i =>
    simp only [step]
    cases hi : s.phase i with
    | writing entry text written =>
      dsimp only
      split_ifs
      · have hknows := h.knows i
        rw [hi] at hknows
        exact .inr ⟨entry, rfl, by rw [hknows.1, hi]; rfl⟩
      · exact .inl rfl
    | idle | locked | loaded _ _ | settled | finished | stopped => exact .inl rfl
  | unlock i =>
    simp only [step]
    split <;> exact .inl rfl
  | stop i =>
    simp only [step]
    split <;> exact .inl rfl

theorem log_run (es es' : List (Event ι E)) (first : Option (List β)) :
    ∃ rest, (run plan (es ++ es') first).log = (run plan es first).log ++ rest ∧
      ∀ i, ((run plan es first).phase i).pending = false → ∀ entry ∈ rest, entry.caller ≠ i := by
  have hover (es' : List (Event ι E)) {i : ι}
      (hi : ((run plan es first).phase i).pending = false) :
      ((run plan (es ++ es') first).phase i).pending = false := by
    induction es' using List.reverseRecOn with
    | nil => rwa [List.append_nil]
    | append_singleton es' e ih =>
      rw [← List.append_assoc, run, after_append]
      exact pending_step e _ ih
  induction es' using List.reverseRecOn with
  | nil => exact ⟨[], by simp, by simp⟩
  | append_singleton es' e ih =>
    obtain ⟨rest, hlog, hrest⟩ := ih
    have hlast : run plan (es ++ (es' ++ [e])) first = step plan e (run plan (es ++ es') first) := by
      rw [← List.append_assoc, run, after_append]
      rfl
    have hordered : Ordered plan first (run plan (es ++ es') first) := ordered_run _ _
    rw [hlast]
    rcases hordered.log_step e with hsame | ⟨entry, hnew, hpending⟩
    · exact ⟨rest, by rw [hsame, hlog], hrest⟩
    · refine ⟨rest ++ [entry], by rw [hnew, hlog, List.append_assoc], ?_⟩
      intro i hi other hother
      rcases List.mem_append.mp hother with hold | hlast
      · exact hrest i hi other hold
      · rw [List.mem_singleton.mp hlast]
        rintro rfl
        rw [hover es' hi] at hpending
        cases hpending

end Invariant

end FinanceContext.LockedFiles
