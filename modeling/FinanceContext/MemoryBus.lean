import Mathlib.Algebra.Order.Group.Int
import Mathlib.Data.List.Basic
import FinanceContext.Dictionaries
import FinanceContext.Histories
import FinanceContext.JobMeta

/-!
`adapters/memory_bus.py`: the live job records of one API process. The lock makes each
method one step, so a history is a list of calls.
-/

namespace FinanceContext.MemoryBus

open Dictionaries Histories

structure JobRecord where
  jobId : String
  status : JobStatus := .queued
  stage : String := "queued"
  error : Option String := none
  cancel : Bool := false
  generation : ℤ := 0
  deriving DecidableEq

/-- `status in {"queued", "running"}`. -/
def JobRecord.live (r : JobRecord) : Bool := r.status = .queued || r.status = .running

/-- `_live`. -/
abbrev MemoryJobBus := List (String × JobRecord)

/-- The generation of the next run: above the record's own and above the stored minimum. -/
def nextGeneration (r : Option JobRecord) (minimumGeneration : ℤ) : ℤ :=
  let nxt := match r with
    | none => 1
    | some r => r.generation + 1
  let floor := if minimumGeneration > 0 then minimumGeneration + 1 else 1
  if nxt > floor then nxt else floor

def enqueue (jobId : String) (minimumGeneration : ℤ) (bus : MemoryJobBus) :
    Bool × MemoryJobBus :=
  let r := get jobId bus
  if r.any JobRecord.live then (false, bus)
  else
    let fresh : JobRecord := { jobId, generation := nextGeneration r minimumGeneration }
    (true, set jobId fresh bus)

def currentGeneration (jobId : String) (bus : MemoryJobBus) : ℤ :=
  match get jobId bus with
  | none => 0
  | some r => r.generation

def isCancelled (jobId : String) (generation : ℤ) (bus : MemoryJobBus) : Bool :=
  match get jobId bus with
  | none => true
  | some r => if r.generation ≠ generation then true else r.cancel

/-- A report is for the record's run when it names no generation or the record's own. -/
def admits (generation : Option ℤ) (r : JobRecord) : Bool := generation.all (r.generation = ·)

def progressed (stage : String) (generation : Option ℤ) (r : JobRecord) : JobRecord :=
  if !admits generation r then r
  else if r.cancel || !r.live then r
  else { r with stage, status := .running }

def setProgress (jobId stage : String) (generation : Option ℤ) (bus : MemoryJobBus) :
    MemoryJobBus :=
  let r := (get jobId bus).getD { jobId, status := .running, generation := generation.getD 0 }
  set jobId (progressed stage generation r) bus

def terminated (status : JobStatus) (stage : String) (error : Option String)
    (generation : Option ℤ) (r : JobRecord) : JobRecord :=
  if !admits generation r then r
  else if !r.live then r
  else { r with status, stage, error }

def setTerminal (jobId : String) (status : JobStatus) (stage : String) (error : Option String)
    (generation : Option ℤ) (bus : MemoryJobBus) : MemoryJobBus :=
  let r := (get jobId bus).getD { jobId, generation := generation.getD 0 }
  set jobId (terminated status stage error generation r) bus

def abandon (jobId : String) (generation : ℤ) (error : String) (bus : MemoryJobBus) :
    Bool × MemoryJobBus :=
  match get jobId bus with
  | none => (false, bus)
  | some r =>
    if r.generation ≠ generation then (false, bus)
    else if !r.live then (false, bus)
    else
      let failed : JobRecord :=
        { r with cancel := true, status := .failed, stage := "failed", error := some error }
      (true, set jobId failed bus)

def expire (jobId : String) (generation : ℤ) (bus : MemoryJobBus) : Bool × MemoryJobBus :=
  abandon jobId generation "TimeoutError" bus

inductive Call where
  | enqueue (jobId : String) (minimumGeneration : ℤ)
  | setProgress (jobId stage : String) (generation : Option ℤ)
  | setTerminal (jobId : String) (status : JobStatus) (stage : String) (error : Option String)
      (generation : Option ℤ)
  | abandon (jobId : String) (generation : ℤ) (error : String)
  | expire (jobId : String) (generation : ℤ)

namespace Call

def jobId : Call → String
  | enqueue job _ | setProgress job _ _ | setTerminal job _ _ _ _ | abandon job _ _
  | expire job _ => job

def generation : Call → Option ℤ
  | enqueue _ _ => none
  | setProgress _ _ g | setTerminal _ _ _ _ g => g
  | abandon _ g _ | expire _ g => some g

def run : Call → MemoryJobBus → MemoryJobBus
  | enqueue job minimum, bus => (MemoryBus.enqueue job minimum bus).2
  | setProgress job stage g, bus => MemoryBus.setProgress job stage g bus
  | setTerminal job status stage error g, bus =>
    MemoryBus.setTerminal job status stage error g bus
  | abandon job g error, bus => (MemoryBus.abandon job g error bus).2
  | expire job g, bus => (MemoryBus.expire job g bus).2

def abandoned (generation : ℤ) (error : String) (r : JobRecord) : JobRecord :=
  if r.generation ≠ generation then r
  else if !r.live then r
  else { r with cancel := true, status := .failed, stage := "failed", error := some error }

def effect : Call → Option JobRecord → Option JobRecord
  | enqueue job minimum, r =>
    if r.any JobRecord.live then r
    else some { jobId := job, generation := nextGeneration r minimum }
  | setProgress job stage g, r =>
    some (progressed stage g (r.getD { jobId := job, status := .running, generation := g.getD 0 }))
  | setTerminal job status stage error g, r =>
    some (terminated status stage error g (r.getD { jobId := job, generation := g.getD 0 }))
  | abandon _ g error, r => r.map (abandoned g error)
  | expire _ g, r => r.map (abandoned g "TimeoutError")

end Call

theorem get_enqueue (job : String) (minimum : ℤ) (bus : MemoryJobBus) (other : String) :
    get other (enqueue job minimum bus).2 =
      if job = other then (Call.enqueue job minimum).effect (get other bus) else get other bus := by
  unfold enqueue Call.effect
  by_cases hjob : job = other
  · subst hjob
    rw [if_pos rfl]
    by_cases hlive : (get job bus).any JobRecord.live = true
    · simp only [hlive, if_true]
    · simp only [hlive]
      exact (get_set ..).trans (if_pos rfl)
  · rw [if_neg hjob]
    by_cases hlive : (get job bus).any JobRecord.live = true
    · simp only [hlive, if_true]
    · simp only [hlive]
      exact (get_set ..).trans (if_neg hjob)

theorem get_abandon (job : String) (g : ℤ) (error : String) (bus : MemoryJobBus)
    (other : String) :
    get other (abandon job g error bus).2 =
      if job = other then (get other bus).map (Call.abandoned g error) else get other bus := by
  unfold abandon Call.abandoned
  by_cases hjob : job = other
  · subst hjob
    rw [if_pos rfl]
    cases hr : get job bus with
    | none => exact hr
    | some r =>
      simp only [Option.map_some]
      split_ifs
      · exact hr
      · exact hr
      · exact (get_set ..).trans (if_pos rfl)
  · rw [if_neg hjob]
    cases hr : get job bus with
    | none => rfl
    | some r =>
      simp only
      split_ifs
      · rfl
      · rfl
      · exact (get_set ..).trans (if_neg hjob)

theorem get_run (c : Call) (bus : MemoryJobBus) (job : String) :
    get job (c.run bus) = if c.jobId = job then c.effect (get job bus) else get job bus := by
  cases c with
  | enqueue j minimum => exact get_enqueue j minimum bus job
  | setProgress j stage g =>
    refine (get_set ..).trans ?_
    by_cases hjob : j = job
    · subst hjob
      rfl
    · exact (if_neg hjob).trans (if_neg hjob).symm
  | setTerminal j status stage error g =>
    refine (get_set ..).trans ?_
    by_cases hjob : j = job
    · subst hjob
      rfl
    · exact (if_neg hjob).trans (if_neg hjob).symm
  | abandon j g error => exact get_abandon j g error bus job
  | expire j g => exact get_abandon j g _ bus job

theorem live_eq_not_terminal (r : JobRecord) : r.live = !r.status.terminal := by
  unfold JobRecord.live
  cases r.status <;> rfl

theorem lt_nextGeneration (r : JobRecord) (minimum : ℤ) :
    r.generation < nextGeneration (some r) minimum := by
  simp only [nextGeneration]
  split_ifs <;> omega

theorem minimum_lt_nextGeneration (r : Option JobRecord) (minimum : ℤ) :
    minimum < nextGeneration r minimum := by
  unfold nextGeneration
  cases r with
  | none => simp only; split_ifs <;> omega
  | some r => simp only; split_ifs <;> omega

theorem zero_lt_nextGeneration (r : Option JobRecord) (minimum : ℤ) :
    0 < nextGeneration r minimum := by
  unfold nextGeneration
  cases r with
  | none => simp only; split_ifs <;> omega
  | some r => simp only; split_ifs <;> omega

theorem effect_cases (c : Call) (r : JobRecord) :
    c.effect (some r) = some r ∨
      (∃ r', c.effect (some r) = some r' ∧ r.live = true ∧ r'.generation = r.generation ∧
        (r.cancel = true → r'.cancel = true) ∧ ∀ g, c.generation = some g → g = r.generation) ∨
      ∃ job minimum, c = .enqueue job minimum ∧ r.live = false ∧
        c.effect (some r) =
          some { jobId := job, generation := nextGeneration (some r) minimum } := by
  have hadmits {g : Option ℤ} (h : admits g r = true) (g' : ℤ) (hg : g = some g') :
      g' = r.generation := by
    subst hg
    exact (of_decide_eq_true h).symm
  have hgiven (g : ℤ) (error : String) :
      Call.abandoned g error r = r ∨ r.live = true ∧ g = r.generation ∧
        (Call.abandoned g error r).generation = r.generation ∧
        (Call.abandoned g error r).cancel = true := by
    unfold Call.abandoned
    split_ifs with hg hlive
    · exact .inl rfl
    · exact .inl rfl
    · exact .inr ⟨by simpa using hlive, (not_not.mp hg).symm, rfl, rfl⟩
  cases c with
  | enqueue job minimum =>
    by_cases hlive : r.live = true
    · exact .inl (if_pos hlive)
    · exact .inr (.inr ⟨job, minimum, rfl, by simpa using hlive, if_neg hlive⟩)
  | setProgress job stage g =>
    simp only [Call.effect, Option.getD_some, progressed]
    by_cases hg : admits g r = true
    · by_cases hlive : r.cancel || !r.live
      · simp [hg, hlive]
      · have hopen : r.cancel = false ∧ r.live = true := by simpa using hlive
        refine .inr (.inl ⟨{ r with stage, status := .running }, ?_, hopen.2, rfl, id,
          hadmits hg⟩)
        simp [hg, hopen]
    · simp [hg]
  | setTerminal job status stage error g =>
    simp only [Call.effect, Option.getD_some, terminated]
    by_cases hg : admits g r = true
    · by_cases hlive : r.live = true
      · refine .inr (.inl ⟨{ r with status, stage, error }, ?_, hlive, rfl, id, hadmits hg⟩)
        simp [hg, hlive]
      · simp [hg, hlive]
    · simp [hg]
  | abandon job g error =>
    rcases hgiven g error with h | ⟨hlive, hg, hgen, hcancel⟩
    · exact .inl (congrArg some h)
    · refine .inr (.inl ⟨_, rfl, hlive, hgen, fun _ => hcancel, ?_⟩)
      intro g' h
      exact (Option.some.inj h).symm.trans hg
  | expire job g =>
    rcases hgiven g "TimeoutError" with h | ⟨hlive, hg, hgen, hcancel⟩
    · exact .inl (congrArg some h)
    · refine .inr (.inl ⟨_, rfl, hlive, hgen, fun _ => hcancel, ?_⟩)
      intro g' h
      exact (Option.some.inj h).symm.trans hg

theorem run_eq_self_of_ne {c : Call} {bus : MemoryJobBus} {r : JobRecord} {g : ℤ}
    (hr : get c.jobId bus = some r) (hg : c.generation = some g) (hne : g ≠ r.generation) :
    c.run bus = bus := by
  have hdropped {g' : Option ℤ} (h : g' = some g) : admits g' r = false := by
    subst h
    exact decide_eq_false fun h => hne h.symm
  have hkept (job : String) (error : String) (hjob : get job bus = some r) :
      (abandon job g error bus).2 = bus := by
    unfold abandon
    simp only [hjob]
    rw [if_pos fun h => hne h.symm]
  cases c with
  | enqueue job minimum => cases hg
  | setProgress job stage g' =>
    simp only [Call.run, setProgress, progressed]
    replace hr : get job bus = some r := hr
    have hdrop : admits g' r = false := hdropped hg
    simp only [hr, Option.getD_some, hdrop]
    exact set_eq_self hr
  | setTerminal job status stage error g' =>
    simp only [Call.run, setTerminal, terminated]
    replace hr : get job bus = some r := hr
    have hdrop : admits g' r = false := hdropped hg
    simp only [hr, Option.getD_some, hdrop]
    exact set_eq_self hr
  | abandon job g' error =>
    obtain rfl := Option.some.inj hg
    exact hkept job error hr
  | expire job g' =>
    obtain rfl := Option.some.inj hg
    exact hkept job _ hr

/-- The generation of the run that a call creates: an accepted enqueue, or the first report of
a job without a record. -/
def Call.started : Call → Option JobRecord → Option ℤ
  | enqueue _ minimum, r =>
    if r.any JobRecord.live then none else some (nextGeneration r minimum)
  | setProgress _ _ g, none | setTerminal _ _ _ _ g, none => some (g.getD 0)
  | _, _ => none

def runs (job : String) : List Call → MemoryJobBus → List ℤ
  | [], _ => []
  | c :: cs, bus =>
    (if c.jobId = job then (c.started (get job bus)).toList else []) ++ runs job cs (c.run bus)

def liveRun (job : String) (bus : MemoryJobBus) (generation : ℤ) : Bool :=
  (get job bus).any fun r => r.live && r.generation = generation

theorem generation_progressed (stage : String) (g : Option ℤ) (r : JobRecord) :
    (progressed stage g r).generation = r.generation := by
  unfold progressed
  split_ifs <;> rfl

theorem generation_terminated (status : JobStatus) (stage : String) (error : Option String)
    (g : Option ℤ) (r : JobRecord) :
    (terminated status stage error g r).generation = r.generation := by
  unfold terminated
  split_ifs <;> rfl

theorem generation_abandoned (g : ℤ) (error : String) (r : JobRecord) :
    (Call.abandoned g error r).generation = r.generation := by
  unfold Call.abandoned
  split_ifs <;> rfl

theorem generation_effect (c : Call) (r : Option JobRecord) :
    (c.effect r).map JobRecord.generation =
      (c.started r).or (r.map JobRecord.generation) := by
  cases c with
  | enqueue job minimum =>
    simp only [Call.effect, Call.started]
    split_ifs <;> rfl
  | setProgress job stage g =>
    cases r <;> simp [Call.effect, Call.started, generation_progressed]
  | setTerminal job status stage error g =>
    cases r <;> simp [Call.effect, Call.started, generation_terminated]
  | abandon job g error =>
    cases r <;> simp [Call.effect, Call.started, generation_abandoned]
  | expire job g =>
    cases r <;> simp [Call.effect, Call.started, generation_abandoned]

theorem lt_of_started {c : Call} {r : JobRecord} {g : ℤ} (h : c.started (some r) = some g) :
    r.generation < g := by
  cases c with
  | enqueue job minimum =>
    simp only [Call.started, Option.any_some] at h
    split_ifs at h with hlive
    rw [← Option.some.inj h]
    exact lt_nextGeneration r minimum
  | _ => cases h

theorem runs_append (job : String) (cs cs' : List Call) (bus : MemoryJobBus) :
    runs job (cs ++ cs') bus = runs job cs bus ++ runs job cs' (after Call.run cs bus) := by
  induction cs generalizing bus with
  | nil => rfl
  | cons c cs ih =>
    simp only [List.cons_append, runs, ih, List.append_assoc]
    rfl

theorem runs_spec (job : String) (cs : List Call) :
    (runs job cs []).getLast? = (get job (after Call.run cs [])).map JobRecord.generation ∧
      (runs job cs []).Pairwise (· < ·) := by
  induction cs using List.reverseRecOn with
  | nil => exact ⟨rfl, .nil⟩
  | append_singleton cs c ih =>
    obtain ⟨hlast, hascend⟩ := ih
    rw [runs_append, after_append]
    generalize after Call.run cs [] = bus at hlast
    have hrun : after Call.run [c] bus = c.run bus := rfl
    simp only [runs, List.append_nil, hrun, get_run]
    by_cases hjob : c.jobId = job
    · rw [if_pos hjob, if_pos hjob, generation_effect]
      cases hs : c.started (get job bus) with
      | none => simpa using ⟨hlast, hascend⟩
      | some g =>
        refine ⟨by simp, List.pairwise_append.mpr ⟨hascend, by simp, ?_⟩⟩
        intro g' hg' x hx
        obtain rfl : x = g := by simpa using hx
        cases hr : get job bus with
        | none =>
          have hnil : runs job cs [] = [] := by simpa [hr] using hlast
          rw [hnil] at hg'
          cases hg'
        | some r =>
          rw [hr] at hs hlast
          have hbelow := lt_of_started hs
          have hmost : g' ≤ r.generation := by
            obtain ⟨earlier, hsplit⟩ := List.getLast?_eq_some_iff.mp hlast
            rw [hsplit] at hascend hg'
            rcases List.mem_append.mp hg' with hmem | hmem
            · have := (List.pairwise_append.mp hascend).2.2 g' hmem r.generation (by simp)
              omega
            · simpa using (List.mem_singleton.mp hmem).le
          omega
    · rw [if_neg hjob, if_neg hjob, List.append_nil]
      exact ⟨hlast, hascend⟩

theorem length_liveRuns (job : String) (bus : MemoryJobBus) {gs : List ℤ} (hgs : gs.Nodup) :
    (gs.filter (liveRun job bus)).length ≤ 1 := by
  cases hr : get job bus with
  | none =>
    have hnone : liveRun job bus = fun _ => false := by
      funext g
      simp [liveRun, hr]
    simp [hnone]
  | some r =>
    rw [← List.countP_eq_length_filter]
    have hone : gs.countP (liveRun job bus) ≤ gs.countP (· == r.generation) := by
      apply List.countP_mono_left
      intro g _ hg
      have hboth : r.live = true ∧ r.generation = g := by simpa [liveRun, hr] using hg
      simp [hboth.2]
    exact hone.trans (List.nodup_iff_count_le_one.mp hgs r.generation)

theorem exists_get_run {c : Call} {bus : MemoryJobBus} {job : String} {r : JobRecord}
    (hr : get job bus = some r) :
    ∃ r', get job (c.run bus) = some r' ∧ r.generation ≤ r'.generation := by
  rw [get_run]
  by_cases hjob : c.jobId = job
  · rw [if_pos hjob, hr]
    rcases effect_cases c r with h | ⟨r', h, _, hgen, _⟩ | ⟨j, minimum, rfl, _, h⟩
    · exact ⟨r, h, le_rfl⟩
    · exact ⟨r', h, hgen.ge⟩
    · exact ⟨_, h, (lt_nextGeneration r minimum).le⟩
  · exact ⟨r, (if_neg hjob).trans hr, le_rfl⟩

theorem exists_get_after {job : String} {r : JobRecord} (cs : List Call) {bus : MemoryJobBus}
    (hr : get job bus = some r) :
    ∃ r', get job (after Call.run cs bus) = some r' ∧ r.generation ≤ r'.generation := by
  induction cs generalizing bus r with
  | nil => exact ⟨r, hr, le_rfl⟩
  | cons c cs ih =>
    obtain ⟨r₁, hr₁, hle₁⟩ := exists_get_run (c := c) hr
    obtain ⟨r₂, hr₂, hle₂⟩ := ih hr₁
    exact ⟨r₂, hr₂, hle₁.trans hle₂⟩

theorem zero_le_started {c : Call} {r : Option JobRecord} {g : ℤ} (h : c.started r = some g)
    (hgiven : ∀ g, c.generation = some g → 0 ≤ g) : 0 ≤ g := by
  have hreported {g' : Option ℤ} (hg' : ∀ g, g' = some g → 0 ≤ g) : 0 ≤ g'.getD 0 := by
    cases g' with
    | none => exact le_rfl
    | some g' => exact hg' g' rfl
  cases c with
  | enqueue job minimum =>
    simp only [Call.started] at h
    split_ifs at h
    rw [← Option.some.inj h]
    exact (zero_lt_nextGeneration r minimum).le
  | setProgress job stage g' =>
    cases r with
    | none => exact Option.some.inj h ▸ hreported hgiven
    | some r => cases h
  | setTerminal job status stage error g' =>
    cases r with
    | none => exact Option.some.inj h ▸ hreported hgiven
    | some r => cases h
  | abandon job g' error => cases h
  | expire job g' => cases h

theorem currentGeneration_le_after (job : String) (cs : List Call) (bus : MemoryJobBus)
    (hgiven : ∀ c ∈ cs, ∀ g, Call.generation c = some g → 0 ≤ g) :
    currentGeneration job bus ≤ currentGeneration job (after Call.run cs bus) := by
  induction cs generalizing bus with
  | nil => exact le_rfl
  | cons c cs ih =>
    have hrest := ih (c.run bus) fun c' hc' => hgiven c' (List.mem_cons_of_mem c hc')
    refine le_trans ?_ hrest
    cases hr : get job bus with
    | some r =>
      obtain ⟨r', hr', hle⟩ := exists_get_run (c := c) hr
      simpa only [currentGeneration, hr, hr'] using hle
    | none =>
      simp only [currentGeneration, hr, get_run]
      by_cases hjob : c.jobId = job
      · rw [if_pos hjob]
        cases he : c.effect none with
        | none => exact le_rfl
        | some r' =>
          have hgen := generation_effect c none
          rw [he] at hgen
          have hstarted : c.started none = some r'.generation := by simpa using hgen.symm
          exact zero_le_started hstarted (hgiven c List.mem_cons_self)
      · rw [if_neg hjob]

theorem isCancelled_after {job : String} {g : ℤ} (cs : List Call) {bus : MemoryJobBus}
    {r : JobRecord} (hr : get job bus = some r) (hg : g ≤ r.generation)
    (h : isCancelled job g bus = true) : isCancelled job g (after Call.run cs bus) = true := by
  induction cs generalizing bus r with
  | nil => exact h
  | cons c cs ih =>
    obtain ⟨r', hr', hle⟩ := exists_get_run (c := c) hr
    refine ih hr' (hg.trans hle) ?_
    simp only [isCancelled, hr, hr'] at h ⊢
    by_cases hjob : c.jobId = job
    · rw [get_run, if_pos hjob, hr] at hr'
      rcases effect_cases c r with hsame | ⟨r'', hnext, _, hgen, hkeeps, _⟩ |
        ⟨j, minimum, _, _, hnext⟩
      · obtain rfl : r = r' := Option.some.inj (hsame.symm.trans hr')
        exact h
      · obtain rfl : r'' = r' := Option.some.inj (hnext.symm.trans hr')
        rw [hgen]
        split_ifs at h ⊢ with hne
        · rfl
        · exact hkeeps h
      · have hnew : r'.generation = nextGeneration (some r) minimum := by
          rw [← Option.some.inj (hnext.symm.trans hr')]
        have hbelow := lt_nextGeneration r minimum
        rw [if_pos (by omega)]
    · obtain rfl : r = r' := by
        rw [get_run, if_neg hjob, hr] at hr'
        exact Option.some.inj hr'
      exact h

theorem get_run_of_terminal {bus : MemoryJobBus} {job : String} {r : JobRecord}
    (hr : get job bus = some r) (hover : r.status.terminal = true) (c : Call) :
    get job (c.run bus) = some r ∨
      ∃ minimum, c = .enqueue job minimum ∧ (enqueue job minimum bus).1 = true := by
  have hdead : r.live = false := by rw [live_eq_not_terminal, hover]; rfl
  rw [get_run]
  by_cases hjob : c.jobId = job
  · rw [if_pos hjob, hr]
    rcases effect_cases c r with h | ⟨r', _, hlive, _⟩ | ⟨j, minimum, rfl, _, _⟩
    · exact .inl h
    · rw [hdead] at hlive
      cases hlive
    · obtain rfl : j = job := hjob
      refine .inr ⟨minimum, rfl, ?_⟩
      simp [enqueue, hr, hdead]
  · exact .inl ((if_neg hjob).trans hr)

theorem get_enqueue_of_accepted {job : String} {minimum : ℤ} {bus : MemoryJobBus}
    (h : (enqueue job minimum bus).1 = true) :
    get job (enqueue job minimum bus).2 =
      some { jobId := job, generation := nextGeneration (get job bus) minimum } := by
  unfold enqueue at h ⊢
  by_cases hlive : (get job bus).any JobRecord.live = true
  · simp [hlive] at h
  · simp only [hlive]
    exact (get_set ..).trans (if_pos rfl)

/-- After any history of the bus: generations never decrease, an accepted enqueue goes strictly
above the stored generation and the requested minimum, at most one of a job's runs is live, a
report for another generation has no effect, only an accepted enqueue changes a record that is
over, and a run that was cancelled or superseded stays so. `current_generation` counts a job without
a record as 0, and never decreases either while no report names a negative generation. -/
theorem memoryJobBus_history (history : List Call) :
    let bus := after Call.run history []
    (∀ later job r, get job bus = some r →
      ∃ r', get job (after Call.run later bus) = some r' ∧ r.generation ≤ r'.generation) ∧
    (∀ job minimum, (enqueue job minimum bus).1 = true →
      ∃ r, get job (enqueue job minimum bus).2 = some r ∧ minimum < r.generation ∧
        ∀ old, get job bus = some old → old.generation < r.generation) ∧
    (∀ job, (runs job history []).Pairwise (· < ·) ∧
      ((runs job history []).filter (liveRun job bus)).length ≤ 1 ∧
      ∀ r, get job bus = some r → (runs job history []).getLast? = some r.generation) ∧
    (∀ c r g, get (Call.jobId c) bus = some r → c.generation = some g → g ≠ r.generation →
      c.run bus = bus) ∧
    (∀ c job r, get job bus = some r → r.status.terminal = true →
      get job (Call.run c bus) = some r ∨
        ∃ minimum, c = .enqueue job minimum ∧ (enqueue job minimum bus).1 = true) ∧
    (∀ later job r g, get job bus = some r → g ≤ r.generation → isCancelled job g bus = true →
      isCancelled job g (after Call.run later bus) = true) ∧
    (∀ later job, (∀ c ∈ later, ∀ g, Call.generation c = some g → 0 ≤ g) →
      currentGeneration job bus ≤ currentGeneration job (after Call.run later bus)) := by
  intro bus
  refine ⟨fun later job r hr => exists_get_after later hr, ?_, ?_, ?_, ?_, ?_, ?_⟩
  · intro job minimum haccepted
    refine ⟨_, get_enqueue_of_accepted haccepted, minimum_lt_nextGeneration _ _, ?_⟩
    intro old hold
    rw [hold]
    exact lt_nextGeneration old minimum
  · intro job
    obtain ⟨hlast, hascend⟩ := runs_spec job history
    refine ⟨hascend, length_liveRuns job bus (hascend.imp ne_of_lt), ?_⟩
    intro r hr
    have hr' : get job (after Call.run history []) = some r := hr
    rw [hlast, hr', Option.map_some]
  · intro c r g hr hg hne
    exact run_eq_self_of_ne hr hg hne
  · intro c job r hr hover
    exact get_run_of_terminal hr hover c
  · intro later job r g hr hg hcancelled
    exact isCancelled_after later hr hg hcancelled
  · intro later job hgiven
    exact currentGeneration_le_after job later bus hgiven

end FinanceContext.MemoryBus
