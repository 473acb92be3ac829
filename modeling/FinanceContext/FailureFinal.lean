import FinanceContext.JobHistory
import FinanceContext.JobProcesses

namespace FinanceContext

open CrashLogic Histories

variable {H : Type}

/-- `meta.json` says that generation `g` failed. -/
def Dest.FailedAt (g : ℕ) (d : Dest H) : Prop :=
  ∃ m ∈ d.metaJson, m.status = some .failed ∧ m.generation = some g

instance (g : ℕ) (d : Dest H) : Decidable (d.FailedAt g) :=
  inferInstanceAs (Decidable (∃ m ∈ d.metaJson, _ ∧ _))

/-- `meta.json` says that generation `g` is still on its way, or succeeded. -/
def Dest.LiveAt (g : ℕ) (d : Dest H) : Prop :=
  ∃ m ∈ d.metaJson, m.generation = some g ∧
    (m.status = some .queued ∨ m.status = some .running ∨ m.status = some .succeeded)

instance (g : ℕ) (d : Dest H) : Decidable (d.LiveAt g) :=
  inferInstanceAs (Decidable (∃ m ∈ d.metaJson, _ ∧ (_ ∨ _ ∨ _)))

theorem Dest.FailedAt.not_liveAt {g : ℕ} {d : Dest H} (h : d.FailedAt g) : ¬d.LiveAt g := by
  obtain ⟨m, hm, hfailed, -⟩ := h
  rintro ⟨m', hm', -, hst⟩
  obtain rfl := Option.some.inj (hm.symm.trans hm')
  rw [hfailed] at hst
  simp at hst

theorem failedAt_failJob {g : ℕ} (jobId error : String) (g' : ℕ) (detail : Option String)
    (d : Disk H) (h : d.dest.FailedAt g) :
    (finish act (failJob jobId error g' detail) d).dest.FailedAt g := by
  obtain ⟨m, hm, hst, hg⟩ := h
  obtain ⟨hst', hg'⟩ := JobMeta.failed_markJobFailed (r := d.dest.ready) (i := jobId) (e := error)
    (d := detail) (n := g') hst hg
  refine ⟨_, ?_, hst', hg'⟩
  simp [finish, failJob, act, Option.mem_def.mp hm]

theorem failedAt_finishChild {g : ℕ} (jobId : String) (g' : ℕ) (d : Disk H)
    (h : d.dest.FailedAt g) : (finish act (finishChild jobId g') d).dest.FailedAt g := by
  obtain ⟨m, hm, hst, hg⟩ := h
  have hsame : finish act (finishChild jobId g') d = d := by
    simp [finish, finishChild, Option.mem_def.mp hm, JobMeta.terminal, hst, JobStatus.terminal]
  rw [hsame]
  exact ⟨m, hm, hst, hg⟩

/-- Only a mark records a failure; no write of a run does. -/
def Op.NeverFails (g : ℕ) (op : Op H) : Prop :=
  ∀ d : Disk H, (act op d).dest.FailedAt g → d.dest.FailedAt g

theorem neverFails_runOp {code : Code H} {l : Launch} {op : Op H} (hop : RunOp code l op) (g : ℕ) :
    op.NeverFails g := by
  rintro d ⟨m, hm, hst, hg⟩
  have hkept (m' : JobMeta H) (hm' : m' = d.dest.metaJson.getD {}) (hst : m'.status = some .failed)
      (hg : m'.generation = some g) : d.dest.FailedAt g := by
    subst hm'
    cases hd : d.dest.metaJson with
    | none =>
      rw [hd] at hst
      cases hst
    | some m =>
      rw [hd] at hst hg
      exact ⟨m, hd, hst, hg⟩
  cases hop with
  | status st stage ws hne =>
    obtain rfl := (Option.some.inj hm).symm
    unfold JobMeta.writeMeta at hst hg
    split_ifs at hst hg
    · exact hkept _ rfl hst hg
    · exact absurd (Option.some.inj hst) hne
  | warning w =>
    obtain rfl := (Option.some.inj hm).symm
    rw [JobMeta.status_appendExportWarning] at hst
    rw [JobMeta.generation_appendExportWarning] at hg
    exact hkept _ rfl hst hg
  | _ => exact ⟨m, hm, hst, hg⟩

theorem neverFails_pipelineRun [DecidableEq H] (code : Code H) (l : Launch) (g : ℕ) :
    Emits (Op.NeverFails g) (pipelineRun code l) := by
  refine (emits_pipelineRun code l).mono fun op hop => ?_
  rcases hop with hop | hop | ⟨st, rfl⟩
  · rintro d ⟨m, hm, hst, hg⟩
    exact ⟨m, meta_of_clears hop hm, hst, hg⟩
  · exact neverFails_runOp hop g
  · exact fun d h => h

namespace Processes

def horseGone (s : Processes H) : Bool :=
  match s.horse with
  | none | some (.dead _) | some .reaped => true
  | _ => false

def allExited (s : Processes H) : Prop := ∀ c ∈ s.children, c.alive = false

def othersExited (s : Processes H) (p : ℕ) : Prop :=
  ∀ q < s.children.length, q ≠ p → ∀ c ∈ s.children[q]?, c.alive = false

/-- The process that takes this step is the last one of its generation: every other child
has exited, and no horse, present or queued, will spawn another. -/
def Alone (e : ProcessEvent H) (s : Processes H) : Prop :=
  match e with
  | .mark p => s.othersExited p ∧
      (s.horse = some (.watching p) ∨ s.horseGone = true ∧ s.queue.waiting = false)
  | .judge _ | .reap => s.allExited
  | .probeMark => s.allExited ∧ s.horseGone = true ∧ s.queue.waiting = false
  | _ => True

/-- What holds of the processes in every state. -/
structure Sane (spec : JobSpec) (s : Processes H) : Prop where
  idle : s.horse ≠ none → s.queue.waiting = false
  ops : ∀ ops, Child.running ops ∈ s.children → ∀ op ∈ ops, op.NeverFails spec.generation

/-- What holds once the failure was recorded: nobody is left who could write anything else. -/
structure Settled (s : Processes H) : Prop where
  children : ∀ c ∈ s.children, c.alive = true → ∃ error detail, c = .failing error detail
  queue : s.queue.waiting = false
  horse : s.horse ≠ some .entering ∧ s.horse ≠ some .holding ∧ s.horse ≠ some (.leaving true)
  watched : ∀ p, s.horse = some (.watching p) → s.children[p]? ≠ some (.exited true)

theorem mem_setChild {s : Processes H} {p : ℕ} {c c' : Child H}
    (h : c' ∈ (s.setChild p c).children) : c' ∈ s.children ∨ c' = c :=
  List.mem_or_eq_of_mem_set h

theorem Sane.setChild {spec : JobSpec} {s : Processes H} (h : s.Sane spec) (p : ℕ) {c : Child H}
    (hc : ∀ ops, c = .running ops → ∀ op ∈ ops, op.NeverFails spec.generation) :
    (s.setChild p c).Sane spec := by
  refine ⟨h.idle, fun ops hops => ?_⟩
  rcases mem_setChild hops with hmem | rfl
  · exact h.ops ops hmem
  · exact hc ops rfl

theorem Sane.writes {spec : JobSpec} {s : Processes H} (h : s.Sane spec)
    (p : Plan (Disk H) (Op H)) : (s.writes p).Sane spec := ⟨h.idle, h.ops⟩

theorem Sane.horse {spec : JobSpec} {s : Processes H} (h : s.Sane spec) (hs : s.horse ≠ none)
    (k : Option Horse) (r : Bool) : ({ s with horse := k, record := r } : Processes H).Sane spec :=
  ⟨fun _ => h.idle hs, h.ops⟩

theorem failing_setChild {s : Processes H} {p : ℕ} {c : Child H} (hc : c.alive = false)
    (h : ∀ c ∈ s.children, c.alive = true → ∃ error detail, c = .failing error detail) :
    ∀ c' ∈ (s.setChild p c).children, c'.alive = true →
      ∃ error detail, c' = .failing error detail := by
  intro c' hmem halive
  rcases mem_setChild hmem with hmem | rfl
  · exact h c' hmem halive
  · rw [hc] at halive
    cases halive

theorem Settled.exit {s : Processes H} (h : s.Settled) (p : ℕ) :
    (s.setChild p (.exited false)).Settled := by
  refine ⟨failing_setChild rfl h.children, h.queue, h.horse, fun q hq => ?_⟩
  have hw := h.watched q hq
  simp only [Processes.setChild, List.getElem?_set]
  split_ifs <;> simp [hw]

theorem Settled.writes {s : Processes H} (h : s.Settled) (p : Plan (Disk H) (Op H)) :
    (s.writes p).Settled := ⟨h.children, h.queue, h.horse, h.watched⟩

theorem Settled.not_running {s : Processes H} (h : s.Settled) {p : ℕ} {c : Child H}
    (hc : s.children[p]? = some c) (halive : c.alive = true) :
    ∃ error detail, c = .failing error detail :=
  h.children c (List.mem_of_getElem? hc) halive

theorem Settled.horse_to {s : Processes H} (h : s.Settled) {k : Option Horse} {n : ℕ}
    (hk : k = none ∨ k = some (.leaving false) ∨ (∃ oom, k = some (.dead oom)) ∨ k = some .reaped) :
    ({ s with horse := k, retriesLeft := n } : Processes H).Settled := by
  refine ⟨h.children, h.queue, ?_, ?_⟩
  · rcases hk with rfl | rfl | ⟨oom, rfl⟩ | rfl <;> simp
  · intro p hp
    rcases hk with rfl | rfl | ⟨oom, rfl⟩ | rfl <;> cases hp

theorem failedAt_requeue {g cap : ℕ} {jobId : String} {g' : ℕ} {d : Disk H}
    (hcap : ¬cap ≤ JobMeta.busySeen d.dest.metaJson)
    (h : (finish act (requeueSharedCache cap jobId g') d).dest.FailedAt g) :
    d.dest.FailedAt g := by
  obtain ⟨m, hm, hst, hg⟩ := h
  simp only [requeueSharedCache, hcap, if_false, finish, apply, List.foldl_cons, List.foldl_nil,
    act, Option.mem_def, Option.some.injEq] at hm
  subst hm
  cases hd : d.dest.metaJson with
  | none => rw [hd] at hst; cases hst
  | some m => rw [hd] at hst hg; exact ⟨m, hd, hst, hg⟩

theorem failing_of_allExited {s : Processes H} (h : s.allExited) :
    ∀ c ∈ s.children, c.alive = true → ∃ error detail, c = .failing error detail := by
  intro c hc halive
  rw [h c hc] at halive
  cases halive

structure Final (spec : JobSpec) (s : Processes H) : Prop where
  sane : s.Sane spec
  settled : s.disk.dest.FailedAt spec.generation → s.Settled

def posted (d : Disk H) (retries : ℕ) : Processes H where
  disk := d
  queue := .queued
  retriesLeft := retries

theorem final_posted {spec : JobSpec} {d : Disk H} (retries : ℕ)
    (hd : d.dest.LiveAt spec.generation) : (posted d retries).Final spec := by
  refine ⟨⟨fun hn => absurd rfl hn, fun ops hops => ?_⟩, fun hf => ?_⟩
  · cases hops
  · exact absurd hd hf.not_liveAt

variable [DecidableEq H]

theorem sane_step {spec : JobSpec} {s : Processes H} (h : s.Sane spec) (e : ProcessEvent H) :
    (step spec e s).Sane spec := by
  cases e with
  | dequeue =>
    simp only [step]
    split_ifs
    · exact ⟨fun _ => rfl, h.ops⟩
    · exact h
  | takeLock | admissionRetry =>
    simp only [step]
    split_ifs with hs
    · exact h.horse (by simp [hs]) _ _
    · exact h
  | spawn =>
    simp only [step]
    split_ifs with hs
    · refine ⟨fun _ => h.idle (by simp [hs]), fun ops hops => ?_⟩
      rcases List.mem_append.mp hops with hmem | hmem
      · exact h.ops ops hmem
      · simp at hmem
    · exact h
  | lockRun p =>
    simp only [step]
    split
    · split_ifs
      · exact h
      · exact h.setChild p (by simp)
      · exact h.setChild p (by simp)
    · exact h
  | busy p | done p | raise p error detail =>
    simp only [step]
    split
    all_goals first | exact h | exact h.setChild p (by simp)
  | start p code l =>
    simp only [step]
    split
    · split_ifs
      · refine h.setChild p fun ops hops op hop => ?_
        obtain rfl := Child.running.inj hops
        exact neverFails_pipelineRun code l _ _ op hop
      · exact h
    · exact h
  | write p =>
    simp only [step]
    split
    · next op ops hc =>
      have hrun := h.ops _ (List.mem_of_getElem? hc)
      have hset : (s.setChild p (.running ops)).Sane spec :=
        h.setChild p fun ops' hops op' hop' => by
          obtain rfl := Child.running.inj hops
          exact hrun op' (List.mem_cons_of_mem _ hop')
      exact ⟨hset.idle, hset.ops⟩
    · exact h
  | mark p =>
    simp only [step]
    split
    · exact (h.writes _).setChild p (by simp)
    · exact h
  | kill p =>
    simp only [step]
    split
    · exact h
    · exact h
    · exact h.setChild p (by simp)
  | judge verdict =>
    simp only [step]
    split
    · next hs =>
      split
      · unfold judged
        split_ifs
        · exact ⟨fun _ => h.idle (by simp [hs]), h.ops⟩
        · split <;> exact ⟨fun _ => h.idle (by simp [hs]), h.ops⟩
      · exact h
    · exact h
  | leave =>
    simp only [step]
    split
    · exact ⟨fun hn => absurd rfl hn, h.ops⟩
    · exact h
  | horseDies oom =>
    simp only [step]
    split
    · exact h
    · exact h
    · exact h
    · next hn _ _ => exact ⟨fun _ => h.idle hn, h.ops⟩
  | reap =>
    simp only [step]
    split
    · next hs => exact ⟨fun _ => h.idle (by simp [hs]), h.ops⟩
    · next hs =>
      split_ifs
      · exact ⟨fun _ => h.idle (by simp [hs]), h.ops⟩
      · exact ⟨fun _ => h.idle (by simp [hs]), h.ops⟩
    · exact h
  | settle =>
    simp only [step]
    split_ifs
    · exact ⟨fun hn => absurd rfl hn, h.ops⟩
    · exact ⟨fun hn => absurd rfl hn, h.ops⟩
    · exact h
  | due =>
    simp only [step]
    split_ifs with hq
    · refine ⟨fun hn => ?_, h.ops⟩
      have := h.idle hn
      rw [hq] at this
      cases this
    · exact h
  | drop =>
    simp only [step]
    split_ifs with hn
    · exact ⟨fun _ => rfl, h.ops⟩
    · exact h
  | probe =>
    simp only [step]
    split_ifs
    · exact ⟨h.idle, h.ops⟩
    · exact h
  | probeMark =>
    simp only [step]
    split
    · exact ⟨h.idle, h.ops⟩
    · exact h
  | probeDies => exact ⟨h.idle, h.ops⟩

/-- The horse that dies after the failure was recorded has no retry left. -/
def NoRetry (e : ProcessEvent H) (s : Processes H) : Prop :=
  match e with
  | .settle => s.horse = some .reaped → s.retriesLeft = 0
  | _ => True

theorem settled_step {spec : JobSpec} {s : Processes H} {e : ProcessEvent H} {g : ℕ}
    (h : s.Settled) (hf : s.disk.dest.FailedAt g) (hr : s.NoRetry e) :
    (step spec e s).Settled ∧ (step spec e s).disk.dest.FailedAt g := by
  cases e with
  | dequeue =>
    have hq : s.queue ≠ .queued := fun hq => by simpa [hq, QueueStatus.waiting] using h.queue
    simp only [step, hq, false_and, if_false]
    exact ⟨h, hf⟩
  | takeLock =>
    simp only [step, h.horse.1, if_false]
    exact ⟨h, hf⟩
  | admissionRetry | spawn =>
    simp only [step, h.horse.2.1, if_false]
    exact ⟨h, hf⟩
  | lockRun p | busy p | start p code l | write p | done p =>
    simp only [step]
    split
    · next hc =>
      obtain ⟨error, detail, hfailing⟩ := h.not_running hc rfl
      cases hfailing
    · exact ⟨h, hf⟩
  | raise p error detail =>
    simp only [step]
    split
    · next hc =>
      obtain ⟨error, detail, hfailing⟩ := h.not_running hc rfl
      cases hfailing
    · next hc =>
      obtain ⟨error, detail, hfailing⟩ := h.not_running hc rfl
      cases hfailing
    · exact ⟨h, hf⟩
  | mark p =>
    simp only [step]
    split
    · exact ⟨(h.writes _).exit p, failedAt_failJob _ _ _ _ _ hf⟩
    · exact ⟨h, hf⟩
  | kill p =>
    simp only [step]
    split
    · exact ⟨h, hf⟩
    · exact ⟨h, hf⟩
    · exact ⟨h.exit p, hf⟩
  | judge verdict =>
    simp only [step]
    split
    · next p hp =>
      split
      · next busy hc =>
        cases busy with
        | true => exact absurd hc (h.watched p hp)
        | false =>
          simp only [judged, Bool.false_eq_true, if_false]
          refine ⟨?_, ?_⟩
          · split <;> exact (h.writes _).horse_to (.inr (.inl rfl))
          · split
            · exact failedAt_failJob _ _ _ _ _ hf
            · exact failedAt_finishChild _ _ _ hf
      · exact ⟨h, hf⟩
    · exact ⟨h, hf⟩
  | leave =>
    simp only [step]
    split
    · next again hs =>
      cases again with
      | true => exact absurd hs h.horse.2.2
      | false => exact ⟨⟨h.children, rfl, by simp, by simp⟩, hf⟩
    · exact ⟨h, hf⟩
  | horseDies oom =>
    simp only [step]
    split
    · exact ⟨h, hf⟩
    · exact ⟨h, hf⟩
    · exact ⟨h, hf⟩
    · exact ⟨h.horse_to (.inr (.inr (.inl ⟨oom, rfl⟩))), hf⟩
  | reap =>
    simp only [step]
    split
    · exact ⟨(h.writes _).horse_to (.inr (.inr (.inr rfl))), failedAt_failJob _ _ _ _ _ hf⟩
    · split_ifs
      · exact ⟨h.horse_to (.inr (.inr (.inr rfl))), hf⟩
      · exact ⟨(h.writes _).horse_to (.inr (.inr (.inr rfl))), failedAt_failJob _ _ _ _ _ hf⟩
    · exact ⟨h, hf⟩
  | settle =>
    simp only [step]
    split_ifs with hs hretry
    · have := hr hs
      omega
    · exact ⟨⟨h.children, rfl, by simp, by simp⟩, hf⟩
    · exact ⟨h, hf⟩
  | due =>
    have hq : s.queue ≠ .scheduled := fun hq => by simpa [hq, QueueStatus.waiting] using h.queue
    simp only [step, hq, if_false]
    exact ⟨h, hf⟩
  | drop =>
    simp only [step]
    split_ifs
    · exact ⟨⟨h.children, rfl, h.horse, h.watched⟩, hf⟩
    · exact ⟨h, hf⟩
  | probe =>
    simp only [step]
    split_ifs
    · exact ⟨⟨h.children, h.queue, h.horse, h.watched⟩, hf⟩
    · exact ⟨h, hf⟩
  | probeMark =>
    simp only [step]
    split
    · exact ⟨⟨h.children, h.queue, h.horse, h.watched⟩, failedAt_failJob _ _ _ _ _ hf⟩
    · exact ⟨h, hf⟩
  | probeDies => exact ⟨⟨h.children, h.queue, h.horse, h.watched⟩, hf⟩

/-- The step calls `mark_job_failed`. -/
def marks (spec : JobSpec) (e : ProcessEvent H) (s : Processes H) : Prop :=
  match e with
  | .mark p => ∃ error detail, s.children[p]? = some (.failing error detail)
  | .judge verdict => ∃ p busy, s.horse = some (.watching p) ∧
      s.children[p]? = some (.exited busy) ∧
      if busy then spec.busyMaxRetries ≤ JobMeta.busySeen s.disk.dest.metaJson
      else verdict ≠ none ∨ ¬s.disk.dest.metaJson.any JobMeta.terminal
  | .reap => s.horse = some (.dead true) ∨ s.horse = some (.dead false) ∧ s.retriesLeft = 0
  | .probeMark => s.probe ≠ none
  | _ => False

theorem marks_of_failedAt {spec : JobSpec} {s : Processes H} {e : ProcessEvent H}
    (hs : s.Sane spec) (hbefore : ¬s.disk.dest.FailedAt spec.generation)
    (hafter : (step spec e s).disk.dest.FailedAt spec.generation) : s.marks spec e := by
  by_contra hno
  apply hbefore
  cases e with
  | write p =>
    simp only [step] at hafter
    split at hafter
    · next op ops hc =>
      exact hs.ops _ (List.mem_of_getElem? hc) op (List.mem_cons_self) _ hafter
    · exact hafter
  | mark p =>
    simp only [step] at hafter
    split at hafter
    · next hc => exact absurd ⟨_, _, hc⟩ hno
    · exact hafter
  | judge verdict =>
    simp only [step] at hafter
    split at hafter
    · next p hp =>
      split at hafter
      · next busy hc =>
        cases busy with
        | true =>
          refine failedAt_requeue (fun hcap => hno ⟨p, true, hp, hc, hcap⟩) hafter
        | false =>
          have hquiet : ¬(verdict ≠ none ∨ ¬s.disk.dest.metaJson.any JobMeta.terminal) :=
            fun hmark => hno ⟨p, false, hp, hc, hmark⟩
          simp only [not_or, not_not] at hquiet
          obtain ⟨rfl, hterminal⟩ := hquiet
          simpa [judged, Processes.writes, finish, finishChild, hterminal] using hafter
      · exact hafter
    · exact hafter
  | reap =>
    simp only [step] at hafter
    split at hafter
    · next hd => exact absurd (.inl hd) hno
    · next hd =>
      split_ifs at hafter with hretry
      · exact hafter
      · exact absurd (.inr ⟨hd, by omega⟩) hno
    · exact hafter
  | probeMark =>
    simp only [step] at hafter
    split at hafter
    · next hd => exact absurd (by simp [marks, hd]) hno
    · exact hafter
  | dequeue | takeLock | admissionRetry | spawn | settle | due | drop | probe =>
    simp only [step] at hafter
    split_ifs at hafter <;> exact hafter
  | lockRun p | start p code l =>
    simp only [step] at hafter
    split at hafter
    · split_ifs at hafter <;> exact hafter
    · exact hafter
  | busy p | done p | raise p error detail | kill p | leave | horseDies oom =>
    simp only [step] at hafter
    split at hafter <;> exact hafter
  | probeDies => exact hafter

theorem settled_of_marks {spec : JobSpec} {s : Processes H} {e : ProcessEvent H}
    (hs : s.Sane spec) (hm : s.marks spec e) (ha : s.Alone e) : (step spec e s).Settled := by
  cases e with
  | mark p =>
    obtain ⟨error, detail, hc⟩ := hm
    obtain ⟨hothers, hhorse⟩ := ha
    have hqueue : s.queue.waiting = false := by
      rcases hhorse with hw | ⟨-, hq⟩
      · exact hs.idle (by simp [hw])
      · exact hq
    have hlt : p < s.children.length := (List.getElem?_eq_some_iff.mp hc).1
    simp only [step, hc]
    refine ⟨?_, hqueue, ?_, ?_⟩
    · intro c' hmem halive
      obtain ⟨q, hq⟩ := List.mem_iff_getElem?.mp hmem
      simp only [Processes.setChild, Processes.writes, List.getElem?_set] at hq
      split_ifs at hq with hpq
      · rw [← Option.some.inj hq] at halive
        cases halive
      · have hqlt := (List.getElem?_eq_some_iff.mp hq).1
        rw [hothers q hqlt (fun h => hpq h.symm) c' hq] at halive
        cases halive
    · rcases hhorse with hw | ⟨hgone, -⟩
      · simp [Processes.setChild, Processes.writes, hw]
      · simp only [Processes.setChild, Processes.writes]
        unfold horseGone at hgone
        split at hgone <;> simp_all
    · intro q hq
      rcases hhorse with hw | ⟨hgone, -⟩
      · simp only [Processes.setChild, Processes.writes, hw, Option.some.injEq,
          Horse.watching.injEq] at hq
        subst hq
        simp [Processes.setChild, Processes.writes, hlt]
      · simp only [Processes.setChild, Processes.writes] at hq
        simp [horseGone, hq] at hgone
  | judge verdict =>
    obtain ⟨p, busy, hp, hc, hmark⟩ := hm
    have hqueue : s.queue.waiting = false := hs.idle (by simp [hp])
    simp only [step, hp, hc, judged]
    cases busy with
    | true =>
      have hcap : ¬JobMeta.busySeen s.disk.dest.metaJson < spec.busyMaxRetries :=
        Nat.not_lt.mpr hmark
      simp only [if_true]
      exact ⟨failing_of_allExited ha, hqueue, by simp [hcap], by simp⟩
    | false =>
      simp only [Bool.false_eq_true, if_false]
      refine ⟨?_, ?_, by simp, by simp⟩
      · split <;> exact failing_of_allExited ha
      · split <;> exact hqueue
  | reap =>
    rcases hm with hd | ⟨hd, hretry⟩
    · have hqueue : s.queue.waiting = false := hs.idle (by simp [hd])
      simp only [step, hd]
      exact ⟨failing_of_allExited ha, hqueue, by simp, by simp⟩
    · have hqueue : s.queue.waiting = false := hs.idle (by simp [hd])
      simp only [step, hd, hretry, Nat.lt_irrefl, if_false]
      exact ⟨failing_of_allExited ha, hqueue, by simp, by simp⟩
  | probeMark =>
    obtain ⟨hexited, hgone, hqueue⟩ := ha
    simp only [step]
    split
    · refine ⟨failing_of_allExited hexited, hqueue, ?_, ?_⟩
      · simp only [Processes.writes]
        unfold horseGone at hgone
        split at hgone <;> simp_all
      · intro q hq
        simp only [Processes.writes] at hq
        simp [horseGone, hq] at hgone
    · next hnone => exact absurd hnone hm
  | _ => exact absurd hm id

/-- The failure is recorded by the last process of the generation, and no horse that dies
after it has a retry left. -/
def Clean (spec : JobSpec) (e : ProcessEvent H) (s : Processes H) : Prop :=
  (¬s.disk.dest.FailedAt spec.generation → s.marks spec e → s.Alone e) ∧
    (s.disk.dest.FailedAt spec.generation → s.NoRetry e)

theorem final_step {spec : JobSpec} {e : ProcessEvent H} {s : Processes H} (h : s.Final spec)
    (hc : s.Clean spec e) : (step spec e s).Final spec := by
  refine ⟨sane_step h.sane e, fun hafter => ?_⟩
  by_cases hbefore : s.disk.dest.FailedAt spec.generation
  · exact (settled_step (h.settled hbefore) hbefore (hc.2 hbefore)).1
  · have hmarks := marks_of_failedAt h.sane hbefore hafter
    exact settled_of_marks h.sane hmarks (hc.1 hbefore hmarks)

theorem failed_step {spec : JobSpec} {e : ProcessEvent H} {s : Processes H} (h : s.Final spec)
    (hf : s.disk.dest.FailedAt spec.generation) (hc : s.Clean spec e) :
    (step spec e s).disk.dest.FailedAt spec.generation :=
  (settled_step (h.settled hf) hf (hc.2 hf)).2

theorem failure_final_when (spec : JobSpec) (d : Disk H) (retries : ℕ)
    (hd : d.dest.LiveAt spec.generation) (es later : List (ProcessEvent H))
    (hclean : Along (step spec) (fun e s => s.Clean spec e) (es ++ later) (posted d retries))
    (hf : (after (step spec) es (posted d retries)).disk.dest.FailedAt spec.generation) :
    ¬(after (step spec) (es ++ later) (posted d retries)).disk.dest.LiveAt spec.generation := by
  obtain ⟨hes, hlater⟩ := along_append.mp hclean
  have hfinal := after_invariant (I := fun s => s.Final spec) (fun e s hs hc => final_step hs hc)
    (final_posted retries hd) hes
  have hkept := after_invariant
    (I := fun s => s.Final spec ∧ s.disk.dest.FailedAt spec.generation)
    (fun e s hs hc => ⟨final_step hs.1 hc, failed_step hs.1 hs.2 hc⟩) ⟨hfinal, hf⟩ hlater
  rw [after_append]
  exact hkept.2.not_liveAt

def jobSpec : JobSpec := ⟨"job", 1, 3⟩

def firstPost (retries : ℕ) : Processes ℕ :=
  posted (finish act (enqueueOrReuse (release 1 1 1 1) (upload false))
    ((System.uploaded true false : System Unit ℕ).disk ())) retries

theorem failure_final_when_raised :
    let es : List (ProcessEvent ℕ) := [.dequeue, .takeLock, .spawn, .lockRun 0,
      .raise 0 "pipeline_failed" none, .mark 0]
    (after (step jobSpec) es (firstPost 0)).disk.dest.FailedAt 1 ∧
      ¬(after (step jobSpec) (es ++ [.judge none, .leave]) (firstPost 0)).disk.dest.LiveAt 1 := by
  intro es
  have hf : (after (step jobSpec) es (firstPost 0)).disk.dest.FailedAt 1 := by decide
  refine ⟨hf, failure_final_when jobSpec _ 0 (by decide) es _ ?_ hf⟩
  refine along_append.mpr ⟨?_, ?_⟩
  · simp only [es, Along, Clean, marks, NoRetry, false_implies, implies_true, and_self,
      true_and, and_true]
    exact fun _ _ => ⟨fun q hq hne => absurd (Nat.lt_one_iff.mp hq) hne, .inl rfl⟩
  · exact ⟨⟨fun hno => absurd hf hno, fun _ => trivial⟩, ⟨fun _ => False.elim, fun _ => trivial⟩,
      trivial⟩

/-- A status request finds the horse of a retried job dead, and the retry then runs. -/
theorem queueLost_revived :
    let dead : List (ProcessEvent ℕ) := [.dequeue, .takeLock, .spawn, .lockRun 0,
      .horseDies false, .kill 0, .probe, .probeMark]
    let retried : List (ProcessEvent ℕ) := [.reap, .settle, .dequeue, .takeLock, .spawn,
      .lockRun 1, .start 1 (release 1 1 1 1) (launch 1)] ++ List.replicate 9 (.write 1)
    (after (step jobSpec) dead (firstPost 1)).disk.dest.FailedAt 1 ∧
      (after (step jobSpec) (dead ++ retried) (firstPost 1)).disk.dest.LiveAt 1 := by
  decide

end Processes

end FinanceContext
