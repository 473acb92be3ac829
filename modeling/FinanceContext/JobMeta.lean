import FinanceContext.Stages

namespace FinanceContext

inductive JobStatus where
  | queued | running | succeeded | degraded | needsInput | failed
  deriving DecidableEq, Repr

def JobStatus.terminal : JobStatus → Bool
  | succeeded | degraded | needsInput | failed => true
  | queued | running => false

def statusText : JobStatus → String
  | .queued => "queued"
  | .running => "running"
  | .succeeded => "succeeded"
  | .degraded => "degraded"
  | .needsInput => "needs_input"
  | .failed => "failed"

/-- `meta.json`. An absent key is `none`; `busyRetries` is the key
`shared_cache_busy_retries`. -/
structure JobMeta (H : Type) where
  jobId : Option String := none
  status : Option JobStatus := none
  stage : Option String := none
  sourceFilename : Option String := none
  contentSha256 : Option String := none
  warnings : List String := []
  error : Option String := none
  detail : Option String := none
  generation : Option ℕ := none
  stamp : Stamp H := .absent
  rebuildFrom : Option Stage := none
  busyRetries : Option ℕ := none
  deriving DecidableEq

/-- What one launch knows of its job: the payload, and the upload named by POST. -/
structure Payload where
  jobId : String
  sourceFilename : Option String
  contentSha256 : Option String
  generation : ℕ

namespace JobMeta

variable {H : Type}

def diskGeneration (stored : Option (JobMeta H)) : ℕ := (stored.bind generation).getD 0

def terminal (m : JobMeta H) : Bool := m.status.any JobStatus.terminal

def markQueued (m : JobMeta H) : JobMeta H :=
  { m with status := some .queued, stage := some "queued", error := none, detail := none }

/-- The mutation of `record_rebuild_stage`, for a launch that has a generation. -/
def recordRebuildStage (staleFrom : Option Stage) (generation : ℕ) (m : JobMeta H) : JobMeta H :=
  let marked := match staleFrom with
    | none => { m with rebuildFrom := none }
    | some s => { m with rebuildFrom := some s }.markQueued
  { marked with generation := some generation }.markQueued

/-- The `stamp` that POST writes over the document before it enqueues. -/
def postStamp (p : Payload) (m : JobMeta H) : JobMeta H :=
  { m with
    jobId := some p.jobId
    sourceFilename := p.sourceFilename
    contentSha256 := p.contentSha256
    generation := some p.generation
    status := some .queued
    stage := some "queued"
    error := none
    detail := none }

/-- The document `_write_meta` builds: every key it does not name is dropped. -/
def fresh (code : Code H) (p : Payload) (status : JobStatus) (stage : String)
    (warnings : List String) : JobMeta H where
  jobId := some p.jobId
  status := some status
  stage := some stage
  sourceFilename := p.sourceFilename
  contentSha256 := p.contentSha256
  warnings := warnings
  generation := some p.generation
  stamp := .complete code.hash

def writeMeta (code : Code H) (p : Payload) (status : JobStatus) (stage : String)
    (warnings : List String) (current : JobMeta H) : JobMeta H :=
  if current.generation.any (p.generation < ·) then current
  else fresh code p status stage warnings

def markJobFailed (ready : Bool) (jobId error : String) (generation : ℕ)
    (detail : Option String) (current : JobMeta H) : JobMeta H :=
  if current.generation.any (· ≠ generation) then current
  else if ready && current.terminal then current
  else
    { current with
      stamp := .absent
      jobId := some jobId
      status := some .failed
      stage := some "failed"
      error := some error
      generation := some generation
      detail := detail.or current.detail }

def appendExportWarning (generation : ℕ) (warning : String) (stored : JobMeta H) : JobMeta H :=
  if stored.generation.any (generation < ·) then stored
  else if stored.warnings.contains warning then stored
  else { stored with warnings := stored.warnings ++ [warning] }

def busySeen (stored : Option (JobMeta H)) : ℕ := (stored.bind busyRetries).getD 0

/-- The `stamp` of `_requeue_shared_cache`. -/
def busyStamp (attempt : ℕ) (m : JobMeta H) : JobMeta H := { m with busyRetries := some attempt }

@[simp] theorem stamp_recordRebuildStage (s : Option Stage) (g : ℕ) (m : JobMeta H) :
    (m.recordRebuildStage s g).stamp = m.stamp := by cases s <;> rfl

@[simp] theorem busyRetries_recordRebuildStage (s : Option Stage) (g : ℕ) (m : JobMeta H) :
    (m.recordRebuildStage s g).busyRetries = m.busyRetries := by cases s <;> rfl

@[simp] theorem stamp_appendExportWarning (g : ℕ) (w : String) (m : JobMeta H) :
    (m.appendExportWarning g w).stamp = m.stamp := by
  unfold appendExportWarning
  split_ifs <;> rfl

@[simp] theorem status_appendExportWarning (g : ℕ) (w : String) (m : JobMeta H) :
    (m.appendExportWarning g w).status = m.status := by
  unfold appendExportWarning
  split_ifs <;> rfl

@[simp] theorem generation_appendExportWarning (g : ℕ) (w : String) (m : JobMeta H) :
    (m.appendExportWarning g w).generation = m.generation := by
  unfold appendExportWarning
  split_ifs <;> rfl

theorem writeMeta_of_le (code : Code H) (p : Payload) (st : JobStatus) (sg : String)
    (ws : List String) (m : JobMeta H) (h : ∀ n, m.generation = some n → n ≤ p.generation) :
    m.writeMeta code p st sg ws = fresh code p st sg ws := by
  unfold writeMeta
  cases hg : m.generation with
  | none => rfl
  | some n =>
    have := h n hg
    simp only [Option.any_some, decide_eq_true_eq]
    rw [if_neg (by omega)]

theorem stamp_writeMeta (code : Code H) (p : Payload) (st : JobStatus) (sg : String)
    (ws : List String) (m : JobMeta H) :
    (m.writeMeta code p st sg ws).stamp = m.stamp ∨
      (m.writeMeta code p st sg ws).stamp = .complete code.hash := by
  unfold writeMeta
  split_ifs
  · exact .inl rfl
  · exact .inr rfl

theorem stamp_markJobFailed (r : Bool) (i e : String) (g : ℕ) (d : Option String) (m : JobMeta H) :
    (m.markJobFailed r i e g d).stamp = m.stamp ∨
      (m.markJobFailed r i e g d).stamp = .absent := by
  unfold markJobFailed
  split_ifs
  · exact .inl rfl
  · exact .inl rfl
  · exact .inr rfl

theorem succeeded_of_markJobFailed {r : Bool} {i e : String} {g : ℕ} {d : Option String}
    {m : JobMeta H} (h : (m.markJobFailed r i e g d).status = some .succeeded) :
    m.status = some .succeeded := by
  unfold markJobFailed at h
  split_ifs at h
  · exact h
  · exact h
  · cases h

theorem failed_markJobFailed {r : Bool} {i e : String} {g n : ℕ} {d : Option String}
    {m : JobMeta H} (hf : m.status = some .failed) (hg : m.generation = some g) :
    (m.markJobFailed r i e n d).status = some .failed ∧
      (m.markJobFailed r i e n d).generation = some g := by
  unfold markJobFailed
  split_ifs with hother
  · exact ⟨hf, hg⟩
  · exact ⟨hf, hg⟩
  · simp only [hg, Option.any_some, decide_eq_true_eq, not_not] at hother
    exact ⟨rfl, congrArg some hother.symm⟩

theorem busyRetries_markJobFailed (r : Bool) (i e : String) (g : ℕ) (d : Option String)
    (m : JobMeta H) : (m.markJobFailed r i e g d).busyRetries = m.busyRetries := by
  unfold markJobFailed
  split_ifs <;> rfl

end JobMeta

end FinanceContext
