import FinanceContext.SharedCache

namespace FinanceContext

open CrashLogic

variable {H : Type}

/-- One launch of `Pipeline.run` by the queue's child, and what its exporters answer. -/
structure Launch where
  payload : Payload
  warnings : List String := []
  republished : Bool := false
  exportWarning : Option String := none

def setStage (code : Code H) (l : Launch) (stage : String) : Plan (Disk H) (Op H) :=
  fun _ => [.updateMeta (JobMeta.writeMeta code l.payload .running stage [])]

def ensureXlsx : Plan (Disk H) (Op H) :=
  cond (fun d => d.book.source) (fun _ => []) fun d => if d.book.legacy then [.putSource] else []

def parseWorkbook (code : Code H) : Plan (Disk H) (Op H) :=
  seq act ensureXlsx fun _ => raw.map fun f => .putShared f code

def parseStage (code : Code H) : Plan (Disk H) (Op H) :=
  cond (fun d => d.book.has .rawWorkbook) (fun _ => []) (parseWorkbook code)

def compileWorkbook (code : Code H) : Plan (Disk H) (Op H) := fun _ =>
  [.irCells, .irCellEdges, .irEdges, .irCompile].map fun f => .putShared f code

def layoutStage (code : Code H) : Plan (Disk H) (Op H) :=
  cond (fun d => d.book.has .layoutJson) (fun _ => []) fun _ => [.putShared .layoutJson code]

def buildFormulaGraph (code : Code H) : Plan (Disk H) (Op H) := fun _ =>
  [.graphIndex, .graphEdges, .graphJson, .graphMd].map fun f => .putSession f code

def graphStage (code : Code H) : Plan (Disk H) (Op H) :=
  cond (fun d => d.dest.has .graphJson && d.dest.has .graphEdges) (fun _ => [])
    (buildFormulaGraph code)

def buildStage (code : Code H) : Plan (Disk H) (Op H) := fun _ => [.putSession .contextJson code]

def renderStage (code : Code H) : Plan (Disk H) (Op H) := fun _ =>
  [.putSession .contextMd code, .putSession .contextRenderer code]

def finalMeta (code : Code H) (l : Launch) : Plan (Disk H) (Op H) :=
  fun _ => [.updateMeta (JobMeta.writeMeta code l.payload .succeeded "done" l.warnings)]

def exportBook (l : Launch) : Plan (Disk H) (Op H) := fun _ =>
  l.exportWarning.toList.map fun w =>
    .updateMeta (JobMeta.appendExportWarning l.payload.generation w)

/-- What a run writes once its deletions are done. -/
inductive RunOp (code : Code H) (l : Launch) : Op H → Prop
  | source : RunOp code l .putSource
  | shared (f : SharedFile) : RunOp code l (.putShared f code)
  | session (f : SessionFile) : RunOp code l (.putSession f code)
  | status (st : JobStatus) (stage : String) (ws : List String) (hst : st ≠ .failed) :
    RunOp code l (.updateMeta (JobMeta.writeMeta code l.payload st stage ws))
  | warning (w : String) :
    RunOp code l (.updateMeta (JobMeta.appendExportWarning l.payload.generation w))

theorem emits_setStage (code : Code H) (l : Launch) (stage : String) :
    Emits (RunOp code l) (setStage code l stage) := by
  intro d op hop
  obtain rfl := List.mem_singleton.mp hop
  exact .status _ _ _ (by decide)

theorem spares_setStage (code : Code H) (l : Launch) (stage : String) :
    Emits (fun op => op.sparesFiles = true) (setStage code l stage) := by
  intro d op hop
  obtain rfl := List.mem_singleton.mp hop
  rfl

def publishStages (code : Code H) (l : Launch) : Plan (Disk H) (Op H) :=
  seq act (setStage code l "build") <| seq act (buildStage code) <|
  seq act (setStage code l "render") <| seq act (renderStage code) <|
  seq act (finalMeta code l) (exportBook l)

def sessionStages (code : Code H) (l : Launch) : Plan (Disk H) (Op H) :=
  seq act (setStage code l "relations") <| seq act (setStage code l "graph") <|
  seq act (graphStage code) (publishStages code l)

theorem emits_sessionFiles (code : Code H) (l : Launch) (fs : List SessionFile) :
    Emits (RunOp code l) (fun _ : Disk H => fs.map fun f => Op.putSession f code) :=
  Emits.map (fun f => RunOp.session f) fs

theorem emits_publishStages (code : Code H) (l : Launch) :
    Emits (RunOp code l) (publishStages code l) := by
  have hfinal : Emits (RunOp code l) (finalMeta code l) := by
    intro d op hop
    obtain rfl := List.mem_singleton.mp hop
    exact .status _ _ _ (by decide)
  have hexport : Emits (RunOp code l) (exportBook (H := H) l) :=
    Emits.map (fun w => RunOp.warning w) l.exportWarning.toList
  refine (emits_setStage code l _).seq (Emits.seq (emits_sessionFiles code l [.contextJson]) ?_)
  refine (emits_setStage code l _).seq (Emits.seq ?_ (hfinal.seq hexport))
  exact emits_sessionFiles code l [.contextMd, .contextRenderer]

theorem emits_sessionStages (code : Code H) (l : Launch) :
    Emits (RunOp code l) (sessionStages code l) := by
  refine (emits_setStage code l _).seq ((emits_setStage code l _).seq (Emits.seq ?_ ?_))
  · exact .cond .nil (emits_sessionFiles code l _)
  · exact emits_publishStages code l

section

variable [DecidableEq H]

def compileStage (code : Code H) : Plan (Disk H) (Op H) :=
  cond (fun d => d.book.irIsCurrent code) (fun _ => []) (compileWorkbook code)

/-- `refresh_context_markdown`, the republish, and `commit_renderer_stamp`. -/
def reuseFinished (code : Code H) (l : Launch) : Plan (Disk H) (Op H) := fun d =>
  if (d.dest.files .contextRenderer).any (·.renderer = code.renderer) then []
  else .putSession .contextMd code ::
    if l.republished then [.putSession .contextRenderer code] else []

def sharedStages (code : Code H) (l : Launch) : Plan (Disk H) (Op H) :=
  seq act (setStage code l "parse") <| seq act (parseStage code) <|
  seq act (setStage code l "compile") <| seq act (compileStage code) <|
  seq act (setStage code l "layout") (layoutStage code)

def runLoaded (code : Code H) (l : Launch) : Plan (Disk H) (Op H) :=
  seq act (sharedStages code l) (sessionStages code l)

/-- `Pipeline._run`. A book without a source raises `empty_file` and writes nothing. -/
def runBody (code : Code H) (l : Launch) : Plan (Disk H) (Op H) :=
  cond (fun d => d.dest.hasContext) (reuseFinished code l) <|
  cond (fun d => d.book.hasSource) (runLoaded code l) fun _ => []

/-- Everything `Pipeline.run` writes before `write_shared_stamp`. -/
def runArtifacts (code : Code H) (l : Launch) : Plan (Disk H) (Op H) :=
  seq act (invalidateForRun code) (runBody code l)

/-- `Pipeline.run` under the book lock and the session lock. The stamp is written
when a document is returned, which is when both context files are there. -/
def pipelineRun (code : Code H) (l : Launch) : Plan (Disk H) (Op H) := fun d =>
  seq act (runArtifacts code l)
    (cond (fun d' => d'.dest.hasContext) (writeSharedStamp code (invalidation code d)) fun _ => [])
    d

theorem emits_sharedStages (code : Code H) (l : Launch) :
    Emits (fun op => RunOp code l op ∧ op.sparesFiles = true) (sharedStages code l) := by
  have hset (stage : String) :
      Emits (fun op => RunOp code l op ∧ op.sparesFiles = true) (setStage code l stage) :=
    fun d op hop => ⟨emits_setStage code l stage d op hop, spares_setStage code l stage d op hop⟩
  have hput (fs : List SharedFile) : Emits (fun op => RunOp code l op ∧ op.sparesFiles = true)
      (fun _ : Disk H => fs.map fun f => Op.putShared f code) :=
    Emits.map (fun f => ⟨RunOp.shared f, rfl⟩) fs
  have hconvert : Emits (fun op => RunOp code l op ∧ op.sparesFiles = true)
      (ensureXlsx (H := H)) := by
    refine Emits.cond .nil fun d op hop => ?_
    cases hl : d.book.legacy <;> simp only [hl, Bool.false_eq_true, ↓reduceIte] at hop
    · cases hop
    · obtain rfl := List.mem_singleton.mp hop
      exact ⟨.source, rfl⟩
  refine (hset _).seq (Emits.seq (.cond .nil (hconvert.seq (hput raw))) ?_)
  exact (hset _).seq (Emits.seq (.cond .nil (hput _))
    ((hset _).seq (.cond .nil (hput [.layoutJson]))))

theorem emits_reuseFinished (code : Code H) (l : Launch) :
    Emits (fun op => op = .putSession .contextMd code ∨ op = .putSession .contextRenderer code)
      (reuseFinished code l) := by
  intro d op hop
  unfold reuseFinished at hop
  split_ifs at hop
  · cases hop
  · simpa using hop
  · exact .inl (List.mem_singleton.mp hop)

theorem emits_runBody (code : Code H) (l : Launch) :
    Emits (RunOp code l) (runBody code l) := by
  refine Emits.cond ((emits_reuseFinished code l).mono fun op hop => ?_) (.cond ?_ .nil)
  · rcases hop with rfl | rfl <;> exact .session _
  · exact Emits.seq ((emits_sharedStages code l).mono fun _ h => h.1) (emits_sessionStages code l)

theorem runBody_of_hasContext (code : Code H) (l : Launch) (d : Disk H)
    (hc : d.dest.hasContext = true) : runBody code l d = reuseFinished code l d := by
  simp [runBody, CrashLogic.cond, hc]

theorem runBody_of_hasSource (code : Code H) (l : Launch) (d : Disk H)
    (hc : d.dest.hasContext = false) (hs : d.book.hasSource = true) :
    runBody code l d = runLoaded code l d := by
  simp [runBody, CrashLogic.cond, hc, hs]

theorem runBody_of_empty (code : Code H) (l : Launch) (d : Disk H)
    (hc : d.dest.hasContext = false) (hs : d.book.hasSource = false) : runBody code l d = [] := by
  simp [runBody, CrashLogic.cond, hc, hs]

theorem runLoaded_head (code : Code H) (l : Launch) (d : Disk H) :
    ∃ rest, runLoaded code l d =
      .updateMeta (JobMeta.writeMeta code l.payload .running "parse" []) :: rest := ⟨_, rfl⟩

theorem hasSource_invalidateForRun (code : Code H) (d : Disk H) :
    (finish act (invalidateForRun code) d).book.hasSource = d.book.hasSource := by
  rw [book_invalidateForRun]
  cases (invalidation code d).rebuiltFrom <;> rfl

theorem emits_stamp (code : Code H) (inv : SharedInvalidation H) :
    Emits (fun op : Op H => ∃ st, op = .putStages st)
      (cond (fun d => d.dest.hasContext) (writeSharedStamp code inv) fun _ => []) := by
  refine Emits.cond ?_ ?_
  · intro d op hop
    unfold writeSharedStamp at hop
    split_ifs at hop
    · exact ⟨_, List.mem_singleton.mp hop⟩
    · cases hop
  · intro d op hop
    cases hop

theorem dest_crash_stamp (code : Code H) (inv : SharedInvalidation H) (k : ℕ) (d : Disk H) :
    (crash act (cond (fun d => d.dest.hasContext) (writeSharedStamp code inv) fun _ => []) k d).dest
      = d.dest := by
  refine (emits_stamp code inv).crash_invariant (I := fun t => t.dest = d.dest) ?_ k d rfl
  rintro op ⟨st, rfl⟩ t ht
  exact ht

theorem pipelineRun_eq (code : Code H) (l : Launch) (d : Disk H) :
    pipelineRun code l d = seq act (runArtifacts code l)
      (cond (fun d' => d'.dest.hasContext) (writeSharedStamp code (invalidation code d))
        fun _ => []) d := rfl

theorem emits_pipelineRun (code : Code H) (l : Launch) :
    Emits (fun op => op.clears = true ∨ RunOp code l op ∨ ∃ st, op = .putStages st)
      (pipelineRun code l) := by
  intro d op hop
  rcases List.mem_append.mp hop with hop | hop
  · rcases List.mem_append.mp hop with hop | hop
    · exact .inl (emits_invalidateForRun code d op hop)
    · exact .inr (.inl (emits_runBody code l _ op hop))
  · exact .inr (.inr (emits_stamp code _ _ op hop))

theorem crash_pipelineRun_of_le (code : Code H) (l : Launch) (k : ℕ) (d : Disk H)
    (hk : k ≤ (runArtifacts code l d).length) :
    crash act (pipelineRun code l) k d = crash act (runArtifacts code l) k d := by
  rw [crash, pipelineRun_eq, ← crash, crash_seq, if_pos hk]

theorem crash_pipelineRun_clearing (code : Code H) (l : Launch) (k : ℕ) (d : Disk H)
    (hk : k ≤ (invalidateForRun code d).length) :
    crash act (pipelineRun code l) k d = crash act (invalidateForRun code) k d := by
  have hlen : (invalidateForRun code d).length ≤ (runArtifacts code l d).length := by
    simp [runArtifacts, seq]
  rw [crash_pipelineRun_of_le code l k d (Nat.le_trans hk hlen), runArtifacts, crash_seq, if_pos hk]

theorem dest_crash_pipelineRun (code : Code H) (l : Launch) (k : ℕ) (d : Disk H)
    (hk : (invalidateForRun code d).length < k) :
    (crash act (pipelineRun code l) k d).dest =
      (crash act (runBody code l) (k - (invalidateForRun code d).length)
        (finish act (invalidateForRun code) d)).dest := by
  by_cases hrun : k ≤ (runArtifacts code l d).length
  · rw [crash_pipelineRun_of_le code l k d hrun, runArtifacts, crash_seq, if_neg (by omega)]
  · have hlen : (runArtifacts code l d).length = (invalidateForRun code d).length +
        (runBody code l (finish act (invalidateForRun code) d)).length := by
      simp [runArtifacts, seq]
    rw [crash, pipelineRun_eq, ← crash, crash_seq, if_neg hrun, dest_crash_stamp, runArtifacts, finish_seq,
      crash_of_length_le (runBody code l) _ _ (by omega)]

theorem dest_finish_pipelineRun (code : Code H) (l : Launch) (d : Disk H) :
    (finish act (pipelineRun code l) d).dest =
      (finish act (runBody code l) (finish act (invalidateForRun code) d)).dest := by
  have hlen : crash act (pipelineRun code l)
      ((pipelineRun code l d).length + (runArtifacts code l d).length + 1) d =
        finish act (pipelineRun code l) d := crash_of_length_le _ _ _ (by omega)
  have hart : (runArtifacts code l d).length = (invalidateForRun code d).length +
      (runBody code l (finish act (invalidateForRun code) d)).length := List.length_append
  rw [← hlen, dest_crash_pipelineRun code l _ d (by omega),
    crash_of_length_le (runBody code l) _ _ (by omega)]

end

/-- `mark_job_failed`. -/
def failJob (jobId error : String) (generation : ℕ) (detail : Option String) :
    Plan (Disk H) (Op H) := fun d =>
  [.updateMeta (JobMeta.markJobFailed d.dest.ready jobId error generation detail)]

/-- The last branch of `_finish`: the child ended without a terminal status. -/
def finishChild (jobId : String) (generation : ℕ) : Plan (Disk H) (Op H) := fun d =>
  if d.dest.metaJson.any JobMeta.terminal then []
  else
    let recorded := d.dest.metaJson.bind JobMeta.error
    failJob jobId (if recorded = some "" then "pipeline_failed" else recorded.getD "pipeline_failed")
      generation none d

def requeueSharedCache (cap : ℕ) (jobId : String) (generation : ℕ) : Plan (Disk H) (Op H) := fun d =>
  let seen := JobMeta.busySeen d.dest.metaJson
  if cap ≤ seen then
    failJob jobId "shared_cache_busy" generation (some "shared book cache stayed busy") d
  else [.updateMeta (JobMeta.busyStamp (seen + 1))]

structure Upload where
  jobId : String
  filename : String
  digest : String
  rebuild : Bool

section

variable [DecidableEq H]

/-- `_ready_meta` accepts the finished job as it is. -/
def readyMeta (code : Code H) (d : Dest H) : Bool :=
  d.ready && d.metaJson.any fun m =>
    m.status.any (fun s => s ≠ .queued ∧ s ≠ .running) && code.publisherMatches (some m.stamp)

def nextGeneration (stored : Option (JobMeta H)) : ℕ := max 1 (JobMeta.diskGeneration stored + 1)

def Upload.payload (u : Upload) (stored : Option (JobMeta H)) : Payload where
  jobId := u.jobId
  sourceFilename := some u.filename
  contentSha256 := some u.digest
  generation := nextGeneration stored

/-- `_enqueue_or_reuse` once nothing of the job is in flight. -/
def enqueueOrReuse (code : Code H) (u : Upload) : Plan (Disk H) (Op H) := fun d =>
  if readyMeta code d.dest && !u.rebuild then []
  else
    let stored := d.dest.metaJson
    let generation := nextGeneration stored
    let stale := if u.rebuild then some .compile else code.staleFromMeta (stored.map JobMeta.stamp)
    clearDownstreamArtifacts (some (stale.getD .layout)) false ++
      [.updateMeta (JobMeta.recordRebuildStage stale generation),
       .updateMeta (JobMeta.postStamp (u.payload stored))]

end

end FinanceContext
