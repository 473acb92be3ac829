import FinanceContext.JobHistory

/-!
One job's directory under any number of processes that interleave at each write, each
event published and each enqueue. A process may end after any of them; the book may
change between them, as other sessions run.
-/

namespace FinanceContext

open CrashLogic

inductive TerminalEvent where
  | succeeded | failed | queueLost
  deriving DecidableEq, Repr

/-- The status that `meta.json` has to record with the event. -/
def TerminalEvent.status : TerminalEvent → JobStatus
  | succeeded => .succeeded
  | failed | queueLost => .failed

/-- `mark` and `final` are the status writes that a terminal event follows; `unlock`
releases `dest/.lock`. -/
inductive Instr (H : Type) where
  | write (op : Op H)
  | mark (jobId error : String) (generation : ℕ) (detail : Option String)
  | final (code : Code H) (l : Launch)
  | enqueue (generation : ℕ)
  | publish (event : TerminalEvent) (generation : ℕ)
  | unlock

variable {H : Type}

/-- The write of an instruction that reads nothing for it. -/
def Instr.op? : Instr H → Option (Op H)
  | .write op => some op
  | .final code l =>
    some (.updateMeta (JobMeta.writeMeta code l.payload .succeeded "done" l.warnings))
  | _ => none

def failureEvent (error : String) : TerminalEvent :=
  if error = "queue_lost" then .queueLost else .failed

/-- `mark_job_failed`: the write, then the event, whether or not the write was refused. -/
def markProgram (jobId error : String) (generation : ℕ) (detail : Option String) :
    List (Instr H) :=
  [.mark jobId error generation detail, .publish (failureEvent error) generation]

def loadedStages [DecidableEq H] (code : Code H) (l : Launch) : Plan (Disk H) (Op H) :=
  seq act (sharedStages code l) <|
  seq act (setStage code l "relations") <| seq act (setStage code l "graph") <|
  seq act (graphStage code) <| seq act (setStage code l "build") <|
  seq act (buildStage code) <| seq act (setStage code l "render") (renderStage code)

section

variable [DecidableEq H]

/-- `Pipeline.run`, with the lock of the session directory released before the stamp. -/
def runProgram (code : Code H) (l : Launch) (d : Disk H) : List (Instr H) :=
  let cleared := finish act (invalidateForRun code) d
  let stamp := cond (fun d' => d'.dest.hasContext) (writeSharedStamp code (invalidation code d))
    (fun _ => []) (finish act (runArtifacts code l) d)
  (invalidateForRun code d).map .write ++
    (if cleared.dest.hasContext then (reuseFinished code l cleared).map .write
    else if cleared.book.hasSource then
      (loadedStages code l cleared).map .write ++ .final code l ::
        ((exportBook l cleared).map .write ++ [.publish .succeeded l.payload.generation])
    else []) ++
    .unlock :: stamp.map .write

def postProgram (code : Code H) (u : Upload) (d : Disk H) : List (Instr H) :=
  if readyMeta code d.dest && !u.rebuild then [.unlock]
  else (enqueueOrReuse code u d).map .write ++
    [.enqueue (nextGeneration d.dest.metaJson), .unlock]

/-- The program of one process: it reads the directory once, as it starts, and a mark reads
it again at its write. -/
def Action.program (a : Action H) (d : Disk H) : List (Instr H) :=
  match a with
  | .post code u => postProgram code u d
  | .run code l => runProgram code l d
  | .fail jobId error generation detail => markProgram jobId error generation detail
  | .finish jobId generation =>
    if d.dest.metaJson.any JobMeta.terminal then []
    else
      let recorded := d.dest.metaJson.bind JobMeta.error
      markProgram jobId (if recorded = some "" then "pipeline_failed"
        else recorded.getD "pipeline_failed") generation none
  | .busy cap jobId generation =>
    let seen := JobMeta.busySeen d.dest.metaJson
    if cap ≤ seen then
      markProgram jobId "shared_cache_busy" generation (some "shared book cache stayed busy")
    else [.write (.updateMeta (JobMeta.busyStamp (seen + 1)))]

theorem writes_runProgram (code : Code H) (l : Launch) (d : Disk H) :
    (runProgram code l d).filterMap Instr.op? = pipelineRun code l d := by
  have hmap (ops : List (Op H)) : (ops.map Instr.write).filterMap Instr.op? = ops := by
    induction ops with
    | nil => rfl
    | cons op ops ih => simp only [List.map_cons, List.filterMap_cons, Instr.op?, ih]
  have hloaded : ∀ d' : Disk H, runLoaded code l d' = loadedStages code l d' ++
      .updateMeta (JobMeta.writeMeta code l.payload .succeeded "done" l.warnings) ::
        exportBook l d' := by
    intro d'
    simp only [runLoaded, sessionStages, publishStages, loadedStages, seq, finalMeta,
      exportBook, List.append_assoc, List.singleton_append]
  simp only [runProgram, pipelineRun_eq, runArtifacts, seq, List.filterMap_append, hmap,
    List.filterMap_cons, Instr.op?, finish_seq]
  congr 1
  congr 1
  simp only [runBody, CrashLogic.cond]
  split_ifs
  · exact hmap _
  · rw [List.filterMap_append, hmap, List.filterMap_cons, List.filterMap_append, hmap, hloaded]
    simp only [Instr.op?, List.filterMap_cons, List.filterMap_nil, List.append_nil]
  · rfl

end

/-- POST and `Pipeline.run` hold `dest/.lock`. -/
def Action.locks : Action H → Bool
  | .post _ _ | .run _ _ => true
  | _ => false

/-- `granted i` says that the last status write of process `i` was not refused, and
`assigned` lists the generations enqueued, newest first. -/
structure Trace (H : Type) where
  disk : Disk H
  procs : ℕ → List (Instr H)
  holder : Option ℕ
  granted : ℕ → Bool
  assigned : List ℕ

namespace Trace

def uploaded (source legacy : Bool) : Trace H where
  disk := ⟨⟨source, legacy, fun _ => none, none⟩, ⟨none, fun _ => none⟩⟩
  procs := fun _ => []
  holder := none
  granted := fun _ => false
  assigned := []

/-- The guard of `mark_job_failed`. -/
def markAccepted (t : Trace H) (generation : ℕ) : Bool :=
  t.disk.dest.metaJson.all fun m =>
    !m.generation.any (· ≠ generation) && !(t.disk.dest.ready && m.terminal)

/-- The guard of `_write_meta`. -/
def finalAccepted (t : Trace H) (generation : ℕ) : Bool :=
  t.disk.dest.metaJson.all fun m => !m.generation.any (generation < ·)

def opOf (t : Trace H) : Instr H → Option (Op H)
  | .mark jobId error generation detail =>
    some (.updateMeta (JobMeta.markJobFailed t.disk.dest.ready jobId error generation detail))
  | ins => ins.op?

def exec (t : Trace H) (i : ℕ) (ins : Instr H) : Trace H where
  disk := (t.opOf ins).elim t.disk fun op => act op t.disk
  procs := t.procs
  holder := match ins with
    | .unlock => if t.holder = some i then none else t.holder
    | _ => t.holder
  granted := match ins with
    | .mark _ _ generation _ => Function.update t.granted i (t.markAccepted generation)
    | .final _ l => Function.update t.granted i (t.finalAccepted l.payload.generation)
    | _ => t.granted
  assigned := match ins with
    | .enqueue generation => generation :: t.assigned
    | _ => t.assigned

def setProc (t : Trace H) (i : ℕ) (prog : List (Instr H)) : Trace H :=
  { t with procs := Function.update t.procs i prog }

/-- `kill` is any end of a process, by an error or by a signal. -/
inductive Event (H : Type) where
  | start (i : ℕ) (a : Action H)
  | tick (i : ℕ)
  | kill (i : ℕ)
  | book (b : Book H)

def step [DecidableEq H] (e : Event H) (t : Trace H) : Trace H :=
  match e with
  | .start i a =>
    if t.procs i ≠ [] ∨ (a.locks ∧ t.holder ≠ none) then t
    else
      { t with holder := if a.locks then some i else t.holder }.setProc i (a.program t.disk)
  | .tick i =>
    match t.procs i with
    | [] => t
    | ins :: rest => (t.exec i ins).setProc i rest
  | .kill i => { t with holder := if t.holder = some i then none else t.holder }.setProc i []
  | .book b => { t with disk.book := b }

end Trace

end FinanceContext
