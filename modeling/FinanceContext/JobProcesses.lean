import FinanceContext.PipelineRun

/-!
The processes of one generation of a job: requests that ask for its status, the
worker's horse, the run children it spawns, and the queue that runs the payload
again. Any of them may die; an event that is not enabled changes nothing.
-/

namespace FinanceContext

open CrashLogic

inductive QueueStatus where
  | queued | started | scheduled | finished | failed | canceled | gone
  deriving DecidableEq, Repr

namespace QueueStatus

/-- `LOST_STATUSES`; `gone` is an id Redis no longer knows. -/
def lost : QueueStatus → Bool
  | finished | failed | canceled | gone => true
  | queued | started | scheduled => false

def waiting : QueueStatus → Bool
  | queued | scheduled => true
  | _ => false

end QueueStatus

/-- The horse between its fork and its return; `dead` until the worker has looked at it,
`reaped` until the queue has settled the job. -/
inductive Horse where
  | entering
  | holding
  | watching (child : ℕ)
  | leaving (again : Bool)
  | dead (oom : Bool)
  | reaped
  deriving DecidableEq, Repr

def Horse.holdsLock : Horse → Bool
  | holding | watching _ | leaving _ => true
  | entering | dead _ | reaped => false

inductive Child (H : Type) where
  | waiting
  | locked
  | running (ops : List (Op H))
  | failing (error : String) (detail : Option String)
  | exited (busy : Bool)

def Child.holdsRunLock {H : Type} : Child H → Bool
  | locked | running _ | failing _ _ => true
  | waiting | exited _ => false

def Child.alive {H : Type} : Child H → Bool
  | exited _ => false
  | _ => true

/-- `record` is `.horse.json` naming this generation; `probe` is a request that holds the
session lock and has found this generation lost. -/
structure Processes (H : Type) where
  disk : Disk H
  queue : QueueStatus
  retriesLeft : ℕ
  horse : Option Horse := none
  record : Bool := false
  children : List (Child H) := []
  probe : Option ℕ := none

structure JobSpec where
  jobId : String
  generation : ℕ
  busyMaxRetries : ℕ

inductive ProcessEvent (H : Type) where
  | dequeue | takeLock | admissionRetry | spawn
  | lockRun (child : ℕ) | busy (child : ℕ)
  | start (child : ℕ) (code : Code H) (launch : Launch)
  | write (child : ℕ) | done (child : ℕ)
  | raise (child : ℕ) (error : String) (detail : Option String)
  | mark (child : ℕ) | kill (child : ℕ)
  | judge (verdict : Option (String × Option String)) | leave
  | horseDies (oom : Bool) | reap | settle
  | due | drop
  | probe | probeMark | probeDies

namespace Processes

variable {H : Type}

def runLockBusy (s : Processes H) : Bool := s.children.any Child.holdsRunLock

def setChild (s : Processes H) (p : ℕ) (c : Child H) : Processes H :=
  { s with children := s.children.set p c }

def writes (s : Processes H) (p : Plan (Disk H) (Op H)) : Processes H :=
  { s with disk := finish act p s.disk }

/-- `horse_owner_alive(...) is False`: the record names this generation and the lock is free. -/
def horseExited (s : Processes H) : Bool := s.record && !s.horse.any Horse.holdsLock

def lostNow (s : Processes H) : Bool :=
  s.disk.dest.metaJson.any (fun m => m.status = some .queued || m.status = some .running) &&
    !s.runLockBusy && (s.queue.lost || (s.queue = .started && s.horseExited))

/-- The horse's answer once its child has exited: `_requeue_shared_cache` or `_finish`. -/
def judged (spec : JobSpec) (verdict : Option (String × Option String)) (busy : Bool)
    (s : Processes H) : Processes H :=
  if busy then
    let again := decide (JobMeta.busySeen s.disk.dest.metaJson < spec.busyMaxRetries)
    { s.writes (requeueSharedCache spec.busyMaxRetries spec.jobId spec.generation) with
      horse := some (.leaving again)
      record := s.record && !again }
  else
    { match verdict with
      | some (error, detail) => s.writes (failJob spec.jobId error spec.generation detail)
      | none => s.writes (finishChild spec.jobId spec.generation) with
      horse := some (.leaving false) }

variable [DecidableEq H]

def step (spec : JobSpec) : ProcessEvent H → Processes H → Processes H
  | .dequeue, s =>
    if s.queue = .queued ∧ s.horse = none then
      { s with queue := .started, horse := some .entering } else s
  | .takeLock, s =>
    if s.horse = some .entering then { s with horse := some .holding, record := true } else s
  | .admissionRetry, s =>
    if s.horse = some .holding then { s with horse := some (.leaving true), record := false } else s
  | .spawn, s =>
    if s.horse = some .holding then
      { s with horse := some (.watching s.children.length), children := s.children ++ [.waiting] }
    else s
  | .lockRun p, s =>
    match s.children[p]? with
    | some .waiting =>
      if s.runLockBusy then s
      else if s.horse = some (.watching p) then s.setChild p .locked
      else s.setChild p (.exited false)
    | _ => s
  | .busy p, s =>
    match s.children[p]? with
    | some .locked => s.setChild p (.exited true)
    | _ => s
  | .start p code l, s =>
    match s.children[p]? with
    | some .locked =>
      if s.probe = none ∧ l.payload.generation = spec.generation then
        s.setChild p (.running (pipelineRun code l s.disk)) else s
    | _ => s
  | .write p, s =>
    match s.children[p]? with
    | some (.running (op :: ops)) => { s.setChild p (.running ops) with disk := act op s.disk }
    | _ => s
  | .done p, s =>
    match s.children[p]? with
    | some (.running []) => s.setChild p (.exited false)
    | _ => s
  | .raise p error detail, s =>
    match s.children[p]? with
    | some .locked | some (.running _) => s.setChild p (.failing error detail)
    | _ => s
  | .mark p, s =>
    match s.children[p]? with
    | some (.failing error detail) =>
      (s.writes (failJob spec.jobId error spec.generation detail)).setChild p (.exited false)
    | _ => s
  | .kill p, s =>
    match s.children[p]? with
    | some (.exited _) | none => s
    | _ => s.setChild p (.exited false)
  | .judge verdict, s =>
    match s.horse with
    | some (.watching p) =>
      match s.children[p]? with
      | some (.exited busy) => judged spec verdict busy s
      | _ => s
    | _ => s
  | .leave, s =>
    match s.horse with
    | some (.leaving again) =>
      { s with horse := none, queue := if again then .scheduled else .finished }
    | _ => s
  | .horseDies oom, s =>
    match s.horse with
    | none | some (.dead _) | some .reaped => s
    | _ => { s with horse := some (.dead oom) }
  | .reap, s =>
    match s.horse with
    | some (.dead true) =>
      { s.writes (failJob spec.jobId "oom_killed" spec.generation none) with
        horse := some .reaped, retriesLeft := 0 }
    | some (.dead false) =>
      if 0 < s.retriesLeft then { s with horse := some .reaped }
      else { s.writes (failJob spec.jobId "process_lost" spec.generation none) with
        horse := some .reaped }
    | _ => s
  | .settle, s =>
    if s.horse = some .reaped then
      if 0 < s.retriesLeft then
        { s with horse := none, retriesLeft := s.retriesLeft - 1, queue := .queued }
      else { s with horse := none, queue := .failed }
    else s
  | .due, s => if s.queue = .scheduled then { s with queue := .queued } else s
  | .drop, s => if s.horse = none then { s with queue := .gone } else s
  | .probe, s =>
    if s.probe = none ∧ s.lostNow then
      { s with probe := some (JobMeta.diskGeneration s.disk.dest.metaJson) } else s
  | .probeMark, s =>
    match s.probe with
    | some generation =>
      { s.writes (failJob spec.jobId "queue_lost" generation none) with probe := none }
    | none => s
  | .probeDies, s => { s with probe := none }

end Processes

end FinanceContext
