import FinanceContext.Admission
import FinanceContext.JobHistory

namespace FinanceContext

open CrashLogic

variable {H : Type}

/-- The record of an id in Redis, and the payload it carries. -/
structure QueueJob where
  status : RqStatus
  jobId : String
  sourceFilename : String
  generation : ℕ
  deriving DecidableEq, Repr

/-- The calls made under the session lock; `none` is Redis down. `applied` says whether a
failed enqueue had reached Redis, `intruder` is a record that another client put there
after the delete. -/
structure Calls (H : Type) where
  looks : Looks H
  lockFree : Bool
  sight : Sight H
  status : Option Unit
  delete : Option Unit
  count : Option ℕ
  intruder : Option QueueJob
  enqueue : Option Unit
  applied : Bool

inductive Answer where
  | queued
  | refused (why : Refusal)
  deriving DecidableEq, Repr

section

variable [DecidableEq H]

/-- What the POST reads under the lock: the document is the one on disk. -/
def lockedSight (k : Calls H) (d : Disk H) : Sight H :=
  { k.sight with stored := d.dest.metaJson }

/-- Everything before the first write: why a POST ends there and what it leaves of the
queue, or `none`. -/
def refusal (code : Code H) (u : Upload) (limit : ℕ) (k : Calls H) (d : Disk H)
    (queue : Option QueueJob) : Option (Refusal × Option QueueJob) :=
  match inflightResponse code u.rebuild k.looks with
  | some why => some (why, queue)
  | none =>
    if !k.lockFree || k.sight.runLock then
      some (if u.rebuild then .stillRunning else .duplicate, queue)
    else if k.status.isNone then some (.unavailable, queue)
    else
      match lockedResponse code u.rebuild (readyMeta code d.dest) (queue.map QueueJob.status)
        (lockedSight k d) with
      | some why => some (why, queue)
      | none =>
        if queue.isSome && k.delete.isNone then some (.unavailable, queue)
        else
          match k.count with
          | none => some (.unavailable, none)
          | some n => if limit ≤ n then some (.tooMany, none) else none

/-- The record `RQJobQueue.enqueue` writes. -/
def launched (u : Upload) (d : Disk H) : QueueJob :=
  ⟨.queued, u.jobId, u.filename, nextGeneration d.dest.metaJson⟩

/-- `_accept_upload`: a refused POST writes nothing; the others clear and stamp the session
directory and then enqueue. -/
def acceptUpload (code : Code H) (u : Upload) (limit : ℕ) (k : Calls H) (d : Disk H)
    (queue : Option QueueJob) : Answer × Disk H × Option QueueJob :=
  match refusal code u limit k d queue with
  | some (why, queue') => (.refused why, d, queue')
  | none =>
    let d' := finish act (enqueueOrReuse code u) d
    match k.enqueue, k.intruder with
    | none, intruder =>
      (.refused .unavailable, d', if k.applied then intruder.or (launched u d) else intruder)
    | some _, some job => (.refused .duplicate, d', some job)
    | some _, none => (.queued, d', some (launched u d))

/-- A queued answer leaves a job of the generation that `meta.json` names; any other answer
leaves the session directory as it was. -/
def Atomic (d : Disk H) (r : Answer × Disk H × Option QueueJob) : Prop :=
  match r with
  | (.queued, d', queue) => ∃ job m, queue = some job ∧ job.status = .queued ∧
      d'.dest.metaJson = some m ∧ m.generation = some job.generation
  | (.refused _, d', _) => d'.dest = d.dest

theorem not_ready_of_lockedResponse {code : Code H} {rebuild ready : Bool}
    {status : Option RqStatus} {s : Sight H}
    (h : lockedResponse code rebuild ready status s = none) : ¬ (ready && !rebuild) = true := by
  unfold lockedResponse at h
  simp only at h
  split_ifs at h with _ _ _ hready
  exact hready

theorem not_ready_of_refusal {code : Code H} {u : Upload} {limit : ℕ} {k : Calls H}
    {d : Disk H} {queue : Option QueueJob} (h : refusal code u limit k d queue = none) :
    ¬ (readyMeta code d.dest && !u.rebuild) = true := by
  unfold refusal at h
  cases hearly : inflightResponse code u.rebuild k.looks with
  | some why =>
    rw [hearly] at h
    cases h
  | none =>
    rw [hearly] at h
    cases hlocked : lockedResponse code u.rebuild (readyMeta code d.dest)
      (queue.map QueueJob.status) (lockedSight k d) with
    | some why =>
      simp only [hlocked] at h
      split_ifs at h
    | none => exact not_ready_of_lockedResponse hlocked

theorem metaJson_enqueueOrReuse {code : Code H} {u : Upload} {d : Disk H}
    (h : ¬ (readyMeta code d.dest && !u.rebuild) = true) :
    ∃ m, (finish act (enqueueOrReuse code u) d).dest.metaJson = some m ∧
      m.generation = some (nextGeneration d.dest.metaJson) := by
  unfold finish enqueueOrReuse
  rw [if_neg h, apply_append]
  exact ⟨_, rfl, rfl⟩

theorem dest_enqueueOrReuse_ne {code : Code H} {u : Upload} {d : Disk H}
    (h : ¬ (readyMeta code d.dest && !u.rebuild) = true) :
    (finish act (enqueueOrReuse code u) d).dest ≠ d.dest := by
  intro heq
  obtain ⟨m, hm, hgeneration⟩ := metaJson_enqueueOrReuse h
  have hnext : JobMeta.diskGeneration d.dest.metaJson = nextGeneration d.dest.metaJson := by
    have hsame : d.dest.metaJson = some m := by rw [← heq, hm]
    simp only [JobMeta.diskGeneration]
    rw [hsame, Option.bind_some, hgeneration, Option.getD_some, ← hsame]
  unfold nextGeneration at hnext
  omega

/-- A POST is atomic exactly when the enqueue it gets to does not fail. -/
theorem post_atomic_iff (code : Code H) (u : Upload) (limit : ℕ) (k : Calls H) (d : Disk H)
    (queue : Option QueueJob) :
    Atomic d (acceptUpload code u limit k d queue) ↔
      (refusal code u limit k d queue = none → k.enqueue.isSome ∧ k.intruder = none) := by
  unfold acceptUpload
  cases hrefusal : refusal code u limit k d queue with
  | some r => exact ⟨fun _ h => (by cases h), fun _ => rfl⟩
  | none =>
    have hready := not_ready_of_refusal hrefusal
    have hwritten := dest_enqueueOrReuse_ne hready
    cases henqueue : k.enqueue with
    | none => exact ⟨fun h => absurd h hwritten, fun h => absurd (h rfl).1 (by decide)⟩
    | some done =>
      cases hintruder : k.intruder with
      | some job =>
        refine ⟨fun h => absurd h hwritten, fun h => ?_⟩
        cases (h rfl).2
      | none =>
        obtain ⟨m, hm, hgeneration⟩ := metaJson_enqueueOrReuse hready
        exact ⟨fun _ _ => ⟨rfl, rfl⟩, fun _ => ⟨launched u d, m, rfl, rfl, hm, hgeneration⟩⟩

end

def finishedBook : Disk ℕ where
  book := ⟨true, false, fun _ => some (release 1 1 1 1), none⟩
  dest := ⟨some (JobMeta.fresh (release 1 1 1 1) ⟨"job", some "book.xlsx", some "digest", 1⟩
    .succeeded "done" []), fun _ => some (release 1 1 1 1)⟩

def nothingRunning : Sight ℕ := ⟨finishedBook.dest.metaJson, false, none, false⟩

def enqueueFails : Calls ℕ where
  looks := ⟨some none, nothingRunning, some none, nothingRunning, some (), some true,
    nothingRunning⟩
  lockFree := true
  sight := nothingRunning
  status := some ()
  delete := some ()
  count := some 0
  intruder := none
  enqueue := none
  applied := false

/-- A rebuild of a ready book loses it when Redis goes down at the enqueue. -/
theorem readyBook_lost :
    ¬ Atomic finishedBook
      (acceptUpload (release 1 1 1 1) (upload true) 4 enqueueFails finishedBook none) ∧
    finishedBook.dest.ready = true ∧
    (acceptUpload (release 1 1 1 1) (upload true) 4 enqueueFails finishedBook none).2.1.dest.ready
      = false := by
  refine ⟨fun h => ?_, by decide, by decide⟩
  have hkept : (acceptUpload (release 1 1 1 1) (upload true) 4 enqueueFails finishedBook
      none).2.1.dest.ready = finishedBook.dest.ready := congrArg Dest.ready h
  revert hkept
  decide

end FinanceContext
