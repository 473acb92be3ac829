import FinanceContext.PipelineRun

namespace FinanceContext

variable {H : Type}

/-- RQ's status of a job id; an id Redis does not know has none. -/
inductive RqStatus where
  | queued | started | deferred | scheduled | finished | failed | canceled | stopped
  deriving DecidableEq, Repr

/-- `INFLIGHT_STATUSES`. -/
def RqStatus.inflight : RqStatus → Bool
  | queued | started | deferred | scheduled => true
  | finished | failed | canceled | stopped => false

/-- What a check reads besides the queue: the document, `.run.lock`, the generation in
`.horse.json` and `.horse.lock`. -/
structure Sight (H : Type) where
  stored : Option (JobMeta H)
  runLock : Bool
  record : Option ℕ
  horseLock : Bool

namespace Sight

/-- `horse_owner_alive`; `none` is unknown, not dead. -/
def horseAlive (s : Sight H) : Option Bool :=
  if s.record = some (JobMeta.diskGeneration s.stored) then some s.horseLock else none

def failedQueueLost (s : Sight H) : Bool :=
  s.stored.any fun m => m.status = some .failed && m.error = some "queue_lost"

def recordedFailure (s : Sight H) : Bool :=
  s.stored.any fun m => m.status = some .failed && m.error ≠ some "queue_lost"

def stillInflight (status : Option RqStatus) (s : Sight H) : Bool :=
  status.any RqStatus.inflight || s.runLock

def queueLostCorpse (status : Option RqStatus) (s : Sight H) : Option Bool :=
  if !status.any RqStatus.inflight || !s.failedQueueLost then none
  else if s.runLock then some false
  else s.horseAlive.map (!·)

def startedWithoutChild (status : Option RqStatus) (s : Sight H) : Bool :=
  status = some .started && !s.runLock &&
    s.stored.any fun m => m.status = some .queued || m.status = some .running

def recordedFailureClear (status : Option RqStatus) (s : Sight H) : Bool :=
  s.recordedFailure && !s.runLock &&
    (!status.any RqStatus.inflight || s.horseAlive = some false)

/-- One look of `_abandoned_started`. -/
def abandoned (status : Option RqStatus) (s : Sight H) : Bool :=
  startedWithoutChild status s && s.horseAlive = some false

end Sight

/-- How a POST that does not enqueue ends. -/
inductive Refusal where
  | reused
  | duplicate
  | stillRunning
  | tooMany
  | unavailable
  deriving DecidableEq, Repr

section

variable [DecidableEq H]

/-- `publisher_changed`: a missing stamp does not count. -/
def publisherChanged (code : Code H) (stored : Option (JobMeta H)) : Bool :=
  stored.any fun m => m.stamp.publisher.any (· ≠ code.hash)

/-- What the calls of one POST before the session lock answer; `none` is Redis down. The
second look is the recheck, `waited` is `_wait_until_clear`, `last` the look after it. -/
structure Looks (H : Type) where
  status : Option (Option RqStatus)
  first : Sight H
  again : Option (Option RqStatus)
  second : Sight H
  stop : Option Unit
  waited : Option Bool
  last : Sight H

/-- `_inflight_response`: the answer, or `none` when the caller may go on. -/
def inflightResponse (code : Code H) (rebuild : Bool) (k : Looks H) : Option Refusal :=
  match k.status with
  | none => some .unavailable
  | some status =>
    let rechecked := (k.first.queueLostCorpse status).isSome
    if rechecked && k.again.isNone then some .unavailable
    else
      match if rechecked then k.again.bind k.second.queueLostCorpse else none with
      | some true => none
      | some false => some .stillRunning
      | none =>
        if k.first.abandoned status && k.again.any fun st => k.second.abandoned st then none
        else if k.first.recordedFailure && k.first.stillInflight status then
          match k.waited with
          | none => some .unavailable
          | some clear =>
            if clear || { k.last with stored := k.first.stored }.recordedFailureClear status then
              none
            else some .stillRunning
        else if !k.first.stillInflight status then none
        else if rebuild then some .stillRunning
        else if !publisherChanged code k.first.stored then some .duplicate
        else
          match k.stop, k.waited with
          | some _, some true => none
          | some _, some false => some .stillRunning
          | _, _ => some .unavailable

/-- The checks of `_enqueue_or_reuse`: the answer, or `none` when it goes on to enqueue. -/
def lockedResponse (code : Code H) (rebuild ready : Bool) (status : Option RqStatus)
    (s : Sight H) : Option Refusal :=
  let corpse := s.queueLostCorpse status
  let busy := s.runLock || (status.any RqStatus.inflight && !s.startedWithoutChild status)
  if corpse = some false then some .stillRunning
  else if corpse ≠ some true && busy && !s.recordedFailureClear status then
    if rebuild || publisherChanged code s.stored then some .stillRunning else some .duplicate
  else if ready && !rebuild then some .reused
  else none

end

end FinanceContext
