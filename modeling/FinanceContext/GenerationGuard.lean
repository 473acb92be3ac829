import FinanceContext.JobHistory

namespace FinanceContext

open CrashLogic Histories JobMeta

variable {H : Type}

/-- A write to `meta.json` on behalf of one run. `busy` is `_requeue_shared_cache`: `seen` is
the document it read, which is not always the one it writes over. -/
inductive RunWrite (H : Type) where
  | status (code : Code H) (p : Payload) (status : JobStatus) (stage : String)
      (warnings : List String)
  | failed (ready : Bool) (jobId error : String) (generation : ℕ) (detail : Option String)
  | exportWarning (generation : ℕ) (warning : String)
  | busy (cap : ℕ) (seen : Option (JobMeta H)) (ready : Bool) (jobId : String) (generation : ℕ)

namespace RunWrite

def generation : RunWrite H → ℕ
  | status _ p _ _ _ => p.generation
  | failed _ _ _ g _ => g
  | exportWarning g _ => g
  | busy _ _ _ _ g => g

def apply : RunWrite H → JobMeta H → JobMeta H
  | status code p st stage ws => writeMeta code p st stage ws
  | failed ready jobId error g detail => markJobFailed ready jobId error g detail
  | exportWarning g w => appendExportWarning g w
  | busy cap seen ready jobId g =>
    if cap ≤ busySeen seen then
      markJobFailed ready jobId "shared_cache_busy" g (some "shared book cache stayed busy")
    else busyStamp (busySeen seen + 1)

/-- No requeue below the cap, or one whose count the document already carries. -/
def Guarded (stored : JobMeta H) : RunWrite H → Prop
  | busy cap seen _ _ _ => cap ≤ busySeen seen ∨ stored.busyRetries = some (busySeen seen + 1)
  | _ => True

theorem markJobFailed_of_lt {g s : ℕ} {stored : JobMeta H} (hs : stored.generation = some s)
    (hg : g < s) (ready : Bool) (jobId error : String) (detail : Option String) :
    stored.markJobFailed ready jobId error g detail = stored := by
  unfold markJobFailed
  have hne : s ≠ g := by omega
  rw [hs, if_pos (by simpa using hne)]

theorem busyStamp_eq_self {attempt : ℕ} {stored : JobMeta H} :
    stored.busyStamp attempt = stored ↔ stored.busyRetries = some attempt := by
  constructor
  · intro h
    rw [← h]
    rfl
  · intro h
    unfold busyStamp
    rw [← h]

theorem apply_eq_self_iff {s : ℕ} {stored : JobMeta H} (hs : stored.generation = some s)
    (w : RunWrite H) (hw : w.generation < s) : w.apply stored = stored ↔ w.Guarded stored := by
  cases w with
  | status code p st stage ws =>
    have hnewer : stored.generation.any (p.generation < ·) = true := by
      simpa [hs, generation] using hw
    simp only [apply, writeMeta, Guarded, if_pos hnewer]
  | failed ready jobId error g detail =>
    have hkept := markJobFailed_of_lt hs hw ready jobId error detail
    exact iff_of_true hkept trivial
  | exportWarning g warning =>
    have hnewer : stored.generation.any (g < ·) = true := by simpa [hs, generation] using hw
    simp only [apply, appendExportWarning, Guarded, if_pos hnewer]
  | busy cap seen ready jobId g =>
    simp only [apply, Guarded]
    by_cases hcap : cap ≤ busySeen seen
    · rw [if_pos hcap]
      exact iff_of_true (markJobFailed_of_lt hs hw _ _ _ _) (.inl hcap)
    · rw [if_neg hcap, busyStamp_eq_self]
      exact (or_iff_right hcap).symm

end RunWrite

theorem runWrite_of_runOp {code : Code H} {l : Launch} {op : Op H} (hop : RunOp code l op)
    (d : Disk H) :
    (act op d).dest.metaJson = d.dest.metaJson ∨
      ∃ w : RunWrite H, w.generation = l.payload.generation ∧
        (act op d).dest.metaJson = some (w.apply (d.dest.metaJson.getD {})) := by
  cases hop with
  | status st stage ws _ => exact .inr ⟨.status code l.payload st stage ws, rfl, rfl⟩
  | warning w => exact .inr ⟨.exportWarning l.payload.generation w, rfl, rfl⟩
  | _ => exact .inl rfl

theorem runWrite_failJob (jobId error : String) (g : ℕ) (detail : Option String) (d : Disk H) :
    (CrashLogic.finish act (failJob jobId error g detail) d).dest.metaJson =
      some ((RunWrite.failed d.dest.ready jobId error g detail).apply (d.dest.metaJson.getD {})) :=
  rfl

theorem runWrite_requeueSharedCache (cap : ℕ) (jobId : String) (g : ℕ) (d : Disk H) :
    (CrashLogic.finish act (requeueSharedCache cap jobId g) d).dest.metaJson =
      some ((RunWrite.busy cap d.dest.metaJson d.dest.ready jobId g).apply
        (d.dest.metaJson.getD {})) := by
  simp only [CrashLogic.finish, requeueSharedCache, RunWrite.apply]
  by_cases hcap : cap ≤ busySeen d.dest.metaJson
  · rw [if_pos hcap, if_pos hcap]
    rfl
  · rw [if_neg hcap, if_neg hcap]
    rfl

def secondGeneration : JobMeta ℕ where
  jobId := some "job"
  status := some .queued
  stage := some "queued"
  generation := some 2

end FinanceContext
