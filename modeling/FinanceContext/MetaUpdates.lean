import FinanceContext.Artifacts
import FinanceContext.MetaDocuments

namespace FinanceContext

open CrashLogic LockedFiles

section Meta

variable {ι H β : Type}

/-- The callers of `update_json` on `meta.json`. -/
inductive MetaCall (H : Type) where
  | record (staleFrom : Option Stage) (generation : ℕ)
  | stamp (payload : Payload)
  | write (code : Code H) (payload : Payload) (status : JobStatus) (stage : String)
    (warnings : List String)
  | fail (jobId error : String) (generation : ℕ) (detail : Option String)
  | warn (generation : ℕ) (warning : String)
  | publishWarn (warning : String)
  | busy (attempt : ℕ)

def setExportWarning (warning : String) (stored : JobMeta H) : JobMeta H :=
  if stored.warnings.contains warning then stored
  else { stored with warnings := stored.warnings ++ [warning] }

namespace MetaCall

/-- What the call does to the document; `ready` says whether the artifacts are there. -/
def update : MetaCall H → Bool → JobMeta H → JobMeta H
  | record staleFrom generation, _, m => m.recordRebuildStage staleFrom generation
  | stamp payload, _, m => m.postStamp payload
  | write code payload status stage warnings, _, m =>
    m.writeMeta code payload status stage warnings
  | fail jobId error generation detail, ready, m =>
    m.markJobFailed ready jobId error generation detail
  | warn generation warning, _, m => m.appendExportWarning generation warning
  | publishWarn warning, _, m => setExportWarning warning m
  | busy attempt, _, m => m.busyStamp attempt

def keeps : MetaCall H → Bool → JobMeta H → Bool
  | write _ payload _ _ _, _, m => m.generation.any (payload.generation < ·)
  | fail _ _ generation _, ready, m =>
    m.generation.any (· ≠ generation) || ready && m.terminal
  | warn generation warning, _, m =>
    m.generation.any (generation < ·) || m.warnings.contains warning
  | publishWarn warning, _, m => m.warnings.contains warning
  | record _ _, _, _ | stamp _, _, _ | busy _, _, _ => false

def mutate (call : MetaCall H) (ready : Bool) (m : JobMeta H) : Option (JobMeta H) :=
  if call.keeps ready m then none else some (call.update ready m)

theorem update_of_keeps {call : MetaCall H} {ready : Bool} {m : JobMeta H}
    (h : call.keeps ready m = true) : call.update ready m = m := by
  cases call with
  | record _ _ | stamp _ | busy _ => cases h
  | write code payload status stage warnings => exact if_pos h
  | publishWarn warning => exact if_pos h
  | fail jobId error generation detail =>
    simp only [update, JobMeta.markJobFailed]
    by_cases hother : m.generation.any (· ≠ generation) = true
    · exact if_pos hother
    · rw [if_neg hother]
      apply if_pos
      simp only [keeps, Bool.or_eq_true] at h
      exact h.resolve_left hother
  | warn generation warning =>
    simp only [update, JobMeta.appendExportWarning]
    by_cases hnew : m.generation.any (generation < ·) = true
    · exact if_pos hnew
    · rw [if_neg hnew]
      apply if_pos
      simp only [keeps, Bool.or_eq_true] at h
      exact h.resolve_left hnew

@[simp] theorem getD_mutate (call : MetaCall H) (ready : Bool) (m : JobMeta H) :
    (call.mutate ready m).getD m = call.update ready m := by
  unfold mutate
  split_ifs with h
  · exact (update_of_keeps h).symm
  · rfl

end MetaCall

def metaOp (calls : ι → MetaCall H) (entry : Entry ι Bool) : Op H :=
  .updateMeta fun m =>
    (calls entry.caller).update entry.sight (if entry.readable then m else {})

variable (codec : DocumentCodec (JobMeta H) β) (calls : ι → MetaCall H)

/-- The file under the callers of `update_json`. -/
def metaPlan : ι → Bool → Option (List β) → Option (List β) :=
  updateJson codec {} fun i => (calls i).mutate

theorem metaJson_apply (log : List (Entry ι Bool)) (d : Disk H) :
    (apply act (log.map (metaOp calls)) d).dest.metaJson =
      afterCalls {} (fun i => (calls i).mutate) log d.dest.metaJson := by
  induction log generalizing d with
  | nil => rfl
  | cons entry log ih =>
    have hnext : (act (metaOp calls entry) d).dest.metaJson =
        some (updated {} (fun i => (calls i).mutate) entry d.dest.metaJson) := by
      simp only [act, metaOp, updated, MetaCall.getD_mutate]
    have hrest := ih (act (metaOp calls entry) d)
    rw [hnext] at hrest
    exact hrest

variable [DecidableEq ι]

/-- In every run the file is what whole calls make of it in some order: none is lost, none is made
twice, a call that is over comes before the ones that start later, and no text is seen in part. -/
theorem meta_updates_serial (es : List (LockedFiles.Event ι Bool)) (first : Option (List β)) :
    let s := run (metaPlan codec calls) es first
    (∀ d : Disk H, (apply act (s.log.map (metaOp calls))
        { d with dest.metaJson := codec.document first }).dest.metaJson =
      codec.document s.content) ∧
    (s.log.map (·.caller)).Nodup ∧
    (∀ i, s.phase i = .finished → ∃ entry ∈ s.log, entry.caller = i) ∧
    (∀ i, (s.phase i).pending = true → ∀ entry ∈ s.log, entry.caller ≠ i) ∧
    (s.content = first ∨ ∃ m, s.content = some (codec.print m)) ∧
    ∀ es', ∃ rest, (run (metaPlan codec calls) (es ++ es') first).log = s.log ++ rest ∧
      ∀ i, s.phase i = .finished → ∀ entry ∈ rest, entry.caller ≠ i := by
  intro s
  have hordered : Ordered (metaPlan codec calls) first s := ordered_run es first
  obtain ⟨hdocument, htext, hcallers, heffective⟩ :=
    updates_serial codec {} (fun i => (calls i).mutate) es first
  refine ⟨fun d => ?_, hcallers, heffective, hordered.pending, htext, fun es' => ?_⟩
  · exact (metaJson_apply calls s.log _).trans hdocument.symm
  · obtain ⟨rest, hlog, hrest⟩ := log_run es es' first
    refine ⟨rest, hlog, fun i hi => ?_⟩
    apply hrest i
    change (s.phase i).pending = false
    rw [hi]
    rfl

end Meta

def lostCalls : Fin 3 → MetaCall String
  | 0 => .warn 1 "export"
  | 1 => .stamp ⟨"job", none, none, 2⟩
  | 2 => .fail "job" "process_lost" 2 none

def lostEvents : List (LockedFiles.Event (Fin 3) Bool) :=
  [.lock 0, .load 0 true, .decide 0 false, .write 0 7, .lock 1, .stop 0] ++
    [1, 2].flatMap fun i =>
      [.lock i, .load i true, .decide i false, .write i 200, .replace i, .unlock i]

theorem meta_updates_serial_lost :
    let s := run (metaPlan metaCodec lostCalls) lostEvents none
    (∀ d : Disk String, (apply act (s.log.map (metaOp lostCalls))
        { d with dest.metaJson := metaCodec.document none }).dest.metaJson =
      metaCodec.document s.content) ∧
    s.log.map (·.caller) = [1, 2] ∧
    metaCodec.document s.content = some
      { jobId := some "job", status := some .failed, stage := some "failed",
        error := some "process_lost", generation := some 2 } := by
  refine ⟨fun d => ?_, ?_, ?_⟩
  · simpa only using (meta_updates_serial metaCodec lostCalls lostEvents none).1 d
  · decide +kernel
  · decide +kernel

end FinanceContext
