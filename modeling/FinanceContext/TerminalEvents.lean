import FinanceContext.JobTraces

/-!
Terminal events against the document: the status write and the event are two steps.
-/

namespace FinanceContext

open CrashLogic Histories

variable {H : Type}

/-- `meta.json` names this generation with the status of the event. -/
def Disk.Records (d : Disk H) (event : TerminalEvent) (generation : ℕ) : Prop :=
  ∃ m, d.dest.metaJson = some m ∧ m.generation = some generation ∧ m.status = some event.status

def announced : List (Instr H) → Option (TerminalEvent × ℕ)
  | .publish event generation :: _ => some (event, generation)
  | .write _ :: rest => announced rest
  | _ => none

def Op.KeepsRecord (op : Op H) : Prop :=
  ∀ d : Disk H, ∀ event generation, d.Records event generation →
    (act op d).Records event generation

/-- Every event of a program follows the write it tells of, with only harmless writes in
between. -/
def Paired : List (Instr H) → Prop
  | [] => True
  | .write op :: rest => (announced rest ≠ none → op.KeepsRecord) ∧ Paired rest
  | .mark _ _ generation _ :: rest =>
    (∀ event g, announced rest = some (event, g) → g = generation ∧ event.status = .failed) ∧
      Paired rest
  | .final _ l :: rest =>
    (∀ event g, announced rest = some (event, g) →
      g = l.payload.generation ∧ event.status = .succeeded) ∧ Paired rest
  | .enqueue _ :: rest | .publish _ _ :: rest | .unlock :: rest =>
    announced rest = none ∧ Paired rest

theorem announced_writes_append (ops : List (Op H)) (rest : List (Instr H)) :
    announced (ops.map .write ++ rest) = announced rest := by
  induction ops with
  | nil => rfl
  | cons op ops ih => exact ih

theorem paired_writes_append {ops : List (Op H)} {rest : List (Instr H)}
    (hops : announced rest ≠ none → ∀ op ∈ ops, op.KeepsRecord) (hrest : Paired rest) :
    Paired (ops.map .write ++ rest) := by
  induction ops with
  | nil => exact hrest
  | cons op ops ih =>
    refine ⟨fun hne => ?_, ih fun hne op' hop' => hops hne op' (List.mem_cons_of_mem _ hop')⟩
    have hrest' : announced rest ≠ none := fun h => hne ((announced_writes_append ops rest).trans h)
    exact hops hrest' op List.mem_cons_self

theorem paired_writes (ops : List (Op H)) : Paired (ops.map Instr.write) := by
  have h : Paired (ops.map Instr.write ++ []) :=
    paired_writes_append (fun hne => absurd rfl hne) trivial
  rwa [List.append_nil] at h

theorem announced_writes (ops : List (Op H)) : announced (ops.map Instr.write) = none := by
  have h := announced_writes_append ops []
  rwa [List.append_nil] at h

theorem keepsRecord_warning (g : ℕ) (w : String) :
    (Op.updateMeta (H := H) (JobMeta.appendExportWarning g w)).KeepsRecord := by
  rintro d event generation ⟨m, hm, hgeneration, hstatus⟩
  refine ⟨m.appendExportWarning g w, ?_, ?_, ?_⟩
  · simp only [act, hm, Option.getD_some]
  · rw [JobMeta.generation_appendExportWarning, hgeneration]
  · rw [JobMeta.status_appendExportWarning, hstatus]

theorem status_failureEvent (error : String) : (failureEvent error).status = .failed := by
  unfold failureEvent
  split_ifs <;> rfl

theorem paired_markProgram (jobId error : String) (g : ℕ) (detail : Option String) :
    Paired (markProgram (H := H) jobId error g detail) := by
  refine ⟨fun event g' h => ?_, rfl, trivial⟩
  simp only [announced, Option.some.injEq, Prod.mk.injEq] at h
  obtain ⟨rfl, rfl⟩ := h
  exact ⟨rfl, status_failureEvent error⟩

section

variable [DecidableEq H]

theorem paired_loaded (code : Code H) (l : Launch) (d : Disk H) (rest : List (Instr H))
    (hannounced : announced rest = none) (hrest : Paired rest) :
    Paired (((loadedStages code l d).map .write ++ .final code l ::
      ((exportBook l d).map .write ++ [.publish .succeeded l.payload.generation])) ++ rest) := by
  rw [List.append_assoc, List.cons_append, List.append_assoc]
  refine paired_writes_append (fun hne => absurd rfl hne) ⟨fun event g h => ?_, ?_⟩
  · rw [announced_writes_append] at h
    simp only [List.singleton_append, announced, Option.some.injEq, Prod.mk.injEq] at h
    obtain ⟨rfl, rfl⟩ := h
    exact ⟨rfl, rfl⟩
  · refine paired_writes_append (fun _ op hop => ?_) ⟨hannounced, hrest⟩
    obtain ⟨w, -, rfl⟩ := List.mem_map.mp hop
    exact keepsRecord_warning _ _

theorem program_paired (a : Action H) (d : Disk H) :
    announced (a.program d) = none ∧ Paired (a.program d) := by
  cases a with
  | post code u =>
    simp only [Action.program, postProgram]
    split_ifs
    · exact ⟨rfl, rfl, trivial⟩
    · rw [announced_writes_append]
      exact ⟨rfl, paired_writes_append (fun hne => absurd rfl hne) ⟨rfl, rfl, trivial⟩⟩
  | run code l =>
    simp only [Action.program, runProgram]
    generalize cond (fun d' : Disk H => d'.dest.hasContext)
      (writeSharedStamp code (invalidation code d)) (fun _ => [])
      (finish act (runArtifacts code l) d) = stamp
    have htail : Paired (.unlock :: stamp.map Instr.write) :=
      ⟨announced_writes stamp, paired_writes stamp⟩
    rw [List.append_assoc, announced_writes_append]
    split_ifs
    · rw [announced_writes_append]
      refine ⟨rfl, paired_writes_append (fun hne => ?_) (paired_writes_append ?_ htail)⟩
      · rw [announced_writes_append] at hne
        exact absurd rfl hne
      · exact fun hne => absurd rfl hne
    · have hnone : announced (((loadedStages code l (finish act (invalidateForRun code) d)).map
          Instr.write ++ .final code l :: ((exportBook l (finish act (invalidateForRun code) d)).map
          .write ++ [.publish .succeeded l.payload.generation])) ++
          .unlock :: stamp.map .write) = none := by
        rw [List.append_assoc, announced_writes_append]
        rfl
      refine ⟨hnone, paired_writes_append (fun hne => absurd hnone hne) ?_⟩
      exact paired_loaded code l _ _ rfl htail
    · exact ⟨rfl, paired_writes_append (fun hne => absurd rfl hne) htail⟩
  | fail jobId error g detail => exact ⟨rfl, paired_markProgram jobId error g detail⟩
  | finish jobId g =>
    simp only [Action.program]
    split_ifs
    · exact ⟨rfl, trivial⟩
    all_goals exact ⟨rfl, paired_markProgram jobId _ g none⟩
  | busy cap jobId g =>
    simp only [Action.program]
    split_ifs
    · exact ⟨rfl, paired_markProgram jobId _ g _⟩
    · exact ⟨rfl, fun hne => absurd rfl hne, trivial⟩

end

namespace Trace

/-- A terminal event that is published now is true of the document, and follows a status
write that was not refused. -/
def Truthful (e : Event H) (t : Trace H) : Prop :=
  ∀ i event generation rest, e = .tick i → t.procs i = .publish event generation :: rest →
    t.disk.Records event generation ∧ t.granted i = true

/-- The guards of the two status writes let this one through. -/
def Accepts (t : Trace H) : Instr H → Prop
  | .mark _ _ generation _ => t.markAccepted generation = true
  | .final _ l => t.finalAccepted l.payload.generation = true
  | _ => True

/-- The step's status write is not refused, and while the event of another process is still
to be published its write leaves the generation and the status of `meta.json` alone. -/
def Orderly (e : Event H) (t : Trace H) : Prop :=
  ∀ i ins rest, e = .tick i → t.procs i = ins :: rest →
    t.Accepts ins ∧ ((∃ j, j ≠ i ∧ announced (t.procs j) ≠ none) →
      ∀ op event generation, t.opOf ins = some op → t.disk.Records event generation →
        (act op t.disk).Records event generation)

/-- What is announced is recorded. -/
structure Announcing (t : Trace H) : Prop where
  paired : ∀ i, Paired (t.procs i)
  recorded : ∀ i event generation, announced (t.procs i) = some (event, generation) →
    t.disk.Records event generation ∧ t.granted i = true

theorem records_mark {t : Trace H} {g : ℕ} (h : t.markAccepted g = true) (jobId error : String)
    (detail : Option String) (event : TerminalEvent) (hevent : event.status = .failed) :
    (act (.updateMeta (JobMeta.markJobFailed t.disk.dest.ready jobId error g detail))
      t.disk).Records event g := by
  refine ⟨_, rfl, ?_⟩
  have hguard : (t.disk.dest.metaJson.getD {}).generation.any (· ≠ g) = false ∧
      (t.disk.dest.ready && (t.disk.dest.metaJson.getD {}).terminal) = false := by
    unfold markAccepted at h
    cases hm : t.disk.dest.metaJson with
    | none => exact ⟨rfl, Bool.and_false _⟩
    | some m =>
      simp only [hm, Option.all_some, Bool.and_eq_true, Bool.not_eq_true'] at h
      exact h
  rw [hevent]
  simp only [JobMeta.markJobFailed, hguard.1, hguard.2, Bool.false_eq_true, if_false, and_self]

theorem records_final {t : Trace H} {l : Launch} (code : Code H)
    (h : t.finalAccepted l.payload.generation = true) (event : TerminalEvent)
    (hevent : event.status = .succeeded) :
    (act (.updateMeta (JobMeta.writeMeta code l.payload .succeeded "done" l.warnings))
      t.disk).Records event l.payload.generation := by
  refine ⟨_, rfl, ?_⟩
  have hguard : (t.disk.dest.metaJson.getD {}).generation.any (l.payload.generation < ·) = false := by
    unfold finalAccepted at h
    cases hm : t.disk.dest.metaJson with
    | none => rfl
    | some m =>
      simp only [hm, Option.all_some, Bool.not_eq_true'] at h
      exact h
  rw [hevent]
  simp only [JobMeta.writeMeta, hguard, Bool.false_eq_true, if_false, JobMeta.fresh, and_self]

variable {t : Trace H}

theorem granted_exec_of_ne {i j : ℕ} (hj : j ≠ i) (ins : Instr H) :
    (t.exec i ins).granted j = t.granted j := by
  cases ins with
  | mark jobId error g detail => exact Function.update_of_ne hj _ _
  | final code l => exact Function.update_of_ne hj _ _
  | _ => rfl

theorem Announcing.exec_self {i : ℕ} {ins : Instr H} {rest : List (Instr H)} (h : t.Announcing)
    (hi : t.procs i = ins :: rest) (haccepts : t.Accepts ins) {event : TerminalEvent}
    {generation : ℕ} (hann : announced rest = some (event, generation)) :
    (t.exec i ins).disk.Records event generation ∧ (t.exec i ins).granted i = true := by
  have hpaired := h.paired i
  rw [hi] at hpaired
  cases ins with
  | write op =>
    have hsame : announced (t.procs i) = some (event, generation) := by rw [hi, announced, hann]
    obtain ⟨hrecords, hgranted⟩ := h.recorded i event generation hsame
    have hkeeps := hpaired.1 (by rw [hann]; exact Option.some_ne_none _)
    exact ⟨hkeeps t.disk event generation hrecords, hgranted⟩
  | mark jobId error g detail =>
    obtain ⟨rfl, hfailed⟩ := hpaired.1 event generation hann
    refine ⟨records_mark haccepts jobId error detail event hfailed, ?_⟩
    exact (Function.update_self ..).trans haccepts
  | final code l =>
    obtain ⟨rfl, hsucceeded⟩ := hpaired.1 event generation hann
    refine ⟨records_final code haccepts event hsucceeded, ?_⟩
    exact (Function.update_self ..).trans haccepts
  | enqueue g => exact absurd (hpaired.1.symm.trans hann) (Option.some_ne_none _).symm
  | publish e g => exact absurd (hpaired.1.symm.trans hann) (Option.some_ne_none _).symm
  | unlock => exact absurd (hpaired.1.symm.trans hann) (Option.some_ne_none _).symm

theorem Announcing.exec {i : ℕ} {ins : Instr H} {rest : List (Instr H)} (h : t.Announcing)
    (hi : t.procs i = ins :: rest) (hfits : t.Accepts ins ∧
      ((∃ j, j ≠ i ∧ announced (t.procs j) ≠ none) → ∀ op event generation,
        t.opOf ins = some op → t.disk.Records event generation →
          (act op t.disk).Records event generation)) :
    ((t.exec i ins).setProc i rest).Announcing := by
  have hpaired := h.paired i
  rw [hi] at hpaired
  have hrest : Paired rest := by cases ins <;> exact hpaired.2
  constructor
  · intro j
    change Paired (Function.update t.procs i rest j)
    by_cases hj : j = i
    · rw [hj, Function.update_self]
      exact hrest
    · rw [Function.update_of_ne hj]
      exact h.paired j
  · intro j event generation hann
    change announced (Function.update t.procs i rest j) = _ at hann
    change (t.exec i ins).disk.Records event generation ∧ (t.exec i ins).granted j = true
    by_cases hj : j = i
    · subst hj
      rw [Function.update_self] at hann
      exact h.exec_self hi hfits.1 hann
    · rw [Function.update_of_ne hj] at hann
      obtain ⟨hrecords, hgranted⟩ := h.recorded j event generation hann
      rw [granted_exec_of_ne hj]
      refine ⟨?_, hgranted⟩
      change ((t.opOf ins).elim t.disk fun op => act op t.disk).Records event generation
      cases hop : t.opOf ins with
      | none => exact hrecords
      | some op =>
        have hother : ∃ j, j ≠ i ∧ announced (t.procs j) ≠ none :=
          ⟨j, hj, by rw [hann]; exact Option.some_ne_none _⟩
        exact hfits.2 hother op event generation hop hrecords

theorem Announcing.setProc {i : ℕ} {prog : List (Instr H)} (h : t.Announcing)
    (hann : announced prog = none) (hpaired : Paired prog) : (t.setProc i prog).Announcing := by
  constructor
  · intro j
    change Paired (Function.update t.procs i prog j)
    by_cases hj : j = i
    · rwa [hj, Function.update_self]
    · rw [Function.update_of_ne hj]
      exact h.paired j
  · intro j event generation hj
    change announced (Function.update t.procs i prog j) = _ at hj
    by_cases hij : j = i
    · rw [hij, Function.update_self, hann] at hj
      cases hj
    · rw [Function.update_of_ne hij] at hj
      exact h.recorded j event generation hj

variable [DecidableEq H]

theorem Announcing.step {e : Event H} (h : t.Announcing) (hfits : Orderly e t) :
    (step e t).Announcing := by
  cases e with
  | start i a =>
    simp only [Trace.step]
    split_ifs
    · exact h
    all_goals
      obtain ⟨hann, hpaired⟩ := program_paired a t.disk
      exact Announcing.setProc ⟨h.paired, h.recorded⟩ hann hpaired
  | tick i =>
    cases hi : t.procs i with
    | nil => simpa only [Trace.step, hi] using h
    | cons ins rest =>
      simp only [Trace.step, hi]
      exact h.exec hi (hfits i ins rest rfl hi)
  | kill i => exact Announcing.setProc ⟨h.paired, h.recorded⟩ rfl trivial
  | book b => exact ⟨h.paired, h.recorded⟩

omit [DecidableEq H] in
theorem Announcing.truthful (h : t.Announcing) (e : Event H) : Truthful e t := by
  intro i event generation rest _ hi
  exact h.recorded i event generation (by rw [hi]; rfl)

end Trace

/-- In a run whose status writes are accepted, and in which no other process rewrites the
status before the event is out, every terminal event is true. -/
theorem terminal_events_true [DecidableEq H] (source legacy : Bool) (es : List (Trace.Event H))
    (h : Along Trace.step Trace.Orderly es (Trace.uploaded source legacy)) :
    Along Trace.step Trace.Truthful es (Trace.uploaded source legacy) := by
  have hstart : (Trace.uploaded source legacy : Trace H).Announcing := by
    refine ⟨fun _ => trivial, fun i event generation hann => ?_⟩
    cases hann
  exact h.imp (fun e t ht _ => ht.truthful e) (fun e t ht hfits => ht.step hfits) hstart

def taking {H : Type} (i : ℕ) (a : Action H) (n : ℕ) : List (Trace.Event H) :=
  .start i a :: List.replicate n (.tick i)

theorem terminal_events_true_failure :
    Along Trace.step Trace.Orderly (taking 0 (.fail "job" "TimeoutError" 1 none) 2)
        (Trace.uploaded true false : Trace ℕ) ∧
      Along Trace.step Trace.Truthful (taking 0 (.fail "job" "TimeoutError" 1 none) 2)
        (Trace.uploaded true false : Trace ℕ) := by
  have hfits : Along Trace.step Trace.Orderly (taking 0 (.fail "job" "TimeoutError" 1 none) 2)
      (Trace.uploaded true false : Trace ℕ) := by
    refine ⟨fun i ins rest he => (by cases he), fun i ins rest he hi => ?_,
      fun i ins rest he hi => ?_, trivial⟩
    all_goals
      cases he
      cases hi
      refine ⟨by first | rfl | trivial, ?_⟩
      rintro ⟨j, hj, hann⟩
      simp [Trace.step, Trace.setProc, Trace.uploaded, Trace.exec, Action.locks, markProgram,
        Action.program, Function.update_of_ne hj, announced] at hann
  exact ⟨hfits, terminal_events_true true false _ hfits⟩

def lateTimeout : List (Trace.Event ℕ) :=
  taking 0 (.post (release 1 1 1 1) (upload false)) 11 ++
    (taking 1 (.run (release 1 1 1 1) (launch 1)) 34 ++
      taking 2 (.fail "job" "TimeoutError" 1 none) 1)

/-- The mark is refused, and its event is published all the same. -/
theorem lateTimeout_published :
    ¬ Along Trace.step Trace.Truthful (lateTimeout ++ [.tick 2])
      (Trace.uploaded true false : Trace ℕ) := by
  intro h
  have hprocs : (after Trace.step lateTimeout (Trace.uploaded true false)).procs 2 =
      [.publish .failed 1] := rfl
  obtain ⟨⟨m, hm, -, hstatus⟩, -⟩ := (along_append.mp h).2.1 2 .failed 1 [] rfl hprocs
  have hdone : ((after Trace.step lateTimeout (Trace.uploaded true false)).disk.dest.metaJson.bind
      JobMeta.status) = some .succeeded := by decide +kernel
  rw [hm, Option.bind_some, hstatus] at hdone
  cases hdone

end FinanceContext
