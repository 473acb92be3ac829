import FinanceContext.JobHistory

/-!
The run the queue makes again after a kill, and the horse that judges it by the
document alone.
-/

namespace FinanceContext

open CrashLogic

variable {H : Type}

/-- No newer POST has stamped the document. -/
def GenerationUpTo (g : ℕ) (d : Dest H) : Prop := ∀ m ∈ d.metaJson, ∀ n ∈ m.generation, n ≤ g

instance (g : ℕ) (d : Dest H) : Decidable (GenerationUpTo g d) :=
  inferInstanceAs (Decidable (∀ m ∈ d.metaJson, ∀ n ∈ m.generation, n ≤ g))

/-- The job ended well: the document says so for this generation, and every file a
succeeded job promises is there. -/
def Recovered (g : ℕ) (d : Dest H) : Prop :=
  (∃ m ∈ d.metaJson, m.status = some .succeeded ∧ m.generation = some g) ∧ d.ready = true

instance (g : ℕ) (d : Dest H) : Decidable (Recovered g d) :=
  inferInstanceAs (Decidable ((∃ m ∈ d.metaJson, _) ∧ _))

/-- A run would keep this graph, and its Markdown is missing. -/
def Dest.graphTorn (d : Dest H) : Bool :=
  d.has .graphJson && d.has .graphEdges && !d.has .graphMd

theorem files_finish {p : Plan (Disk H) (Op H)} (h : Emits (fun op => op.sparesFiles = true) p)
    (d : Disk H) : (finish act p d).dest.files = d.dest.files :=
  h.finish_invariant (I := fun t => t.dest.files = d.dest.files)
    (fun _ hop t ht => (files_of_sparesFiles hop t).trans ht) d rfl

theorem generation_act_of_clears {g : ℕ} {op : Op H} (hop : op.clears = true) (d : Disk H)
    (h : GenerationUpTo g d.dest) : GenerationUpTo g (act op d).dest :=
  fun m hm => h m (meta_of_clears hop hm)

theorem generation_act_of_runOp {code : Code H} {l : Launch} {op : Op H} (hop : RunOp code l op)
    (d : Disk H) (h : GenerationUpTo l.payload.generation d.dest) :
    GenerationUpTo l.payload.generation (act op d).dest := by
  have hstored (n : ℕ) (hn : (d.dest.metaJson.getD {}).generation = some n) :
      n ≤ l.payload.generation := by
    cases hd : d.dest.metaJson with
    | none =>
      rw [hd] at hn
      cases hn
    | some m =>
      rw [hd] at hn
      exact h m hd n hn
  cases hop with
  | status st stage ws _ =>
    intro m hm n hn
    obtain rfl := (Option.some.inj hm).symm
    unfold JobMeta.writeMeta at hn
    split_ifs at hn
    · exact hstored n hn
    · exact Nat.le_of_eq (Option.some.inj hn).symm
  | warning w =>
    intro m hm n hn
    obtain rfl := (Option.some.inj hm).symm
    unfold JobMeta.appendExportWarning at hn
    split_ifs at hn <;> exact hstored n hn
  | _ => exact h

theorem graphStage_finish (code : Code H) (d : Disk H) :
    (finish act (graphStage code) d).dest.has .graphJson = true ∧
      ((finish act (graphStage code) d).dest.has .graphMd = true ↔ d.dest.graphTorn = false) := by
  by_cases hkept : (d.dest.has .graphJson && d.dest.has .graphEdges) = true
  · have hstage : finish act (graphStage code) d = d := by
      simp [finish, graphStage, CrashLogic.cond, hkept]
    rw [Bool.and_eq_true] at hkept
    rw [hstage]
    simp [Dest.graphTorn, hkept.1, hkept.2]
  · have hstage : finish act (graphStage code) d = finish act (buildFormulaGraph code) d := by
      simp only [finish, graphStage, CrashLogic.cond, hkept, Bool.false_eq_true, ↓reduceIte]
    rw [hstage, Dest.graphTorn, Bool.eq_false_iff.mpr hkept]
    exact ⟨rfl, iff_of_true rfl rfl⟩

theorem graphTorn_clearedFrom (stale : Stage) (d : Dest H) :
    (d.clearedFrom stale).graphTorn = (!stale.reached .graph && d.graphTorn) := by
  cases h : stale.reached .graph <;>
    simp [Dest.graphTorn, Dest.has, Dest.clearedFrom, SessionFile.stage, h]

theorem publishStages_files (code : Code H) (l : Launch) (d : Disk H) (f : SessionFile) :
    (finish act (publishStages code l) d).dest.files f =
      if f.stage = .publish then some code else d.dest.files f := by
  have hexport : Emits (fun op => op.sparesFiles = true) (exportBook (H := H) l) := by
    intro t op hop
    obtain ⟨w, -, rfl⟩ := List.mem_map.mp hop
    rfl
  simp only [publishStages, finish_seq, files_finish hexport]
  cases f <;> rfl

theorem publishStages_meta (code : Code H) (l : Launch) (d : Disk H)
    (h : GenerationUpTo l.payload.generation d.dest) :
    ∃ m, (finish act (publishStages code l) d).dest.metaJson = some m ∧
      m.status = some .succeeded ∧ m.generation = some l.payload.generation := by
  have hrender : Emits (RunOp code l) (seq act (setStage code l "build") <|
      seq act (buildStage code) <| seq act (setStage code l "render") (renderStage code)) :=
    (emits_setStage code l _).seq (Emits.seq (emits_sessionFiles code l [.contextJson])
      ((emits_setStage code l _).seq (emits_sessionFiles code l [.contextMd, .contextRenderer])))
  have hgen := hrender.finish_invariant (I := fun t => GenerationUpTo l.payload.generation t.dest)
    (fun _ hop t => generation_act_of_runOp hop t) d h
  simp only [finish_seq] at hgen
  simp only [publishStages, finish_seq]
  generalize finish act (renderStage code) _ = t at hgen ⊢
  have hfinal : (finish act (finalMeta code l) t).dest.metaJson =
      some (JobMeta.fresh code l.payload .succeeded "done" l.warnings) := by
    refine congrArg some (JobMeta.writeMeta_of_le _ _ _ _ _ _ fun n hn => ?_)
    cases hd : t.dest.metaJson with
    | none =>
      rw [hd] at hn
      cases hn
    | some m =>
      rw [hd] at hn
      exact hgen m hd n hn
  generalize finish act (finalMeta code l) t = u at hfinal ⊢
  cases hw : l.exportWarning with
  | none =>
    have hexport : finish act (exportBook l) u = u := by simp [finish, exportBook, hw]
    rw [hexport]
    exact ⟨_, hfinal, rfl, rfl⟩
  | some w =>
    have hexport : finish act (exportBook l) u =
        act (.updateMeta (JobMeta.appendExportWarning l.payload.generation w)) u := by
      simp [finish, exportBook, hw]
    refine ⟨_, by rw [hexport]; rfl, ?_, ?_⟩
    · simp [hfinal, JobMeta.fresh]
    · simp [hfinal, JobMeta.fresh]

theorem finishChild_recovered (jobId : String) (g g' : ℕ) (d : Disk H) :
    Recovered g (finish act (finishChild jobId g') d).dest ↔ Recovered g d.dest := by
  by_cases hterm : d.dest.metaJson.any JobMeta.terminal = true
  · have hsame : finish act (finishChild jobId g') d = d := by
      simp [finish, finishChild, hterm]
    rw [hsame]
  · have hd : ¬Recovered g d.dest := by
      rintro ⟨⟨m, hm, hsucc, -⟩, -⟩
      apply hterm
      simp [Option.mem_def.mp hm, JobMeta.terminal, hsucc, JobStatus.terminal]
    refine iff_of_false ?_ hd
    rintro ⟨⟨m, hm, hsucc, -⟩, -⟩
    simp only [finish, finishChild, hterm, Bool.false_eq_true, ↓reduceIte, failJob, apply_cons,
      apply_nil, act, Option.mem_def, Option.some.injEq] at hm
    subst hm
    apply hterm
    have hbefore := JobMeta.succeeded_of_markJobFailed hsucc
    cases hmeta : d.dest.metaJson with
    | none =>
      rw [hmeta] at hbefore
      cases hbefore
    | some m =>
      rw [hmeta] at hbefore
      simp only [Option.getD_some] at hbefore
      simp [JobMeta.terminal, hbefore, JobStatus.terminal]

variable [DecidableEq H]

/-- The states a retry recovers from. Where its deletions keep a finished publication, the
document must already say so and both graph files must be there; where they keep a
graph, it must not be torn. -/
def Resumable (code : Code H) (g : ℕ) (d : Dest H) : Bool :=
  match sessionStaleStage code d.metaJson with
  | none =>
    if d.hasContext then
      (d.metaJson.any fun m => m.status = some .succeeded ∧ m.generation = some g) &&
        d.has .graphJson && d.has .graphMd
    else !d.graphTorn
  | some stale => stale.reached .graph || !d.graphTorn

/-- The run returns a document: a publication is kept, or the source is there. -/
def Completes (code : Code H) (d : Disk H) : Prop :=
  (sessionStaleStage code d.dest.metaJson = none ∧ d.dest.hasContext = true) ∨
    d.book.hasSource = true

instance (code : Code H) (d : Disk H) : Decidable (Completes code d) :=
  inferInstanceAs (Decidable (_ ∧ _ ∨ _))

/-- The queue's second run of a payload, and the horse's last look at the document. -/
def retried (code : Code H) (l : Launch) (d : Disk H) : Disk H :=
  finish act (finishChild l.payload.jobId l.payload.generation) (finish act (pipelineRun code l) d)

theorem runLoaded_recovers (code : Code H) (l : Launch) (d : Disk H)
    (h : GenerationUpTo l.payload.generation d.dest) :
    Recovered l.payload.generation (finish act (runLoaded code l) d).dest ↔
      d.dest.graphTorn = false := by
  have hshared : Emits (fun op => op.sparesFiles = true)
      (seq act (sharedStages code l) (seq act (setStage code l "relations")
        (setStage code l "graph"))) :=
    ((emits_sharedStages code l).mono fun _ h => h.2).seq
      ((spares_setStage code l _).seq (spares_setStage code l _))
  have hemits : Emits (RunOp code l) (seq act (sharedStages code l)
      (seq act (setStage code l "relations") (seq act (setStage code l "graph")
        (graphStage code)))) :=
    ((emits_sharedStages code l).mono fun _ h => h.1).seq ((emits_setStage code l _).seq
      ((emits_setStage code l _).seq (.cond .nil (emits_sessionFiles code l _))))
  have hfiles := files_finish hshared d
  have hgen := hemits.finish_invariant (I := fun t => GenerationUpTo l.payload.generation t.dest)
    (fun _ hop t => generation_act_of_runOp hop t) d h
  simp only [finish_seq] at hfiles hgen
  simp only [runLoaded, sessionStages, finish_seq]
  obtain ⟨m, hm, hsucc, hg⟩ := publishStages_meta code l _ hgen
  generalize finish act (setStage code l "graph") _ = t at hfiles hm ⊢
  obtain ⟨hjson, hmd⟩ := graphStage_finish code t
  have htorn : t.dest.graphTorn = d.dest.graphTorn := by simp only [Dest.graphTorn, Dest.has, hfiles]
  rw [htorn] at hmd
  simp only [Dest.has] at hjson hmd
  simp only [Recovered, Dest.ready, readyArtifacts, List.all_cons, List.all_nil, Dest.has,
    publishStages_files, SessionFile.stage, Bool.and_true, Bool.and_eq_true, hm]
  simp [hjson, hmd, hsucc, hg]

theorem reuseFinished_recovers (code : Code H) (l : Launch) (g : ℕ) (d : Disk H)
    (hc : d.dest.hasContext = true) :
    Recovered g (finish act (reuseFinished code l) d).dest ↔
      ((d.dest.metaJson.any fun m => m.status = some .succeeded ∧ m.generation = some g) &&
        d.dest.has .graphJson && d.dest.has .graphMd) = true := by
  have hkeeps : (finish act (reuseFinished code l) d).dest.metaJson = d.dest.metaJson ∧
      (∀ f, f.stage = .graph →
        (finish act (reuseFinished code l) d).dest.files f = d.dest.files f) ∧
      (finish act (reuseFinished code l) d).dest.hasContext = true := by
    refine (emits_reuseFinished code l).finish_invariant (I := fun t =>
      t.dest.metaJson = d.dest.metaJson ∧ (∀ f, f.stage = .graph → t.dest.files f = d.dest.files f) ∧
        t.dest.hasContext = true) ?_ d ⟨rfl, fun _ _ => rfl, hc⟩
    rintro op hop t ⟨hm, hf, hctx⟩
    simp only [Dest.hasContext, Dest.has, Bool.and_eq_true] at hctx
    rcases hop with rfl | rfl
    all_goals
      refine ⟨hm, fun f hstage => ?_, ?_⟩
      · rw [← hf f hstage]
        cases f <;> first | rfl | cases hstage
      · simp [act, Dest.hasContext, Dest.has, hctx]
  obtain ⟨hmeta, hgraph, hcontext⟩ := hkeeps
  have hfiles := hcontext
  simp only [Dest.hasContext, Dest.has, Bool.and_eq_true] at hfiles
  simp only [Recovered, hmeta, Dest.ready, readyArtifacts, List.all_cons,
    List.all_nil, Dest.has, hgraph .graphJson rfl, hgraph .graphMd rfl, hfiles]
  cases hd : d.dest.metaJson with
  | none => simp
  | some m => simp [and_assoc]

theorem retried_recovers_iff (code : Code H) (l : Launch) (d : Disk H)
    (hgen : GenerationUpTo l.payload.generation d.dest) (hdone : Completes code d) :
    Recovered l.payload.generation (retried code l d).dest ↔
      Resumable code l.payload.generation d.dest = true := by
  have hkept : GenerationUpTo l.payload.generation (finish act (invalidateForRun code) d).dest :=
    (emits_invalidateForRun code).finish_invariant
      (I := fun t => GenerationUpTo l.payload.generation t.dest)
      (fun _ hop t => generation_act_of_clears hop t) d hgen
  have hdest := dest_invalidateForRun code d
  have hsource := hasSource_invalidateForRun code d
  rw [retried, finishChild_recovered, dest_finish_pipelineRun]
  generalize finish act (invalidateForRun code) d = t at hkept hdest hsource ⊢
  have hloaded (hc : t.dest.hasContext = false) (hs : t.book.hasSource = true) :
      Recovered l.payload.generation (finish act (runBody code l) t).dest ↔
        t.dest.graphTorn = false := by
    rw [finish, runBody_of_hasSource code l t hc hs]
    exact runLoaded_recovers code l t hkept
  cases hstale : sessionStaleStage code d.dest.metaJson with
  | none =>
    rw [hstale] at hdest
    simp only at hdest
    cases hc : d.dest.hasContext with
    | true =>
      rw [← hdest] at hc
      rw [finish, runBody_of_hasContext code l t hc]
      refine (reuseFinished_recovers code l _ t hc).trans ?_
      simp only [Resumable, hstale, hdest ▸ hc, ↓reduceIte, hdest]
    | false =>
      have hs : d.book.hasSource = true := by simpa [Completes, hc] using hdone
      rw [hloaded (by rw [hdest, hc]) (by rw [hsource, hs]), hdest]
      simp [Resumable, hstale, hc]
  | some stale =>
    rw [hstale] at hdest
    simp only at hdest
    have hs : d.book.hasSource = true := by simpa [Completes, hstale] using hdone
    have hc : t.dest.hasContext = false := by
      simp [hdest, Dest.hasContext, Dest.has, Dest.clearedFrom, SessionFile.stage]
    rw [hloaded hc (by rw [hsource, hs]), hdest]
    cases hreached : stale.reached .graph <;>
      simp [Resumable, hstale, graphTorn_clearedFrom, hreached]

/-- Whatever write the killed run had reached, the retry recovers exactly when that
write left a resumable state. -/
theorem crash_recovery_iff (code retry : Code H) (l : Launch) (k : ℕ) (d : Disk H)
    (hgen : GenerationUpTo l.payload.generation d.dest)
    (hdone : Completes retry (crash act (pipelineRun code l) k d)) :
    Recovered l.payload.generation (retried retry l (crash act (pipelineRun code l) k d)).dest ↔
      Resumable retry l.payload.generation (crash act (pipelineRun code l) k d).dest = true := by
  apply retried_recovers_iff retry l _ _ hdone
  refine (emits_pipelineRun code l).crash_invariant
    (I := fun t => GenerationUpTo l.payload.generation t.dest) (fun op hop t ht => ?_) k d hgen
  rcases hop with hop | hop | ⟨st, rfl⟩
  · exact generation_act_of_clears hop t ht
  · exact generation_act_of_runOp hop t ht
  · exact ht

def firstPost : Disk ℕ :=
  finish act (enqueueOrReuse (release 1 1 1 1) (upload false))
    ((System.uploaded true false : System Unit ℕ).disk ())

/-- The disk when the first run is killed after `k` writes. -/
def killedAt (k : ℕ) : Disk ℕ := crash act (pipelineRun (release 1 1 1 1) (launch 1)) k firstPost

/-- Killed between the two graph files, and killed before its last document. -/
theorem killed_unrecovered :
    (Completes (release 1 1 1 1) (killedAt 24) ∧
      ¬Recovered 1 (retried (release 1 1 1 1) (launch 1) (killedAt 24)).dest) ∧
    (Completes (release 1 1 1 1) (killedAt 30) ∧
      ¬Recovered 1 (retried (release 1 1 1 1) (launch 1) (killedAt 30)).dest) := by
  decide

theorem crash_recovery_killed :
    Recovered 1 (retried (release 1 1 1 1) (launch 1) (killedAt 20)).dest ↔
      Resumable (release 1 1 1 1) 1 (killedAt 20).dest = true :=
  crash_recovery_iff (release 1 1 1 1) (release 1 1 1 1) (launch 1) 20 firstPost (by decide)
    (by decide)

end FinanceContext
