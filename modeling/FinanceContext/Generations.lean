import FinanceContext.TerminalEvents

/-!
The generations POST assigns. What is remembered of them is the number in `meta.json`;
the holder of the session lock is followed by a lower bound of that number.
-/

namespace FinanceContext

open CrashLogic Histories

variable {H : Type}

def Disk.generation (d : Disk H) : ℕ := JobMeta.diskGeneration d.dest.metaJson

def Op.Grows (op : Op H) : Prop := ∀ d : Disk H, d.generation ≤ (act op d).generation

/-- The write leaves at least this generation. -/
def Op.Sets (op : Op H) (g : ℕ) : Prop := ∀ d : Disk H, g ≤ (act op d).generation

theorem generation_updateMeta (mutate : JobMeta H → JobMeta H) (d : Disk H) :
    (act (.updateMeta mutate) d).generation =
      ((mutate (d.dest.metaJson.getD {})).generation).getD 0 := rfl

theorem generation_getD (d : Disk H) :
    ((d.dest.metaJson.getD {}).generation).getD 0 = d.generation := by
  unfold Disk.generation JobMeta.diskGeneration
  cases d.dest.metaJson <;> rfl

theorem grows_updateMeta {mutate : JobMeta H → JobMeta H}
    (h : ∀ m, m.generation.getD 0 ≤ (mutate m).generation.getD 0) :
    (Op.updateMeta mutate).Grows := by
  intro d
  rw [generation_updateMeta, ← generation_getD]
  exact h _

theorem sets_writeMeta (code : Code H) (p : Payload) (st : JobStatus) (stage : String)
    (ws : List String) : (Op.updateMeta (JobMeta.writeMeta code p st stage ws)).Sets p.generation := by
  intro d
  rw [generation_updateMeta]
  unfold JobMeta.writeMeta
  split_ifs with hnewer
  · cases hg : (d.dest.metaJson.getD {}).generation with
    | none =>
      rw [hg] at hnewer
      cases hnewer
    | some n =>
      rw [hg] at hnewer
      exact Nat.le_of_lt (by simpa using hnewer)
  · exact Nat.le_refl _

theorem grows_writeMeta (code : Code H) (p : Payload) (st : JobStatus) (stage : String)
    (ws : List String) : (Op.updateMeta (JobMeta.writeMeta code p st stage ws)).Grows := by
  apply grows_updateMeta
  intro m
  unfold JobMeta.writeMeta
  split_ifs with hnewer
  · exact Nat.le_refl _
  · cases hg : m.generation with
    | none => exact Nat.zero_le _
    | some n =>
      rw [hg] at hnewer
      simp only [Option.any_some, decide_eq_true_eq] at hnewer
      change n ≤ p.generation
      omega

theorem grows_mark (ready : Bool) (jobId error : String) (g : ℕ) (detail : Option String) :
    (Op.updateMeta (H := H) (JobMeta.markJobFailed ready jobId error g detail)).Grows := by
  apply grows_updateMeta
  intro m
  unfold JobMeta.markJobFailed
  split_ifs with hother
  · exact Nat.le_refl _
  · exact Nat.le_refl _
  · cases hg : m.generation with
    | none => exact Nat.zero_le _
    | some n =>
      rw [hg] at hother
      simp only [Option.any_some, decide_eq_true_eq, not_not] at hother
      exact Nat.le_of_eq hother

theorem grows_runOp {code : Code H} {l : Launch} {op : Op H} (h : RunOp code l op) :
    op.Grows := by
  cases h with
  | status st stage ws _ => exact grows_writeMeta code l.payload st stage ws
  | warning w =>
    apply grows_updateMeta
    intro m
    exact Nat.le_of_eq (congrArg (Option.getD · 0) (m.generation_appendExportWarning _ w).symm)
  | _ => exact fun d => Nat.le_refl _

/-- No enqueue, and no write that lowers the stored generation. -/
def Quiet (prog : List (Instr H)) : Prop :=
  ∀ ins ∈ prog, match ins with
    | .write op => op.Grows
    | .enqueue _ => False
    | _ => True

/-- What the holder's program needs when the stored generation is at least `n`: it enqueues
only new generations, and when it releases the lock the document names the newest. -/
def Safe (assigned : List ℕ) (n : ℕ) : List (Instr H) → Prop
  | [] => ∀ a ∈ assigned, a ≤ n
  | .write op :: rest =>
    ∃ n', (∀ d : Disk H, n ≤ d.generation → n' ≤ (act op d).generation) ∧ Safe assigned n' rest
  | .enqueue g :: rest => (∀ a ∈ assigned, a < g) ∧ Safe (g :: assigned) n rest
  | .unlock :: rest => (∀ a ∈ assigned, a ≤ n) ∧ Quiet rest
  | _ :: rest => Safe assigned n rest

theorem safe_writes_append {assigned : List ℕ} {n : ℕ} {ops : List (Op H)}
    {rest : List (Instr H)} (hops : ∀ op ∈ ops, op.Grows) (h : Safe assigned n rest) :
    Safe assigned n (ops.map .write ++ rest) := by
  induction ops with
  | nil => exact h
  | cons op ops ih =>
    refine ⟨n, fun d hd => Nat.le_trans hd (hops op List.mem_cons_self d), ih ?_⟩
    exact fun op' hop' => hops op' (List.mem_cons_of_mem _ hop')

theorem safe_of_quiet {assigned : List ℕ} {n : ℕ} {prog : List (Instr H)} (hprog : Quiet prog)
    (h : ∀ a ∈ assigned, a ≤ n) : Safe assigned n prog := by
  induction prog with
  | nil => exact h
  | cons ins rest ih =>
    have hrest : Quiet rest := fun ins' hins' => hprog ins' (List.mem_cons_of_mem _ hins')
    have hins := hprog ins List.mem_cons_self
    cases ins with
    | write op => exact ⟨n, fun d hd => Nat.le_trans hd (hins d), ih hrest⟩
    | enqueue g => exact absurd hins id
    | unlock => exact ⟨h, hrest⟩
    | _ => exact ih hrest

theorem safe_set {assigned : List ℕ} {n g : ℕ} {op : Op H} {rest : List (Instr H)}
    (hop : op.Sets g) (h : Safe assigned g rest) : Safe assigned n (.write op :: rest) :=
  ⟨g, fun d _ => hop d, h⟩

theorem quiet_writes {ops : List (Op H)} (h : ∀ op ∈ ops, op.Grows) :
    Quiet (ops.map Instr.write) := by
  intro ins hins
  obtain ⟨op, hop, rfl⟩ := List.mem_map.mp hins
  exact h op hop

theorem quiet_markProgram (jobId error : String) (g : ℕ) (detail : Option String) :
    Quiet (markProgram (H := H) jobId error g detail) := by
  intro ins hins
  simp only [markProgram, List.mem_cons, List.not_mem_nil, or_false] at hins
  rcases hins with rfl | rfl <;> trivial

theorem grows_clear {stale : Option Stage} {op : Op H}
    (hop : op ∈ clearDownstreamArtifacts stale false) : op.Grows := by
  have hnot : op ≠ .unlinkMeta := by
    rintro rfl
    cases stale with
    | none => cases hop
    | some stale => simp [clearDownstreamArtifacts] at hop
  have hclears := clears_clearDownstream stale false op hop
  cases op <;> simp only [Op.clears, Bool.false_eq_true, false_and] at hclears
  · exact fun d => Nat.le_refl _
  · exact fun d => Nat.le_refl _
  · exact absurd rfl hnot

theorem clearDownstream_drop (stale : Stage) :
    clearDownstreamArtifacts (H := H) (some stale) true =
      clearDownstreamArtifacts (some stale) false ++ [.unlinkMeta] := by
  simp only [clearDownstreamArtifacts, if_true, Bool.false_eq_true, if_false, List.append_nil]

theorem grows_clearShared {stale : Option Stage} {d : Disk H} {op : Op H}
    (hop : op ∈ clearSharedArtifacts stale d) : op.Grows := by
  obtain ⟨-, f, rfl⟩ := emits_clearShared stale d op hop
  exact fun d => Nat.le_refl _

section

variable [DecidableEq H]

theorem safe_postProgram (code : Code H) (u : Upload) (d : Disk H) (assigned : List ℕ)
    (h : ∀ a ∈ assigned, a ≤ d.generation) : Safe assigned d.generation (postProgram code u d) := by
  have hquiet : Quiet ([] : List (Instr H)) := fun _ hins => absurd hins List.not_mem_nil
  have hnext : ∀ a ∈ assigned, a < nextGeneration d.dest.metaJson := by
    intro a ha
    have hle := h a ha
    simp only [Disk.generation] at hle
    simp only [nextGeneration]
    omega
  unfold postProgram enqueueOrReuse
  split_ifs
  · exact ⟨h, hquiet⟩
  all_goals
    rw [List.map_append, List.append_assoc]
    apply safe_writes_append fun op hop => grows_clear hop
    refine safe_set (g := nextGeneration d.dest.metaJson) (fun d' => ?_)
      (safe_set (g := nextGeneration d.dest.metaJson) (fun d' => ?_) ?_)
    · rw [generation_updateMeta]
      exact Nat.le_refl _
    · rw [generation_updateMeta]
      exact Nat.le_refl _
    · refine ⟨hnext, fun a ha => ?_, hquiet⟩
      rcases List.mem_cons.mp ha with rfl | ha
      · exact Nat.le_refl _
      · exact Nat.le_of_lt (hnext a ha)

theorem emits_loadedStages (code : Code H) (l : Launch) :
    Emits (RunOp code l) (loadedStages code l) := by
  refine Emits.seq ((emits_sharedStages code l).mono fun _ h => h.1) ?_
  refine (emits_setStage code l _).seq ((emits_setStage code l _).seq (Emits.seq ?_ ?_))
  · exact .cond .nil (emits_sessionFiles code l _)
  · refine (emits_setStage code l _).seq (Emits.seq (emits_sessionFiles code l [.contextJson]) ?_)
    exact (emits_setStage code l _).seq (emits_sessionFiles code l [.contextMd, .contextRenderer])

theorem loadedStages_head (code : Code H) (l : Launch) (d : Disk H) :
    ∃ rest, loadedStages code l d =
      .updateMeta (JobMeta.writeMeta code l.payload .running "parse" []) :: rest := ⟨_, rfl⟩

theorem safe_loaded (code : Code H) (l : Launch) (d : Disk H) (assigned : List ℕ) (n : ℕ)
    (rest : List (Instr H)) (h : Safe assigned n rest ∨ Safe assigned l.payload.generation rest) :
    Safe assigned n ((loadedStages code l d).map .write ++ .final code l ::
      ((exportBook l d).map .write ++ .publish .succeeded l.payload.generation :: rest)) := by
  have hexport : ∀ op ∈ exportBook l d, op.Grows := by
    intro op hop
    obtain ⟨w, -, rfl⟩ := List.mem_map.mp hop
    have hop : RunOp code l (.updateMeta (JobMeta.appendExportWarning l.payload.generation w)) :=
      .warning w
    exact grows_runOp hop
  have hstages := emits_loadedStages code l d
  rcases h with h | h
  · apply safe_writes_append fun op hop => grows_runOp (hstages op hop)
    exact safe_writes_append hexport h
  · obtain ⟨ops, hops⟩ := loadedStages_head code l d
    rw [hops] at hstages ⊢
    refine safe_set (sets_writeMeta code l.payload .running "parse" []) ?_
    apply safe_writes_append fun op hop => grows_runOp (hstages op (List.mem_cons_of_mem _ hop))
    exact safe_writes_append hexport h

theorem hasContext_of_stale (code : Code H) (d : Disk H) {stale : Stage}
    (h : sessionStaleStage code d.dest.metaJson = some stale) :
    (finish act (invalidateForRun code) d).dest.hasContext = false := by
  rw [dest_invalidateForRun, h]
  simp [Dest.hasContext, Dest.has, Dest.clearedFrom, SessionFile.stage]

theorem safe_runProgram (code : Code H) (l : Launch) (d : Disk H) (assigned : List ℕ)
    (h : ∀ a ∈ assigned, a ≤ d.generation)
    (hdrop : sessionStaleStage code d.dest.metaJson ≠ none →
      (∀ a ∈ assigned, a ≤ l.payload.generation) ∧ d.book.hasSource = true) :
    Safe assigned d.generation (runProgram code l d) := by
  unfold runProgram
  have hstamp := emits_stamp code (invalidation code d) (finish act (runArtifacts code l) d)
  generalize CrashLogic.cond (fun d' : Disk H => d'.dest.hasContext)
    (writeSharedStamp code (invalidation code d)) (fun _ => [])
    (finish act (runArtifacts code l) d) = stamp at hstamp ⊢
  have hunlock : ∀ n, (∀ a ∈ assigned, a ≤ n) →
      Safe assigned n (.unlock :: stamp.map .write) := by
    refine fun n hn => ⟨hn, quiet_writes fun op hop => ?_⟩
    obtain ⟨st, rfl⟩ := hstamp op hop
    exact fun d' => Nat.le_refl _
  simp only [List.append_assoc]
  cases hstale : sessionStaleStage code d.dest.metaJson with
  | none =>
    have hclears : ∀ op ∈ invalidateForRun code d, op.Grows := by
      intro op hop
      simp only [invalidateForRun, hstale, clearDownstreamArtifacts, List.append_nil] at hop
      exact grows_clearShared hop
    apply safe_writes_append hclears
    split_ifs
    · refine safe_writes_append (fun op hop => ?_) (hunlock _ h)
      rcases emits_reuseFinished code l _ op hop with rfl | rfl <;> exact fun d' => Nat.le_refl _
    · rw [List.append_assoc, List.cons_append, List.append_assoc]
      exact safe_loaded code l _ assigned _ _ (.inl (hunlock _ h))
    · exact hunlock _ h
  | some stale =>
    obtain ⟨hnewest, hsource⟩ := hdrop (by rw [hstale]; exact Option.some_ne_none _)
    have hinvalidate : invalidateForRun code d = (clearSharedArtifacts
        (invalidation code d).rebuiltFrom d ++ clearDownstreamArtifacts (some stale) false) ++
          [.unlinkMeta] := by
      rw [invalidateForRun, hstale, clearDownstream_drop, List.append_assoc]
    rw [if_neg (by rw [hasContext_of_stale code d hstale]; exact Bool.false_ne_true),
      if_pos ((hasSource_invalidateForRun code d).trans hsource)]
    generalize finish act (invalidateForRun code) d = cleared
    rw [hinvalidate, List.map_append, List.append_assoc, List.map_singleton, List.singleton_append]
    refine safe_writes_append (fun op hop => ?_) ⟨0, fun _ _ => Nat.zero_le _, ?_⟩
    · rcases List.mem_append.mp hop with hop | hop
      · exact grows_clearShared hop
      · exact grows_clear hop
    · rw [List.append_assoc, List.cons_append, List.append_assoc]
      exact safe_loaded code l cleared assigned 0 _ (.inr (hunlock _ hnewest))

theorem quiet_program {a : Action H} (h : a.locks = false) (d : Disk H) : Quiet (a.program d) := by
  cases a with
  | post code u => cases h
  | run code l => cases h
  | fail jobId error g detail => exact quiet_markProgram jobId error g detail
  | finish jobId g =>
    simp only [Action.program]
    split_ifs
    · exact fun _ hins => absurd hins List.not_mem_nil
    all_goals exact quiet_markProgram jobId _ g none
  | busy cap jobId g =>
    simp only [Action.program]
    split_ifs
    · exact quiet_markProgram jobId _ g _
    · intro ins hins
      rw [List.mem_singleton] at hins
      subst hins
      exact grows_updateMeta fun m => Nat.le_refl _

end

namespace Trace

def Ascending (t : Trace H) : Prop := t.assigned.Pairwise (· > ·)

/-- A run that is about to drop `meta.json` is of the newest generation, of a book whose
source is there; and no holder of the lock ends while the document names an older one. -/
def Remembers [DecidableEq H] (e : Event H) (t : Trace H) : Prop :=
  match e with
  | .start i (.run code l) =>
    t.procs i = [] → t.holder = none → sessionStaleStage code t.disk.dest.metaJson ≠ none →
      (∀ a ∈ t.assigned, a ≤ l.payload.generation) ∧ t.disk.book.hasSource = true
  | .kill i => t.holder = some i → ∀ a ∈ t.assigned, a ≤ t.disk.generation
  | _ => True

structure Numbered (t : Trace H) : Prop where
  ascending : t.Ascending
  free : t.holder = none → ∀ a ∈ t.assigned, a ≤ t.disk.generation
  held : ∀ i, t.holder = some i → ∃ n, n ≤ t.disk.generation ∧ Safe t.assigned n (t.procs i)
  others : ∀ i, t.holder ≠ some i → Quiet (t.procs i)

variable {t : Trace H}

theorem generation_exec {i : ℕ} {ins : Instr H} (h : ∀ op, ins = .write op → op.Grows) :
    t.disk.generation ≤ (t.exec i ins).disk.generation := by
  cases ins with
  | write op => exact h op rfl t.disk
  | mark jobId error g detail => exact grows_mark _ jobId error g detail t.disk
  | final code l => exact grows_writeMeta code l.payload .succeeded "done" l.warnings t.disk
  | _ => exact Nat.le_refl _

theorem Numbered.bound (h : t.Numbered) {i : ℕ} (hi : t.holder = some i) {ins : Instr H}
    {rest : List (Instr H)} (hprog : t.procs i = ins :: rest) :
    ∃ n, n ≤ t.disk.generation ∧ Safe t.assigned n (ins :: rest) := by
  have hheld := h.held i hi
  rwa [hprog] at hheld

theorem Numbered.exec_other {i : ℕ} {ins : Instr H} {rest : List (Instr H)} (h : t.Numbered)
    (hi : t.holder ≠ some i) (hprog : t.procs i = ins :: rest) :
    ((t.exec i ins).setProc i rest).Numbered := by
  have hquiet := h.others i hi
  rw [hprog] at hquiet
  have hins := hquiet ins List.mem_cons_self
  have hgrows : t.disk.generation ≤ (t.exec i ins).disk.generation :=
    generation_exec fun op hop => by rw [hop] at hins; exact hins
  have hassigned : (t.exec i ins).assigned = t.assigned := by
    cases ins with
    | enqueue g => exact absurd hins id
    | _ => rfl
  have hholder : (t.exec i ins).holder = t.holder := by
    cases ins with
    | unlock => exact if_neg hi
    | _ => rfl
  constructor
  · change List.Pairwise _ (t.exec i ins).assigned
    rw [hassigned]
    exact h.ascending
  · intro hfree a ha
    change (t.exec i ins).holder = none at hfree
    change a ∈ (t.exec i ins).assigned at ha
    rw [hholder] at hfree
    rw [hassigned] at ha
    exact Nat.le_trans (h.free hfree a ha) hgrows
  · intro j hj
    change (t.exec i ins).holder = some j at hj
    rw [hholder] at hj
    have hij : j ≠ i := fun heq => hi (heq ▸ hj)
    obtain ⟨n, hn, hsafe⟩ := h.held j hj
    refine ⟨n, Nat.le_trans hn hgrows, ?_⟩
    change Safe (t.exec i ins).assigned n (Function.update t.procs i rest j)
    rwa [hassigned, Function.update_of_ne hij]
  · intro j hj
    change (t.exec i ins).holder ≠ some j at hj
    rw [hholder] at hj
    change Quiet (Function.update t.procs i rest j)
    by_cases hij : j = i
    · rw [hij, Function.update_self]
      exact fun ins' hins' => hquiet ins' (List.mem_cons_of_mem _ hins')
    · rw [Function.update_of_ne hij]
      exact h.others j hj

theorem Numbered.exec_holder {i : ℕ} {ins : Instr H} {rest : List (Instr H)} (h : t.Numbered)
    (hi : t.holder = some i) (hprog : t.procs i = ins :: rest) (hins : ins ≠ .unlock) :
    ((t.exec i ins).setProc i rest).Numbered := by
  obtain ⟨n, hn, hsafe⟩ := h.bound hi hprog
  have hholder : (t.exec i ins).holder = t.holder := by
    cases ins with
    | unlock => exact absurd rfl hins
    | _ => rfl
  have hnext : (t.exec i ins).Ascending ∧ ∃ n', n' ≤ (t.exec i ins).disk.generation ∧
      Safe (t.exec i ins).assigned n' rest := by
    cases ins with
    | write op =>
      obtain ⟨n', hn', hrest⟩ := hsafe
      exact ⟨h.ascending, n', hn' t.disk hn, hrest⟩
    | mark jobId error g detail =>
      have hgrows : t.disk.generation ≤ (t.exec i (.mark jobId error g detail)).disk.generation :=
        generation_exec fun op hop => by cases hop
      exact ⟨h.ascending, n, Nat.le_trans hn hgrows, hsafe⟩
    | final code l =>
      have hgrows : t.disk.generation ≤ (t.exec i (.final code l)).disk.generation :=
        generation_exec fun op hop => by cases hop
      exact ⟨h.ascending, n, Nat.le_trans hn hgrows, hsafe⟩
    | enqueue g => exact ⟨List.pairwise_cons.mpr ⟨hsafe.1, h.ascending⟩, n, hn, hsafe.2⟩
    | publish event g => exact ⟨h.ascending, n, hn, hsafe⟩
    | unlock => exact absurd rfl hins
  obtain ⟨hascending, hrest⟩ := hnext
  refine ⟨hascending, fun hfree => ?_, fun j hj => ?_, fun j hj => ?_⟩
  · change (t.exec i ins).holder = none at hfree
    rw [hholder, hi] at hfree
    cases hfree
  · change (t.exec i ins).holder = some j at hj
    rw [hholder, hi, Option.some.injEq] at hj
    subst hj
    change ∃ n', _ ∧ Safe (t.exec i ins).assigned n' (Function.update t.procs i rest i)
    rw [Function.update_self]
    exact hrest
  · change (t.exec i ins).holder ≠ some j at hj
    rw [hholder] at hj
    have hij : j ≠ i := fun heq => hj (heq ▸ hi)
    change Quiet (Function.update t.procs i rest j)
    rw [Function.update_of_ne hij]
    exact h.others j hj

theorem Numbered.exec_unlock {i : ℕ} {rest : List (Instr H)} (h : t.Numbered)
    (hi : t.holder = some i) (hprog : t.procs i = .unlock :: rest) :
    ((t.exec i .unlock).setProc i rest).Numbered := by
  obtain ⟨n, hn, hnamed, hquiet⟩ := h.bound hi hprog
  have hholder : (t.exec i .unlock).holder = none := if_pos hi
  refine ⟨h.ascending, fun _ a ha => Nat.le_trans (hnamed a ha) hn, fun j hj => ?_, fun j _ => ?_⟩
  · change (t.exec i .unlock).holder = some j at hj
    rw [hholder] at hj
    cases hj
  · change Quiet (Function.update t.procs i rest j)
    by_cases hij : j = i
    · rwa [hij, Function.update_self]
    · rw [Function.update_of_ne hij]
      exact h.others j fun hj => hij (Option.some.inj (hj.symm.trans hi))

theorem Numbered.kill {i : ℕ} (h : t.Numbered)
    (hlast : t.holder = some i → ∀ a ∈ t.assigned, a ≤ t.disk.generation) :
    Numbered ({ t with holder := if t.holder = some i then none else t.holder }.setProc i []) := by
  have hnil : Quiet ([] : List (Instr H)) := fun _ hins => absurd hins List.not_mem_nil
  constructor
  · exact h.ascending
  · intro hfree
    change (if t.holder = some i then none else t.holder) = none at hfree
    by_cases hi : t.holder = some i
    · exact hlast hi
    · rw [if_neg hi] at hfree
      exact h.free hfree
  · intro j hj
    change (if t.holder = some i then none else t.holder) = some j at hj
    by_cases hi : t.holder = some i
    · rw [if_pos hi] at hj
      cases hj
    · rw [if_neg hi] at hj
      have hij : j ≠ i := fun heq => hi (heq ▸ hj)
      change ∃ n, _ ∧ Safe t.assigned n (Function.update t.procs i [] j)
      rw [Function.update_of_ne hij]
      exact h.held j hj
  · intro j hj
    change (if t.holder = some i then none else t.holder) ≠ some j at hj
    change Quiet (Function.update t.procs i [] j)
    by_cases hij : j = i
    · rw [hij, Function.update_self]
      exact hnil
    · rw [Function.update_of_ne hij]
      refine h.others j fun hheld => hj ?_
      rw [if_neg fun hi => hij (Option.some.inj (hheld.symm.trans hi)), hheld]

variable [DecidableEq H]

theorem Numbered.start_locking {i : ℕ} {a : Action H} (h : t.Numbered) (ha : a.locks = true)
    (hfree : t.holder = none) (hproc : t.procs i = [])
    (hfits : Remembers (.start i a) t) :
    Numbered ({ t with holder := some i }.setProc i (a.program t.disk)) := by
  have hnamed := h.free hfree
  have hsafe : Safe t.assigned t.disk.generation (a.program t.disk) := by
    cases a with
    | post code u => exact safe_postProgram code u t.disk t.assigned hnamed
    | run code l => exact safe_runProgram code l t.disk t.assigned hnamed (hfits hproc hfree)
    | _ => cases ha
  refine ⟨h.ascending, fun hnone => (by cases hnone), fun j hj => ?_, fun j hj => ?_⟩
  · cases hj
    refine ⟨t.disk.generation, Nat.le_refl _, ?_⟩
    change Safe t.assigned _ (Function.update t.procs i (a.program t.disk) i)
    rwa [Function.update_self]
  · have hij : j ≠ i := fun heq => hj (heq ▸ rfl)
    change Quiet (Function.update t.procs i (a.program t.disk) j)
    rw [Function.update_of_ne hij]
    exact h.others j (by rw [hfree]; exact Option.some_ne_none j |>.symm)

theorem Numbered.start_free {i : ℕ} {a : Action H} (h : t.Numbered) (ha : a.locks = false)
    (hproc : t.procs i = []) : (t.setProc i (a.program t.disk)).Numbered := by
  have hquiet := quiet_program ha t.disk
  refine ⟨h.ascending, h.free, fun j hj => ?_, fun j hj => ?_⟩
  · change ∃ n, _ ∧ Safe t.assigned n (Function.update t.procs i (a.program t.disk) j)
    by_cases hij : j = i
    · subst hij
      obtain ⟨n, hn, hsafe⟩ := h.held j hj
      rw [hproc] at hsafe
      rw [Function.update_self]
      exact ⟨n, hn, safe_of_quiet hquiet hsafe⟩
    · rw [Function.update_of_ne hij]
      exact h.held j hj
  · change Quiet (Function.update t.procs i (a.program t.disk) j)
    by_cases hij : j = i
    · rwa [hij, Function.update_self]
    · rw [Function.update_of_ne hij]
      exact h.others j hj

theorem Numbered.step {e : Event H} (h : t.Numbered) (hfits : Remembers e t) :
    (step e t).Numbered := by
  cases e with
  | start i a =>
    simp only [Trace.step]
    split_ifs with hbusy
    · exact h
    · simp only [not_or, not_and, not_not] at hbusy
      rename_i ha
      exact h.start_locking ha (hbusy.2 ha) hbusy.1 hfits
    · simp only [not_or, not_and, not_not] at hbusy
      rename_i ha
      exact h.start_free (Bool.eq_false_iff.mpr ha) hbusy.1
  | tick i =>
    cases hprog : t.procs i with
    | nil => simpa only [Trace.step, hprog] using h
    | cons ins rest =>
      simp only [Trace.step, hprog]
      by_cases hi : t.holder = some i
      · by_cases hins : ins = .unlock
        · subst hins
          exact h.exec_unlock hi hprog
        · exact h.exec_holder hi hprog hins
      · exact h.exec_other hi hprog
  | kill i => exact h.kill hfits
  | book b => exact ⟨h.ascending, h.free, h.held, h.others⟩

end Trace

/-- In a run whose every step remembers the count, each enqueued generation is greater than
all those before it. -/
theorem generations_ascend [DecidableEq H] (source legacy : Bool) (es : List (Trace.Event H))
    (h : Along Trace.step Trace.Remembers es (Trace.uploaded source legacy)) :
    Along Trace.step (fun e t => (Trace.step e t).Ascending) es (Trace.uploaded source legacy) := by
  have hstart : (Trace.uploaded source legacy : Trace H).Numbered := by
    refine ⟨.nil, fun _ a ha => ?_, fun i hi => ?_, fun i _ ins hins => ?_⟩
    · cases ha
    · cases hi
    · cases hins
  exact h.imp (fun e t ht hfits => (ht.step hfits).ascending) (fun e t ht hfits => ht.step hfits)
    hstart

theorem generations_ascend_once :
    Along Trace.step Trace.Remembers (taking 0 (.post (release 1 1 1 1) (upload false)) 11)
        (Trace.uploaded true false : Trace ℕ) ∧
      Along Trace.step (fun e t => (Trace.step e t).Ascending)
        (taking 0 (.post (release 1 1 1 1) (upload false)) 11)
        (Trace.uploaded true false : Trace ℕ) := by
  have hfits : Along Trace.step Trace.Remembers
      (taking 0 (.post (release 1 1 1 1) (upload false)) 11)
      (Trace.uploaded true false : Trace ℕ) := by
    refine ⟨trivial, ?_⟩
    repeat' constructor
  exact ⟨hfits, generations_ascend true false _ hfits⟩

/-- The first run of a book is killed when it has removed `meta.json`; the next POST starts
from one again. -/
def forgottenCount : List (Trace.Event ℕ) :=
  taking 0 (.post (release 1 1 1 1) (upload false)) 11 ++
    (taking 1 (.run (release 1 1 1 1) (launch 1)) 8 ++
      (.kill 1 :: taking 2 (.post (release 1 1 1 1) (upload false)) 11))

theorem forgottenCount_repeats :
    ¬ (after Trace.step forgottenCount (Trace.uploaded true false : Trace ℕ)).Ascending := by
  have hassigned : (after Trace.step forgottenCount
      (Trace.uploaded true false : Trace ℕ)).assigned = [1, 1] := by decide +kernel
  rw [Trace.Ascending, hassigned]
  decide

end FinanceContext
