import FinanceContext.JobHistory
import FinanceContext.SessionStamps

namespace FinanceContext

open CrashLogic Histories

variable {S H : Type}

/-- A file whose stage `stages.json` records was written by code of that hash. -/
def Book.StampSound (b : Book H) : Prop :=
  ∀ st, b.stages = some st → ∀ f c h, b.files f = some c → st.recorded f.stage = some h →
    c.hash f.stage = h

def Book.OwnedBy (code : Code H) (b : Book H) : Prop :=
  ∀ f c, b.files f = some c → c.hash f.stage = code.hash f.stage

theorem Book.not_stampSound {b : Book H} {f : SharedFile} {c : Code H} {h : H}
    (hm : (b.stages.bind fun st => st.recorded f.stage) = some h) (hf : b.files f = some c)
    (hne : c.hash f.stage ≠ h) : ¬b.StampSound := by
  intro hs
  obtain ⟨st, hst, hrec⟩ := Option.bind_eq_some_iff.mp hm
  exact hne (hs st hst f c h hf hrec)

theorem shared_of_runOp {code : Code H} {l : Launch} {op : Op H} (h : RunOp code l op) {d : Disk H}
    {f : SharedFile} {c : Code H} (hf : (act op d).book.files f = some c) :
    (c = code ∧ op = .putShared f code) ∨ d.book.files f = some c := by
  cases h with
  | shared g =>
    simp only [act, Function.update_apply] at hf
    split_ifs at hf with hg
    · obtain rfl := Option.some.inj hf
      exact .inl ⟨rfl, by rw [hg]⟩
    · exact .inr hf
  | _ => exact .inr hf

theorem ownedBook_act_of_runOp {code : Code H} {l : Launch} {op : Op H} (hop : RunOp code l op)
    (d : Disk H) (h : d.book.OwnedBy code) : (act op d).book.OwnedBy code := by
  intro f c hf
  rcases shared_of_runOp hop hf with ⟨rfl, -⟩ | hf
  · rfl
  · exact h f c hf

theorem files_of_apply {code : Code H} {l : Launch} {ws : List (Op H)}
    (h : ∀ op ∈ ws, op.clears = true ∨ RunOp code l op) {d : Disk H} {f : SharedFile}
    {c : Code H} (hf : (apply act ws d).book.files f = some c) :
    d.book.files f = some c ∨ c = code ∧ Op.putShared f code ∈ ws := by
  induction ws generalizing d with
  | nil => exact .inl hf
  | cons op ws ih =>
    rcases ih (fun v hv => h v (List.mem_cons_of_mem _ hv)) hf with hf | ⟨rfl, hmem⟩
    · rcases h op List.mem_cons_self with hop | hop
      · exact .inl (shared_of_clears hop hf)
      · rcases shared_of_runOp hop hf with ⟨rfl, rfl⟩ | hf
        · exact .inr ⟨rfl, List.mem_cons_self⟩
        · exact .inl hf
    · exact .inr ⟨rfl, List.mem_cons_of_mem _ hmem⟩

theorem book_of_harmless {op : Op H} (h : op.harmless) (d : Disk H) :
    (act op d).book = d.book := by
  rcases h with ⟨h, -⟩ | ⟨mutate, rfl, -⟩
  · exact act_book_of_sessionOnly h d
  · rfl

variable [DecidableEq H]

theorem stages_runArtifacts (code : Code H) (l : Launch) (k : ℕ) (d : Disk H) :
    (crash act (runArtifacts code l) k d).book.stages = d.book.stages := by
  have hemits : Emits (fun op : Op H => ∀ st, op ≠ .putStages st) (runArtifacts code l) := by
    apply Emits.seq
    · exact (emits_invalidateForRun code).mono fun op hop st hst => by subst hst; cases hop
    · exact (emits_runBody code l).mono fun op hop st hst => by subst hst; cases hop
  exact hemits.crash_invariant (I := fun t => t.book.stages = d.book.stages)
    (fun op hop t ht => (act_stages hop t).trans ht) k d rfl

theorem recorded_own (code : Code H) (d : Disk H) (s : Stage) (h : H)
    (hrec : (sharedStamp code (invalidation code d) d.book.stages).recorded s = some h) :
    h = code.hash s := by
  rw [recorded_sharedStamp] at hrec
  rcases stampedStage_eq_some hrec with rfl | ⟨hrank, st, hst, hmap, hstored⟩
  · rfl
  · cases hstale : code.staleFromMeta (some st) with
    | none =>
      obtain ⟨st', hst', hpub⟩ :=
        (code.publisherMatches_iff _).mp ((code.staleFromMeta_eq_none _).mp hstale)
      obtain rfl := Option.some.inj hst'
      rw [Stamp.recorded_of_publisher hpub] at hstored
      exact (Option.some.inj hstored).symm
    | some stale =>
      have hrebuilt : (invalidation code d).rebuiltFrom = some stale := by
        simp [invalidation, sharedStaleStage, hst, hstale]
      rw [hrebuilt] at hrank
      have habove := code.staleFromMeta_above st stale s hstale (by simpa using hrank) hmap
      rw [hstored] at habove
      exact Option.some.inj habove

theorem ownedBook_invalidateForRun (code : Code H) (d : Disk H) (hs : d.book.StampSound)
    (hst : d.book.stages.bind Stamp.stages ≠ none) :
    (CrashLogic.finish act (invalidateForRun code) d).book.OwnedBy code := by
  obtain ⟨stored, hst⟩ := Option.ne_none_iff_exists'.mp hst
  obtain ⟨st, hst, hmap⟩ := Option.bind_eq_some_iff.mp hst
  have hkept (b : Book H) (hb : ∀ f c, b.files f = some c → d.book.files f = some c ∧
      st.recorded f.stage = some (code.hash f.stage)) : b.OwnedBy code :=
    fun f c hf => hs st hst f c _ (hb f c hf).1 (hb f c hf).2
  rw [book_invalidateForRun]
  cases hstale : code.staleFromMeta (some st) with
  | none =>
    obtain ⟨st', hst', hpub⟩ :=
      (code.publisherMatches_iff _).mp ((code.staleFromMeta_eq_none _).mp hstale)
    obtain rfl := Option.some.inj hst'
    have hrec := Stamp.recorded_of_publisher hpub
    split
    · exact hkept _ fun f c hf => ⟨hf, hrec _⟩
    · refine hkept _ fun f c hf => ⟨?_, hrec _⟩
      simp only [Book.clearedFrom] at hf
      split_ifs at hf
      exact hf
  | some stale =>
    have hrebuilt : (invalidation code d).rebuiltFrom = some stale := by
      simp [invalidation, sharedStaleStage, hst, hstale]
    rw [hrebuilt]
    refine hkept _ fun f c hf => ?_
    simp only [Book.clearedFrom] at hf
    split_ifs at hf with hcleared
    rw [Bool.or_eq_true, not_or, Stage.reached_iff] at hcleared
    exact ⟨hf, code.staleFromMeta_above st stale _ hstale (by omega) (by simp [hmap])⟩

/-- The files a run of this code does not delete were written by code of its hashes. -/
def SparesOwn (code : Code H) (d : Disk H) : Prop :=
  ∀ f c, d.book.files f = some c →
    (∀ stale ∈ (invalidation code d).rebuiltFrom,
      (stale.reached f.stage || (f ∈ formulaIr && !d.book.source)) = false) →
    c.hash f.stage = code.hash f.stage

theorem ownedBy_invalidateForRun_iff (code : Code H) (d : Disk H) :
    (CrashLogic.finish act (invalidateForRun code) d).book.OwnedBy code ↔ SparesOwn code d := by
  rw [book_invalidateForRun, SparesOwn]
  cases (invalidation code d).rebuiltFrom with
  | none => simp [Book.OwnedBy]
  | some stale =>
    simp only [Book.OwnedBy, Book.clearedFrom, Option.mem_some_iff, forall_eq']
    constructor
    · intro h f c hf hspared
      exact h f c (by rw [if_neg (Bool.eq_false_iff.mp hspared), hf])
    · intro h f c hf
      split_ifs at hf with hcleared
      exact h f c hf (Bool.eq_false_iff.mpr hcleared)

/-- The run, stopped after `n` writes, has written the file `f`. -/
def Wrote (code : Code H) (l : Launch) (n : ℕ) (d : Disk H) (f : SharedFile) : Prop :=
  Op.putShared f code ∈ (runArtifacts code l d).take n

theorem files_runArtifacts (code : Code H) (l : Launch) (n : ℕ) (d : Disk H) (f : SharedFile)
    (c : Code H) (hf : (crash act (runArtifacts code l) n d).book.files f = some c) :
    d.book.files f = some c ∨ c = code ∧ Wrote code l n d f := by
  have hops : ∀ op ∈ (runArtifacts code l d).take n, op.clears = true ∨ RunOp code l op := by
    intro op hop
    rcases List.mem_append.mp (List.mem_of_mem_take hop) with hop | hop
    · exact .inl (emits_invalidateForRun code d op hop)
    · exact .inr (emits_runBody code l _ op hop)
  exact files_of_apply hops hf

theorem files_of_wrote (code : Code H) (l : Launch) (n : ℕ) (d : Disk H) (f : SharedFile)
    (h : Wrote code l n d f) : (crash act (runArtifacts code l) n d).book.files f = some code := by
  rw [Wrote, runArtifacts, seq, List.take_append, List.mem_append] at h
  rw [crash, runArtifacts, seq, List.take_append, apply_append]
  rcases h with h | h
  · cases emits_invalidateForRun code d _ (List.mem_of_mem_take h)
  · refine apply_of_mem (I := fun t : Disk H => t.book.files f = some code) h _ ?_ ?_
    · intro t
      simp [act]
    · intro op hop t ht
      cases emits_runBody code l _ op (List.mem_of_mem_take hop) with
      | shared g =>
        by_cases hg : f = g
        · simp [act, hg]
        · simp [act, Function.update_of_ne hg, ht]
      | _ => exact ht

theorem ownedBook_runArtifacts (code : Code H) (l : Launch) (d : Disk H)
    (h : (CrashLogic.finish act (invalidateForRun code) d).book.OwnedBy code) :
    (CrashLogic.finish act (runArtifacts code l) d).book.OwnedBy code := by
  rw [runArtifacts, finish_seq]
  exact (emits_runBody code l).finish_invariant (I := fun t => t.book.OwnedBy code)
    (fun _ hop t => ownedBook_act_of_runOp hop t) _ h

theorem bookSound_stamped (code : Code H) (l : Launch) (d : Disk H) (n : ℕ)
    (hn : n ≤ (pipelineRun code l d).length) (hlong : (runArtifacts code l d).length < n)
    (h : (CrashLogic.finish act (invalidateForRun code) d).book.OwnedBy code) :
    (crash act (pipelineRun code l) n d).book.StampSound := by
  have howned := ownedBook_runArtifacts code l d h
  have hstages := stages_runArtifacts code l (runArtifacts code l d).length d
  rw [crash_of_length_le _ _ _ (Nat.le_refl _)] at hstages
  rw [pipelineRun_eq, seq, List.length_append] at hn
  rw [crash, pipelineRun_eq, ← crash, crash_seq, if_neg (by omega), crash]
  generalize CrashLogic.finish act (runArtifacts code l) d = t at hn howned hstages ⊢
  have hplan : CrashLogic.cond (fun d' => d'.dest.hasContext)
      (writeSharedStamp code (invalidation code d)) (fun _ => []) t =
        [.putStages (sharedStamp code (invalidation code d) t.book.stages)] := by
    unfold CrashLogic.cond writeSharedStamp at hn ⊢
    split_ifs at hn ⊢
    · rfl
    · simp only [List.length_nil] at hn
      omega
    · simp only [List.length_nil] at hn
      omega
  rw [hplan, List.take_of_length_le (by simp only [List.length_singleton]; omega)]
  intro st hst f c v hf hrec
  obtain rfl := Option.some.inj hst
  rw [hstages] at hrec
  rw [howned f c hf, recorded_own code d _ v hrec]

variable [DecidableEq S]

/-- After the event the stamp is sound, and a run that got past its deletions found
only its own files left. -/
def Event.KeepsBookSound (e : Event S H) (y : System S H) : Prop :=
  (e.step y).book.StampSound ∧
    ∀ code l, e.action = .run code l →
      (invalidateForRun code (y.disk e.session)).length ≤ e.writes y →
      (CrashLogic.finish act (invalidateForRun code) (y.disk e.session)).book.OwnedBy code

/-- A run that ends before its stamp has written no file of a stage recorded with another
hash, and a run that finds no stage map spares only files of its own hashes. -/
def Event.StampsWhatItLeaves (e : Event S H) (y : System S H) : Prop :=
  ∀ code l, e.action = .run code l →
    (e.writes y ≤ (runArtifacts code l (y.disk e.session)).length →
      ∀ st, y.book.stages = some st → ∀ f h, st.recorded f.stage = some h →
        Wrote code l (e.writes y) (y.disk e.session) f → code.hash f.stage = h) ∧
    (y.book.stages.bind Stamp.stages = none →
      (invalidateForRun code (y.disk e.session)).length ≤ e.writes y →
      SparesOwn code (y.disk e.session))

theorem bookSound_crash (code : Code H) (l : Launch) (n : ℕ) (d : Disk H) (hs : d.book.StampSound)
    (hn : n ≤ (pipelineRun code l d).length)
    (hstopped : n ≤ (runArtifacts code l d).length → ∀ st, d.book.stages = some st → ∀ f h,
      st.recorded f.stage = some h → Wrote code l n d f → code.hash f.stage = h)
    (howned : (invalidateForRun code d).length ≤ n →
      (CrashLogic.finish act (invalidateForRun code) d).book.OwnedBy code) :
    (crash act (pipelineRun code l) n d).book.StampSound := by
  by_cases hartifacts : n ≤ (runArtifacts code l d).length
  · rw [crash_pipelineRun_of_le code l _ _ hartifacts]
    intro st hst f c v hf hrec
    rw [stages_runArtifacts] at hst
    rcases files_runArtifacts code l _ _ f c hf with hf | ⟨rfl, hwrote⟩
    · exact hs st hst f c v hf hrec
    · exact hstopped hartifacts st hst f v hrec hwrote
  · have hlen : (runArtifacts code l d).length =
        (invalidateForRun code d).length + (runBody code l _).length :=
      List.length_append
    exact bookSound_stamped code l _ _ hn (by omega) (howned (by omega))

theorem bookSound_step_of_not_run (e : Event S H) (y : System S H) (hs : y.book.StampSound)
    (hrun : ∀ code l, e.action ≠ .run code l) : (e.step y).book.StampSound := by
  have hbook := (harmless_plan e.action hrun).crash_invariant (I := fun t => t.book = y.book)
    (fun _ hop t ht => (book_of_harmless hop t).trans ht) (e.writes y) (y.disk e.session) rfl
  rw [Event.step, System.book_put, Event.diskAt, hbook]
  exact hs

theorem keepsBookSound_iff (e : Event S H) (y : System S H) (hs : y.book.StampSound) :
    e.KeepsBookSound y ↔ e.StampsWhatItLeaves y := by
  by_cases hrun : ∃ code l, e.action = .run code l
  · obtain ⟨code, l, hrun⟩ := hrun
    have hwrites : e.writes y ≤ (pipelineRun code l (y.disk e.session)).length := by
      unfold Event.writes
      rw [hrun]
      simp only [Action.plan]
      split <;> omega
    have hstep : (e.step y).book =
        (crash act (pipelineRun code l) (e.writes y) (y.disk e.session)).book := by
      simp only [Event.step, Event.diskAt, hrun, Action.plan, System.book_put]
    constructor
    · rintro ⟨hsound, howned⟩ code' l' hrun'
      obtain ⟨rfl, rfl⟩ : code = code' ∧ l = l' := by simpa [hrun] using hrun'
      refine ⟨fun hn st hst f h hrec hwrote => ?_, fun _ hlen =>
        (ownedBy_invalidateForRun_iff code _).mp (howned code l hrun hlen)⟩
      rw [hstep, crash_pipelineRun_of_le code l _ _ hn] at hsound
      refine hsound st ?_ f code h (files_of_wrote code l _ _ f hwrote) hrec
      rw [stages_runArtifacts]
      exact hst
    · intro h
      obtain ⟨hstopped, hmissing⟩ := h code l hrun
      have howned (hlen : (invalidateForRun code (y.disk e.session)).length ≤ e.writes y) :
          (CrashLogic.finish act (invalidateForRun code) (y.disk e.session)).book.OwnedBy code := by
        by_cases hstages : y.book.stages.bind Stamp.stages = none
        · exact (ownedBy_invalidateForRun_iff code _).mpr (hmissing hstages hlen)
        · exact ownedBook_invalidateForRun code _ hs hstages
      refine ⟨?_, fun code' l' hrun' => ?_⟩
      · rw [hstep]
        exact bookSound_crash code l _ _ hs hwrites hstopped howned
      · obtain ⟨rfl, rfl⟩ : code = code' ∧ l = l' := by simpa [hrun] using hrun'
        exact howned
  · refine ⟨fun _ code l h => absurd ⟨code, l, h⟩ hrun, fun _ => ⟨?_, ?_⟩⟩
    · exact bookSound_step_of_not_run e y hs fun code l h => hrun ⟨code, l, h⟩
    · exact fun code l h => absurd ⟨code, l, h⟩ hrun

theorem shared_stamp_sound_iff (source legacy : Bool) (es : List (Event S H)) :
    Along Event.step Event.KeepsBookSound es (System.uploaded source legacy) ↔
      Along Event.step Event.StampsWhatItLeaves es (System.uploaded source legacy) := by
  apply along_iff_along (I := fun y => y.book.StampSound) keepsBookSound_iff
  · exact fun e y _ h => h.1
  · intro st hst
    cases hst

def failedUpgrade : List (Event Unit ℕ) :=
  [{ session := (), action := .post (release 1 1 1 1) (upload false) },
   { session := (), action := .run (release 1 1 1 1) (launch 1) },
   { session := (), action := .post (release 2 1 1 1) (upload false) },
   { session := (), action := .run (release 2 1 1 1) (launch 2), stop := some 27 },
   { session := (), action := .fail "job" "MemoryError" 2 none }]

def rollback : List (Event Unit ℕ) :=
  [{ session := (), action := .post (release 1 1 1 1) (upload false) },
   { session := (), action := .run (release 1 1 1 1) (launch 3) }]

theorem failedUpgrade_unsound :
    ¬(after Event.step failedUpgrade (System.uploaded true false)).book.StampSound ∧
      (after Event.step (failedUpgrade ++ rollback) (System.uploaded true false)).book.files
          .irCells = some (release 2 1 1 1) ∧
      ((after Event.step (failedUpgrade ++ rollback) (System.uploaded true false)).dests
          ()).metaJson.bind JobMeta.status = some .succeeded := by
  refine ⟨Book.not_stampSound (f := .irCells) (c := release 2 1 1 1) (h := 1) ?_ ?_ ?_, ?_, ?_⟩ <;>
    decide

end FinanceContext
