import FinanceContext.JobHistory

namespace FinanceContext

open CrashLogic Histories

variable {S H : Type}

/-- A file whose stage the document records was written by code of that hash. -/
def Dest.StampSound (d : Dest H) : Prop :=
  ∀ m, d.metaJson = some m → ∀ f c h, d.files f = some c → m.stamp.recorded f.stage = some h →
    c.hash f.stage = h

/-- Everything a document of `code` could vouch for is its own. -/
def Dest.OwnedBy (code : Code H) (d : Dest H) : Prop :=
  (∀ m, d.metaJson = some m → ∀ s h, m.stamp.recorded s = some h → h = code.hash s) ∧
    ∀ f c, d.files f = some c → c.hash f.stage = code.hash f.stage

theorem Dest.OwnedBy.stampSound {code : Code H} {d : Dest H} (h : d.OwnedBy code) :
    d.StampSound := by
  intro m hm f c v hf hv
  rw [h.2 f c hf, h.1 m hm _ v hv]

theorem stampSound_act_of_clears {op : Op H} (hop : op.clears = true) (d : Disk H)
    (h : d.dest.StampSound) : (act op d).dest.StampSound :=
  fun m hm f c v hf hv => h m (meta_of_clears hop hm) f c v (session_of_clears hop hf) hv

theorem stampSound_act_of_harmless {op : Op H} (hop : op.harmless) (d : Disk H)
    (h : d.dest.StampSound) : (act op d).dest.StampSound := by
  rcases hop with ⟨-, hop⟩ | ⟨mutate, rfl, hstamp⟩
  · exact stampSound_act_of_clears hop d h
  · intro m hm f c v hf hv
    obtain rfl := (Option.some.inj hm).symm
    rcases hstamp (d.dest.metaJson.getD {}) with hs | hs <;> rw [hs] at hv
    · cases hd : d.dest.metaJson with
      | none =>
        rw [hd, Option.getD_none] at hv
        cases hv
      | some m =>
        rw [hd, Option.getD_some] at hv
        exact h m hd f c v hf hv
    · cases hv

theorem ownedBy_act_of_runOp {code : Code H} {l : Launch} {op : Op H} (hop : RunOp code l op)
    (d : Disk H) (h : d.dest.OwnedBy code) : (act op d).dest.OwnedBy code := by
  have hstored (s : Stage) (v : H) (hv : (d.dest.metaJson.getD {}).stamp.recorded s = some v) :
      v = code.hash s := by
    cases hd : d.dest.metaJson with
    | none =>
      rw [hd, Option.getD_none] at hv
      cases hv
    | some m =>
      rw [hd, Option.getD_some] at hv
      exact h.1 m hd s v hv
  cases hop with
  | source => exact h
  | shared f => exact h
  | session f =>
    refine ⟨h.1, fun g c hf => ?_⟩
    simp only [act, Function.update_apply] at hf
    split_ifs at hf with hg
    · obtain rfl := Option.some.inj hf
      rfl
    · exact h.2 g c hf
  | status st stage ws _ =>
    refine ⟨fun m hm s v hv => ?_, h.2⟩
    obtain rfl := (Option.some.inj hm).symm
    rcases JobMeta.stamp_writeMeta code l.payload st stage ws (d.dest.metaJson.getD {}) with hs | hs
    · rw [hs] at hv
      exact hstored s v hv
    · rw [hs] at hv
      exact (Option.some.inj hv).symm
  | warning w =>
    refine ⟨fun m hm s v hv => ?_, h.2⟩
    obtain rfl := (Option.some.inj hm).symm
    rw [JobMeta.stamp_appendExportWarning] at hv
    exact hstored s v hv

theorem harmless_failJob (jobId error : String) (g : ℕ) (detail : Option String) :
    Emits (Op.harmless (H := H)) (failJob jobId error g detail) := by
  intro d op hop
  obtain rfl := List.mem_singleton.mp hop
  exact .inr ⟨_, rfl, fun m => m.stamp_markJobFailed _ _ _ _ _⟩

theorem not_stampSound {d : Dest H} {f : SessionFile} {c : Code H} {h : H}
    (hm : (d.metaJson.bind fun m => m.stamp.recorded f.stage) = some h)
    (hf : d.files f = some c) (hne : c.hash f.stage ≠ h) : ¬d.StampSound := by
  intro hs
  obtain ⟨m, hm, hrec⟩ := Option.bind_eq_some_iff.mp hm
  exact hne (hs m hm f c h hf hrec)

variable [DecidableEq H]

theorem harmless_enqueueOrReuse (code : Code H) (u : Upload) :
    Emits Op.harmless (enqueueOrReuse code u) := by
  intro d op hop
  unfold enqueueOrReuse at hop
  split_ifs at hop
  · cases hop
  all_goals
    rcases List.mem_append.mp hop with hop | hop
    · exact .inl (clears_clearDownstream _ _ op hop).symm
    · simp only [List.mem_cons, List.not_mem_nil, or_false] at hop
      rcases hop with rfl | rfl
      · exact .inr ⟨_, rfl, fun m => .inl (m.stamp_recordRebuildStage _ _)⟩
      · exact .inr ⟨_, rfl, fun m => .inl rfl⟩

theorem harmless_plan (a : Action H) (h : ∀ code l, a ≠ .run code l) :
    Emits Op.harmless a.plan := by
  cases a with
  | post code u => exact harmless_enqueueOrReuse code u
  | run code l => exact absurd rfl (h code l)
  | fail jobId error g detail => exact harmless_failJob jobId error g detail
  | finish jobId g =>
    intro d op hop
    simp only [Action.plan, finishChild] at hop
    split_ifs at hop
    · cases hop
    · exact harmless_failJob _ _ _ _ d op hop
    · exact harmless_failJob _ _ _ _ d op hop
  | busy cap jobId g =>
    intro d op hop
    simp only [Action.plan, requeueSharedCache] at hop
    split_ifs at hop
    · exact harmless_failJob _ _ _ _ d op hop
    · obtain rfl := List.mem_singleton.mp hop
      exact .inr ⟨_, rfl, fun m => .inl rfl⟩

/-- A POST recorded a `publish` rebuild and the graph files were written by code
whose graph stage is not the one of `code`. -/
def Dest.ForeignGraph (code : Code H) (d : Dest H) : Prop :=
  d.metaJson.bind JobMeta.rebuildFrom = some .publish ∧
    ∃ f c, f.stage = .graph ∧ d.files f = some c ∧ c.hash .graph ≠ code.hash .graph

theorem ownedBy_invalidateForRun (code : Code H) (d : Disk H) (hs : d.dest.StampSound)
    (hf : ¬d.dest.ForeignGraph code) :
    (CrashLogic.finish act (invalidateForRun code) d).dest.OwnedBy code := by
  rw [dest_invalidateForRun]
  cases hstale : sessionStaleStage code d.dest.metaJson with
  | none =>
    obtain ⟨-, hfresh⟩ := Option.or_eq_none_iff.mp hstale
    obtain ⟨st, hst, hpub⟩ :=
      (code.publisherMatches_iff _).mp ((code.staleFromMeta_eq_none _).mp hfresh)
    obtain ⟨m, hm, rfl⟩ := Option.map_eq_some_iff.mp hst
    have hrec := Stamp.recorded_of_publisher hpub
    refine ⟨fun m' hm' s v hv => ?_, fun f c hfc => hs m hm f c _ hfc (hrec _)⟩
    obtain rfl : m' = m := Option.some.inj (hm'.symm.trans hm)
    exact Option.some.inj (hv.symm.trans (hrec s))
  | some stale =>
    refine ⟨fun _ hm => (nomatch hm), fun f c hfc => ?_⟩
    simp only [Dest.clearedFrom] at hfc
    split_ifs at hfc with hkept
    obtain ⟨rfl, hgraph⟩ : stale = .publish ∧ f.stage = .graph := by
      cases f <;> cases stale <;> first | exact ⟨rfl, rfl⟩ | exact absurd rfl hkept
    rw [hgraph]
    by_contra hne
    cases hrec : d.dest.metaJson.bind JobMeta.rebuildFrom with
    | some r =>
      simp only [sessionStaleStage, hrec, Option.some_or, Option.some.injEq] at hstale
      exact hf ⟨by rw [hrec, hstale], f, c, hgraph, hfc, hne⟩
    | none =>
      simp only [sessionStaleStage, hrec, Option.none_or] at hstale
      obtain ⟨st, hst, hstages⟩ := code.stages_of_staleFromMeta _ _ hstale (by decide)
      obtain ⟨m, hm, rfl⟩ := Option.map_eq_some_iff.mp hst
      rw [hst] at hstale
      have hrecorded := code.staleFromMeta_above _ .publish .graph hstale (by decide) hstages
      have hsound := hs m hm f c _ hfc (by rw [hgraph]; exact hrecorded)
      rw [hgraph] at hsound
      exact hne hsound

theorem dest_of_foreignGraph {code : Code H} {d : Disk H} (h : d.dest.ForeignGraph code) :
    (CrashLogic.finish act (invalidateForRun code) d).dest = d.dest.clearedFrom .publish := by
  rw [dest_invalidateForRun, sessionStaleStage, h.1, Option.some_or]

theorem stampSound_pipelineRun_iff (code : Code H) (l : Launch) (d : Disk H) (n : ℕ)
    (hs : d.dest.StampSound) :
    (∀ k ≤ n, (crash act (pipelineRun code l) k d).dest.StampSound) ↔
      (d.book.hasSource = true → (invalidateForRun code d).length < n →
        ¬d.dest.ForeignGraph code) := by
  have hclearing (k : ℕ) : (crash act (invalidateForRun code) k d).dest.StampSound :=
    (emits_invalidateForRun code).crash_invariant (I := fun t => t.dest.StampSound)
      (fun _ hop t => stampSound_act_of_clears hop t) k d hs
  constructor
  · rintro h hsource hn hforeign
    have hdest := dest_of_foreignGraph hforeign
    have hcontext : (d.dest.clearedFrom .publish).hasContext = false := rfl
    rw [← hdest] at hcontext
    obtain ⟨-, f, c, hf, hfc, hne⟩ := hforeign
    have hfirst := h _ hn
    rw [← hasSource_invalidateForRun code d] at hsource
    obtain ⟨rest, hrest⟩ := runLoaded_head code l (CrashLogic.finish act (invalidateForRun code) d)
    rw [dest_crash_pipelineRun _ _ _ _ (Nat.lt_succ_self _), Nat.succ_sub (Nat.le_refl _),
      Nat.sub_self, crash, runBody_of_hasSource code l _ hcontext hsource, hrest, List.take_succ_cons,
      List.take_zero, apply_cons, apply_nil] at hfirst
    have hown := hfirst _ rfl f c (code.hash .graph)
      (by simp only [act, hdest, Dest.clearedFrom, hf]; exact hfc)
      (by rw [hdest, hf]; rfl)
    rw [hf] at hown
    exact hne hown
  · intro h k hk
    by_cases hclear : k ≤ (invalidateForRun code d).length
    · rw [crash_pipelineRun_clearing code l k d hclear]
      exact hclearing k
    · rw [dest_crash_pipelineRun code l k d (by omega)]
      by_cases hforeign : d.dest.ForeignGraph code
      · have hcontext : (d.dest.clearedFrom .publish).hasContext = false := rfl
        rw [← dest_of_foreignGraph hforeign] at hcontext
        have hsource : d.book.hasSource = false := by
          by_contra hsource
          exact h (by simpa using hsource) (by omega) hforeign
        rw [← hasSource_invalidateForRun code d] at hsource
        rw [crash, runBody_of_empty code l _ hcontext hsource, List.take_nil, apply_nil]
        have hdone := hclearing (invalidateForRun code d).length
        rwa [crash_of_length_le _ _ _ (Nat.le_refl _)] at hdone
      · have howned := ownedBy_invalidateForRun code d hs hforeign
        refine Dest.OwnedBy.stampSound (?_ : Dest.OwnedBy code _)
        exact (emits_runBody code l).crash_invariant (I := fun t => t.dest.OwnedBy code)
          (fun _ hop t => ownedBy_act_of_runOp hop t) _ _ howned

variable [DecidableEq S]

/-- The session's documents and files agree after every write of the event. -/
def Event.KeepsSound (s : S) : Event S H → System S H → Prop :=
  Event.Throughout fun y => (y.dests s).StampSound

/-- A run that gets past its deletions does not meet a foreign graph. -/
def Event.MeetsOwnGraph (s : S) (e : Event S H) (y : System S H) : Prop :=
  e.session = s → ∀ code l, e.action = .run code l → y.book.hasSource = true →
    (invalidateForRun code (y.disk s)).length < e.writes y → ¬(y.dests s).ForeignGraph code

theorem keepsSound_iff (s : S) (e : Event S H) (y : System S H) (hs : (y.dests s).StampSound) :
    e.KeepsSound s y ↔ e.MeetsOwnGraph s y := by
  by_cases he : e.session = s
  · subst he
    have hput (k : ℕ) : ((y.put e.session (e.diskAt k y)).dests e.session).StampSound ↔
        (e.diskAt k y).dest.StampSound := by rw [System.dests_put_self]
    simp only [Event.KeepsSound, Event.Throughout, hput, Event.MeetsOwnGraph, true_implies]
    by_cases hrun : ∃ code l, e.action = .run code l
    · obtain ⟨code, l, hrun⟩ := hrun
      have hiff := stampSound_pipelineRun_iff code l (y.disk e.session) (e.writes y) hs
      simp only [Event.diskAt, hrun, Action.plan]
      rw [hiff]
      constructor
      · rintro h code' l' ⟨⟩
        exact h
      · exact fun h => h code l rfl
    · refine ⟨fun _ code l h => absurd ⟨code, l, h⟩ hrun, fun _ k _ => ?_⟩
      have hharmless := harmless_plan e.action fun code l h => hrun ⟨code, l, h⟩
      exact hharmless.crash_invariant (I := fun t => t.dest.StampSound)
        (fun _ hop t => stampSound_act_of_harmless hop t) k (y.disk e.session) hs
  · refine ⟨fun _ h => absurd h he, fun _ k _ => ?_⟩
    have hother := System.dests_put_of_ne y (Ne.symm he) (e.diskAt k y)
    simpa only [hother] using hs

theorem session_stamp_sound_iff (s : S) (source legacy : Bool) (es : List (Event S H)) :
    Along Event.step (Event.KeepsSound s) es (System.uploaded source legacy) ↔
      Along Event.step (Event.MeetsOwnGraph s) es (System.uploaded source legacy) := by
  apply along_iff_along (fun e y => keepsSound_iff s e y)
  · exact fun e y _ h => h (e.writes y) (Nat.le_refl _)
  · intro m hm
    cases hm

/-- Another graph stage is deployed between a POST that asks for a `publish` rebuild
and the run it queued. -/
def deployAfterPost : List (Event Unit ℕ) :=
  [{ session := (), action := .post (release 1 1 1 1) (upload false) },
   { session := (), action := .run (release 1 1 1 1) (launch 1) },
   { session := (), action := .post (release 1 1 1 2) (upload false) },
   { session := (), action := .run (release 1 1 3 2) (launch 2) }]

theorem deployAfterPost_unsound :
    ¬((after Event.step deployAfterPost (System.uploaded true false)).dests ()).StampSound :=
  not_stampSound (f := .graphJson) (c := release 1 1 1 1) (h := 3) (by decide) (by decide)
    (by decide)

end FinanceContext
