import FinanceContext.JobHistory

namespace FinanceContext

open CrashLogic Histories JobMeta

variable {S H : Type}

/-- A write that leaves the stored counter as it is. -/
def Op.keepsCounter (op : Op H) : Prop :=
  (∃ f, op = .unlinkSession f) ∨
    ∃ mutate, op = .updateMeta mutate ∧ ∀ m, (mutate m).busyRetries = m.busyRetries

theorem busySeen_updateMeta {mutate : JobMeta H → JobMeta H} (d : Disk H)
    (h : ∀ m, (mutate m).busyRetries = m.busyRetries) :
    busySeen (act (.updateMeta mutate) d).dest.metaJson = busySeen d.dest.metaJson := by
  cases hd : d.dest.metaJson with
  | none => simp [act, hd, busySeen, h]
  | some m => simp [act, hd, busySeen, h]

theorem busySeen_of_keepsCounter {op : Op H} (h : op.keepsCounter) (d : Disk H) :
    busySeen (act op d).dest.metaJson = busySeen d.dest.metaJson := by
  rcases h with ⟨f, rfl⟩ | ⟨mutate, rfl, h⟩
  · rfl
  · exact busySeen_updateMeta d h

theorem keepsCounter_failJob (jobId error : String) (g : ℕ) (detail : Option String) :
    Emits (Op.keepsCounter (H := H)) (failJob jobId error g detail) := by
  intro d op hop
  obtain rfl := List.mem_singleton.mp hop
  exact .inr ⟨_, rfl, fun m => m.busyRetries_markJobFailed _ _ _ _ _⟩

theorem keepsCounter_finishChild (jobId : String) (g : ℕ) :
    Emits (Op.keepsCounter (H := H)) (finishChild jobId g) := by
  intro d op hop
  unfold finishChild at hop
  split_ifs at hop
  · cases hop
  · exact keepsCounter_failJob _ _ _ _ d op hop

theorem busySeen_runOp {code : Code H} {l : Launch} {op : Op H} (hop : RunOp code l op)
    (d : Disk H) :
    busySeen (act op d).dest.metaJson = busySeen d.dest.metaJson ∨
      busySeen (act op d).dest.metaJson = 0 := by
  cases hop with
  | status st stage ws _ =>
    by_cases hnew : (d.dest.metaJson.getD {}).generation.any (l.payload.generation < ·) = true
    · left
      cases hd : d.dest.metaJson with
      | none =>
        rw [hd] at hnew
        cases hnew
      | some m =>
        rw [hd] at hnew
        simp only [act, hd, writeMeta, Option.getD_some] at hnew ⊢
        rw [if_pos hnew]
    · right
      simp only [act, writeMeta]
      rw [if_neg hnew]
      rfl
  | warning w =>
    left
    apply busySeen_updateMeta
    intro m
    unfold appendExportWarning
    split_ifs <;> rfl
  | _ => exact .inl rfl

variable [DecidableEq H]

theorem keepsCounter_enqueueOrReuse (code : Code H) (u : Upload) :
    Emits Op.keepsCounter (enqueueOrReuse code u) := by
  have hclear (stale : Stage) (op : Op H)
      (hop : op ∈ clearDownstreamArtifacts (some stale) false) : op.keepsCounter := by
    simp only [clearDownstreamArtifacts, Bool.false_eq_true, ↓reduceIte, List.append_nil,
      Stage.reached_publish, List.mem_append] at hop
    rcases hop with hop | hop
    · obtain ⟨f, -, rfl⟩ := List.mem_map.mp hop
      exact .inl ⟨f, rfl⟩
    · split_ifs at hop
      · obtain ⟨f, -, rfl⟩ := List.mem_map.mp hop
        exact .inl ⟨f, rfl⟩
      · cases hop
  intro d op hop
  unfold enqueueOrReuse at hop
  split_ifs at hop
  · cases hop
  all_goals
    rcases List.mem_append.mp hop with hop | hop
    · exact hclear _ op hop
    · simp only [List.mem_cons, List.not_mem_nil, or_false] at hop
      rcases hop with rfl | rfl
      · exact .inr ⟨_, rfl, fun m => m.busyRetries_recordRebuildStage _ _⟩
      · exact .inr ⟨_, rfl, fun m => rfl⟩

theorem keepsCounter_plan (a : Action H) (hrun : ∀ code l, a ≠ .run code l)
    (hbusy : ∀ cap jobId g, a ≠ .busy cap jobId g) : Emits Op.keepsCounter a.plan := by
  cases a with
  | post code u => exact keepsCounter_enqueueOrReuse code u
  | run code l => exact absurd rfl (hrun code l)
  | fail jobId error g detail => exact keepsCounter_failJob jobId error g detail
  | finish jobId g => exact keepsCounter_finishChild jobId g
  | busy cap jobId g => exact absurd rfl (hbusy cap jobId g)

theorem busySeen_pipelineRun (code : Code H) (l : Launch) (k : ℕ) (d : Disk H) :
    busySeen (crash act (pipelineRun code l) k d).dest.metaJson = busySeen d.dest.metaJson ∨
      busySeen (crash act (pipelineRun code l) k d).dest.metaJson = 0 := by
  refine (emits_pipelineRun code l).crash_invariant (I := fun t =>
    busySeen t.dest.metaJson = busySeen d.dest.metaJson ∨ busySeen t.dest.metaJson = 0)
    (fun op hop t ht => ?_) k d (.inl rfl)
  rcases hop with hop | hop | ⟨st, rfl⟩
  · cases op <;> simp only [Op.clears, Bool.false_eq_true] at hop <;> try exact ht
    exact .inr rfl
  · rcases busySeen_runOp hop t with h | h
    · rw [h]
      exact ht
    · exact .inr h
  · exact ht

variable [DecidableEq S]

/-- A system with what the present generation of one session was given: the requeues it
got, and whether a run dropped the count of them. -/
structure Tally (S H : Type) where
  system : System S H
  spent : ℕ := 0
  dropped : Bool := false

def Event.launches (e : Event S H) (y : System S H) : Bool :=
  match e.action with
  | .post code u => e.stop.isNone && !(readyMeta code (y.dests e.session) && !u.rebuild)
  | _ => false

def Event.requeues (e : Event S H) (y : System S H) : Bool :=
  match e.action with
  | .busy cap _ _ => 0 < e.writes y && busySeen (y.dests e.session).metaJson < cap
  | _ => false

/-- A run that lowers the stored counter: one that gets to write its own `meta.json`. -/
def Event.drops (e : Event S H) (y : System S H) : Bool :=
  match e.action with
  | .run _ _ =>
    busySeen ((e.step y).dests e.session).metaJson < busySeen (y.dests e.session).metaJson
  | _ => false

def Tally.step (s : S) (e : Event S H) (t : Tally S H) : Tally S H :=
  if e.session = s then
    { system := e.step t.system
      spent := if e.launches t.system then 0 else if e.requeues t.system then t.spent + 1 else t.spent
      dropped := !e.launches t.system && (t.dropped || e.drops t.system) }
  else { t with system := e.step t.system }

/-- A new generation starts from zero; a busy result requeues while fewer than the cap were
spent on this generation, and fails the job after that. -/
def Event.WithinBudget (s : S) (e : Event S H) (t : Tally S H) : Prop :=
  e.session = s → e.stop = none →
    (e.launches t.system = true → busySeen ((e.step t.system).dests s).metaJson = 0) ∧
    ∀ cap jobId g, e.action = .busy cap jobId g →
      ((e.step t.system).dests s).metaJson = some
        (if t.spent < cap then ((t.system.dests s).metaJson.getD {}).busyStamp (t.spent + 1)
        else ((t.system.dests s).metaJson.getD {}).markJobFailed (t.system.dests s).ready jobId
          "shared_cache_busy" g (some "shared book cache stayed busy"))

/-- The POST finds no requeues recorded. -/
def Event.StartsFromZero (s : S) (e : Event S H) (t : Tally S H) : Prop :=
  e.session = s → e.launches t.system = true → busySeen (t.system.dests s).metaJson = 0

/-- A generation whose counter a run dropped does not come back busy. -/
def Event.BusyBeforeDrop (s : S) (e : Event S H) (t : Tally S H) : Prop :=
  e.session = s → ∀ cap jobId g, e.action = .busy cap jobId g → t.dropped = false

/-- The stored counter is the number of requeues this generation got. -/
def Tally.Counted (s : S) (t : Tally S H) : Prop :=
  t.dropped = false → busySeen (t.system.dests s).metaJson = t.spent

theorem dests_step_self (e : Event S H) (y : System S H) :
    (e.step y).dests e.session = (e.diskAt (e.writes y) y).dest := System.dests_put_self ..

theorem dests_step_of_ne (e : Event S H) (y : System S H) {s : S} (h : e.session ≠ s) :
    (e.step y).dests s = y.dests s := System.dests_put_of_ne y h.symm _

theorem busySeen_step (e : Event S H) (y : System S H)
    (h : Emits Op.keepsCounter e.action.plan) :
    busySeen ((e.step y).dests e.session).metaJson = busySeen (y.dests e.session).metaJson := by
  rw [dests_step_self]
  exact h.crash_invariant (I := fun t => busySeen t.dest.metaJson =
    busySeen (y.dests e.session).metaJson)
    (fun _ hop t ht => (busySeen_of_keepsCounter hop t).trans ht) _ (y.disk e.session) rfl

theorem busySeen_of_busy {e : Event S H} {y : System S H} {cap g : ℕ} {jobId : String}
    (h : e.action = .busy cap jobId g) :
    busySeen ((e.step y).dests e.session).metaJson =
      if e.requeues y then busySeen (y.dests e.session).metaJson + 1
      else busySeen (y.dests e.session).metaJson := by
  by_cases hcap : busySeen (y.dests e.session).metaJson < cap
  · have hplan : e.action.plan (y.disk e.session) =
        [.updateMeta (busyStamp (busySeen (y.dests e.session).metaJson + 1))] := by
      rw [h, Action.plan, requeueSharedCache]
      exact if_neg (by simpa [System.disk] using hcap)
    rw [dests_step_self, Event.diskAt, crash, hplan]
    cases hw : e.writes y with
    | zero => simp [Event.requeues, h, hw, System.disk]
    | succ k =>
      have hstamped : e.requeues y = true := by simp [Event.requeues, h, hw, hcap]
      rw [if_pos hstamped, List.take_succ_cons, List.take_nil, apply_cons, apply_nil]
      rfl
  · have hplan : e.action.plan (y.disk e.session) = failJob jobId "shared_cache_busy" g
        (some "shared book cache stayed busy") (y.disk e.session) := by
      rw [h, Action.plan, requeueSharedCache]
      exact if_pos (by simpa [System.disk] using hcap)
    have hkept := (keepsCounter_failJob jobId "shared_cache_busy" g
      (some "shared book cache stayed busy")).crash_invariant
      (I := fun t : Disk H => busySeen t.dest.metaJson = busySeen (y.dests e.session).metaJson)
      (fun _ hop t ht => (busySeen_of_keepsCounter hop t).trans ht) (e.writes y)
      (y.disk e.session) rfl
    rw [dests_step_self, Event.diskAt, crash, hplan, ← crash, hkept, if_neg]
    simp [Event.requeues, h, hcap]

theorem counted_step_of_ne {s : S} {e : Event S H} {t : Tally S H} (hs : e.session ≠ s)
    (ht : t.Counted s) : (Tally.step s e t).Counted s := by
  have hstep : Tally.step s e t = { t with system := e.step t.system } := if_neg hs
  intro hdropped
  rw [hstep] at hdropped ⊢
  simp only at hdropped ⊢
  rw [dests_step_of_ne e t.system hs]
  exact ht hdropped

theorem counted_step (s : S) (e : Event S H) (t : Tally S H) (ht : t.Counted s)
    (hzero : e.StartsFromZero s t) (hbusy : e.BusyBeforeDrop s t) :
    (Tally.step s e t).Counted s := by
  by_cases hs : e.session = s
  · subst hs
    have hstep : Tally.step e.session e t =
        { system := e.step t.system
          spent := if e.launches t.system then 0
            else if e.requeues t.system then t.spent + 1 else t.spent
          dropped := !e.launches t.system && (t.dropped || e.drops t.system) } :=
      if_pos rfl
    intro hdropped
    rw [hstep] at hdropped ⊢
    simp only at hdropped ⊢
    cases ha : e.action with
    | run code l =>
      have hl : e.launches t.system = false := by simp [Event.launches, ha]
      have hr : e.requeues t.system = false := by simp [Event.requeues, ha]
      obtain ⟨hbefore, hkept⟩ : t.dropped = false ∧
          busySeen (t.system.dests e.session).metaJson ≤
            busySeen ((e.step t.system).dests e.session).metaJson := by
        simpa [Event.drops, ha, hl] using hdropped
      have hcases : busySeen ((e.step t.system).dests e.session).metaJson =
            busySeen (t.system.dests e.session).metaJson ∨
          busySeen ((e.step t.system).dests e.session).metaJson = 0 := by
        rw [dests_step_self, Event.diskAt, ha]
        exact busySeen_pipelineRun code l (e.writes t.system) (t.system.disk e.session)
      have hcount := ht hbefore
      rw [hl, hr]
      simp only [Bool.false_eq_true, ↓reduceIte]
      omega
    | busy cap jobId g =>
      have hl : e.launches t.system = false := by simp [Event.launches, ha]
      rw [busySeen_of_busy ha, ht (hbusy rfl cap jobId g ha), hl]
      simp
    | _ =>
      have hkept := busySeen_step e t.system (keepsCounter_plan e.action (by simp [ha]) (by simp [ha]))
      have hr : e.requeues t.system = false := by simp [Event.requeues, ha]
      rw [hkept]
      by_cases hl : e.launches t.system = true
      · rw [if_pos hl, hzero rfl hl]
      · have hbefore : t.dropped = false := by simpa [Event.drops, ha, hl] using hdropped
        rw [if_neg hl, hr, ht hbefore]
        rfl
  · exact counted_step_of_ne hs ht

theorem busySeen_of_launches (e : Event S H) (y : System S H) (h : e.launches y = true) :
    busySeen ((e.step y).dests e.session).metaJson = busySeen (y.dests e.session).metaJson := by
  apply busySeen_step
  apply keepsCounter_plan <;> intros <;> intro ha <;> simp [Event.launches, ha] at h

theorem metaJson_of_busy {e : Event S H} {y : System S H} {cap g : ℕ} {jobId : String}
    (h : e.action = .busy cap jobId g) (hstop : e.stop = none) :
    ((e.step y).dests e.session).metaJson = some
      (if busySeen (y.dests e.session).metaJson < cap then
        ((y.dests e.session).metaJson.getD {}).busyStamp
          (busySeen (y.dests e.session).metaJson + 1)
      else ((y.dests e.session).metaJson.getD {}).markJobFailed (y.dests e.session).ready jobId
        "shared_cache_busy" g (some "shared book cache stayed busy")) := by
  rw [dests_step_self, e.diskAt_finish y hstop, h, Action.plan, CrashLogic.finish,
    requeueSharedCache]
  by_cases hcap : busySeen (y.dests e.session).metaJson < cap
  · rw [if_pos hcap]
    rw [if_neg (by simpa [System.disk] using hcap)]
    rfl
  · rw [if_neg hcap]
    rw [if_pos (by simpa [System.disk] using hcap)]
    rfl

theorem withinBudget_iff (s : S) (e : Event S H) (t : Tally S H) (ht : t.Counted s)
    (hbusy : e.BusyBeforeDrop s t) : e.WithinBudget s t ↔ e.StartsFromZero s t := by
  constructor
  · rintro h rfl hl
    have hstop : e.stop = none := by
      unfold Event.launches at hl
      split at hl
      · simpa using (Bool.and_eq_true_iff.mp hl).1
      · cases hl
    rw [← busySeen_of_launches e t.system hl]
    exact (h rfl hstop).1 hl
  · rintro h rfl hstop
    refine ⟨fun hl => ?_, fun cap jobId g ha => ?_⟩
    · rw [busySeen_of_launches e t.system hl]
      exact h rfl hl
    · rw [metaJson_of_busy ha hstop, ht (hbusy rfl cap jobId g ha)]

def spentBudget : List (Event Unit ℕ) :=
  [{ session := (), action := .post (release 1 1 1 1) (upload false) },
   { session := (), action := .busy 1 "job" 1 },
   { session := (), action := .busy 1 "job" 1 },
   { session := (), action := .post (release 1 1 1 1) (upload false) },
   { session := (), action := .busy 1 "job" 2 }]

end FinanceContext
