import FinanceContext.Artifacts

namespace FinanceContext

open CrashLogic

variable {H : Type}

def formulaIr : List SharedFile := [.irCells, .irEdges, .irCellEdges, .irCompile]

def raw : List SharedFile := [.rawCells, .rawPresence, .rawWorkbook]

def published : List SessionFile := [.contextJson, .contextMd, .contextRenderer]

def graphFiles : List SessionFile := [.graphJson, .graphMd, .graphIndex, .graphEdges]

def clearSharedArtifacts (staleFrom : Option Stage) : Plan (Disk H) (Op H) := fun d =>
  match staleFrom with
  | none => []
  | some stale =>
    (if stale.reached .layout then [.unlinkShared .layoutJson] else []) ++
    (if stale.reached .compile || !d.book.source then formulaIr.map .unlinkShared else []) ++
    (if stale.reached .compile then raw.map .unlinkShared else [])

/-- `clear_downstream_artifacts` over a session directory of its own. -/
def clearDownstreamArtifacts (staleFrom : Option Stage) (dropMeta : Bool) : List (Op H) :=
  match staleFrom with
  | none => []
  | some stale =>
    (if stale.reached .publish then published.map .unlinkSession else []) ++
    (if stale.reached .graph then graphFiles.map .unlinkSession else []) ++
    (if dropMeta then [.unlinkMeta] else [])

theorem emits_clearShared (stale : Option Stage) :
    Emits (fun op : Op H => op.clears = true ∧ ∃ f, op = .unlinkShared f)
      (clearSharedArtifacts stale) := by
  intro d op hop
  cases stale with
  | none => cases hop
  | some stale =>
    have hmap (fs : List SharedFile) (b : Bool)
        (h : op ∈ if b then fs.map (Op.unlinkShared (H := H)) else []) :
        op.clears = true ∧ ∃ f, op = .unlinkShared f := by
      split_ifs at h
      · obtain ⟨f, -, rfl⟩ := List.mem_map.mp h
        exact ⟨rfl, f, rfl⟩
      · cases h
    simp only [clearSharedArtifacts, List.mem_append] at hop
    rcases hop with (hop | hop) | hop
    · exact hmap [.layoutJson] _ hop
    · exact hmap formulaIr _ hop
    · exact hmap raw _ hop

theorem clears_clearDownstream (stale : Option Stage) (dropMeta : Bool) (op : Op H)
    (hop : op ∈ clearDownstreamArtifacts stale dropMeta) :
    op.clears = true ∧ op.sessionOnly = true := by
  cases stale with
  | none => cases hop
  | some stale =>
    simp only [clearDownstreamArtifacts, List.mem_append] at hop
    rcases hop with (hop | hop) | hop <;> split_ifs at hop
    · obtain ⟨f, -, rfl⟩ := List.mem_map.mp hop
      exact ⟨rfl, rfl⟩
    · cases hop
    · obtain ⟨f, -, rfl⟩ := List.mem_map.mp hop
      exact ⟨rfl, rfl⟩
    · cases hop
    · rw [List.mem_singleton] at hop
      subst hop
      exact ⟨rfl, rfl⟩
    · cases hop

def Dest.clearedFrom (stale : Stage) (d : Dest H) : Dest H where
  metaJson := none
  files := fun f => if stale.reached f.stage then none else d.files f

def Book.clearedFrom (stale : Stage) (b : Book H) : Book H where
  source := b.source
  legacy := b.legacy
  files := fun f => if stale.reached f.stage || (f ∈ formulaIr && !b.source) then none else b.files f
  stages := b.stages

theorem dest_clearDownstream (stale : Stage) (d : Disk H) :
    (apply act (clearDownstreamArtifacts (some stale) true) d).dest = d.dest.clearedFrom stale := by
  cases stale <;> refine Dest.ext rfl (funext fun f => ?_) <;> cases f <;> rfl

theorem book_clearShared (stale : Stage) (d : Disk H) :
    (finish act (clearSharedArtifacts (some stale)) d).book = d.book.clearedFrom stale := by
  obtain ⟨⟨source, legacy, files, stages⟩, dest⟩ := d
  cases source <;> cases stale <;> refine Book.ext rfl rfl (funext fun f => ?_) rfl <;>
    cases f <;> rfl

variable [DecidableEq H]

def sessionStaleStage (code : Code H) (doc : Option (JobMeta H)) : Option Stage :=
  (doc.bind JobMeta.rebuildFrom).or (code.staleFromMeta (doc.map JobMeta.stamp))

def recordedOrLayout (recorded : Option Stage) : Stage :=
  match recorded with
  | some s => if s.order ≤ Stage.layout.order then s else .layout
  | none => .layout

def sharedStaleStage (code : Code H) (book : Book H) (adoptCurrent : Bool)
    (recorded : Option Stage) : Option Stage :=
  match book.stages with
  | none =>
    if adoptCurrent || !book.cacheHasBody then none else some (recordedOrLayout recorded)
  | some st =>
    match code.staleFromMeta (some st) with
    | some detected => some detected
    | none => if recorded = some .compile ∨ recorded = some .layout then recorded else none

structure SharedInvalidation (H : Type) where
  rebuiltFrom : Option Stage
  trustedStages : Option (StageMap (Option H))
  adopt : Bool

/-- What `invalidate_for_run` returns; it reads the disk before anything is cleared. -/
def invalidation (code : Code H) (d : Disk H) : SharedInvalidation H :=
  let stamp := d.dest.metaJson.map JobMeta.stamp
  let adopt := code.publisherMatches stamp || !d.book.cacheHasBody
  { rebuiltFrom := sharedStaleStage code d.book adopt (sessionStaleStage code d.dest.metaJson)
    trustedStages := stamp.bind Stamp.stages
    adopt := adopt }

def invalidateForRun (code : Code H) : Plan (Disk H) (Op H) := fun d =>
  clearSharedArtifacts (invalidation code d).rebuiltFrom d ++
    clearDownstreamArtifacts (sessionStaleStage code d.dest.metaJson) true

def stampedStage (code : Code H) (inv : SharedInvalidation H) (previous : Option (Stamp H))
    (s : Stage) : Option H :=
  let prev := (previous.bind Stamp.stages).map fun m => m s
  let trust := inv.trustedStages.bind fun m => m s
  if inv.rebuiltFrom.any (·.order ≤ s.order) then some (code.hash s)
  else if prev = some (some (code.hash s)) ∨ trust = some (code.hash s) then some (code.hash s)
  else match prev with
    | some kept => kept
    | none => if inv.adopt then some (code.hash s) else none

def sharedStamp (code : Code H) (inv : SharedInvalidation H) (previous : Option (Stamp H)) :
    Stamp H :=
  if ∀ s ∈ Stage.stageOrder, stampedStage code inv previous s = some (code.hash s) then
    .complete code.hash
  else .partialOf (stampedStage code inv previous)

def writeSharedStamp (code : Code H) (inv : SharedInvalidation H) : Plan (Disk H) (Op H) := fun d =>
  if d.book.cacheHasBody then [.putStages (sharedStamp code inv d.book.stages)] else []

theorem recorded_sharedStamp (code : Code H) (inv : SharedInvalidation H)
    (previous : Option (Stamp H)) (s : Stage) :
    (sharedStamp code inv previous).recorded s = stampedStage code inv previous s := by
  unfold sharedStamp
  split_ifs with h
  · rw [Stamp.recorded_complete, h s s.mem_stageOrder]
  · rfl

theorem stampedStage_eq_some {code : Code H} {inv : SharedInvalidation H}
    {previous : Option (Stamp H)} {s : Stage} {h : H}
    (hs : stampedStage code inv previous s = some h) :
    h = code.hash s ∨ inv.rebuiltFrom.any (·.order ≤ s.order) = false ∧
      ∃ st, previous = some st ∧ st.stages ≠ none ∧ st.recorded s = some h := by
  unfold stampedStage at hs
  by_cases hrank : inv.rebuiltFrom.any (·.order ≤ s.order) = true
  · rw [if_pos hrank] at hs
    exact .inl (Option.some.inj hs).symm
  · rw [if_neg hrank] at hs
    cases hprev : previous.bind Stamp.stages with
    | none =>
      rw [hprev] at hs
      have hcases : code.hash s = h := by
        simp only [Option.map_none] at hs
        split_ifs at hs <;> exact Option.some.inj hs
      exact .inl hcases.symm
    | some stored =>
      obtain ⟨st, hst, hmap⟩ := Option.bind_eq_some_iff.mp hprev
      simp only [hprev, Option.map_some] at hs
      by_cases htrust : some (stored s) = some (some (code.hash s)) ∨
          (inv.trustedStages.bind fun m => m s) = some (code.hash s)
      · rw [if_pos htrust] at hs
        exact .inl (Option.some.inj hs).symm
      · rw [if_neg htrust] at hs
        refine .inr ⟨by simpa using hrank, st, hst, by simp [hmap], ?_⟩
        rw [Stamp.recorded, hmap]
        exact hs

theorem emits_invalidateForRun (code : Code H) :
    Emits (fun op : Op H => op.clears = true) (invalidateForRun code) := by
  intro d op hop
  rcases List.mem_append.mp hop with hop | hop
  · exact (emits_clearShared _ d op hop).1
  · exact (clears_clearDownstream _ _ op hop).1

theorem dest_invalidateForRun (code : Code H) (d : Disk H) :
    (finish act (invalidateForRun code) d).dest =
      match sessionStaleStage code d.dest.metaJson with
      | none => d.dest
      | some stale => d.dest.clearedFrom stale := by
  have hshared : (apply act (clearSharedArtifacts (invalidation code d).rebuiltFrom d) d).dest =
      d.dest := by
    apply apply_frame fun t : Disk H => t.dest
    intro op hop t
    obtain ⟨-, f, rfl⟩ := emits_clearShared _ d op hop
    rfl
  rw [finish, invalidateForRun, apply_append]
  cases sessionStaleStage code d.dest.metaJson with
  | none => exact hshared
  | some stale => rw [dest_clearDownstream, hshared]

theorem book_invalidateForRun (code : Code H) (d : Disk H) :
    (finish act (invalidateForRun code) d).book =
      match (invalidation code d).rebuiltFrom with
      | none => d.book
      | some stale => d.book.clearedFrom stale := by
  have hsession (t : Disk H) : (apply act (clearDownstreamArtifacts
      (sessionStaleStage code d.dest.metaJson) true) t).book = t.book :=
    apply_frame (fun t : Disk H => t.book) _ t fun op hop t =>
      act_book_of_sessionOnly (clears_clearDownstream _ _ op hop).2 t
  rw [finish, invalidateForRun, apply_append, hsession]
  cases (invalidation code d).rebuiltFrom with
  | none => rfl
  | some stale => exact book_clearShared stale d

end FinanceContext
