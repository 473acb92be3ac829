import FinanceContext.Admission
import FinanceContext.JobHistory

/-!
POSTs of one job against the horses that run it. The check before the session lock and the
check under it read the queue, the locks and the document at different moments; an event
that is not enabled changes nothing.
-/

namespace FinanceContext.LiveRuns

open Histories

variable {H : Type}

structure Request (H : Type) where
  code : Code H
  upload : Upload

/-- Where a POST is: filling in the looks of the early check, past it, or under the session
lock with the queue status it read there and the generation it will enqueue. -/
inductive Post (H : Type) where
  | idle
  | checking (k : Looks H)
  | cleared
  | locked
  | sighted (status : Option RqStatus)
  | admitted (status : Option RqStatus) (generation : ℕ)
  | deleted (generation : ℕ)

def Post.holdsLock : Post H → Bool
  | locked | sighted _ | admitted _ _ | deleted _ => true
  | idle | checking _ | cleared => false

/-- `recorded` is a horse that holds `.horse.lock` and has written `.horse.json`. -/
inductive HorsePhase where
  | picked | locked | recorded | ended
  deriving DecidableEq, Repr

structure Horse where
  generation : ℕ
  phase : HorsePhase
  deriving DecidableEq, Repr

/-- The queue record of the job's id; `owner` is the horse that works on it. -/
structure QueueRecord where
  status : RqStatus
  generation : ℕ
  owner : Option ℕ
  deriving DecidableEq, Repr

structure World (H : Type) where
  dest : Dest H
  queue : Option QueueRecord
  horses : ℕ → Option Horse
  horseHolder : Option ℕ
  horseFile : Option ℕ
  runLock : Option ℕ
  lock : Option ℕ
  posts : ℕ → Post H

/-- The events of the POSTs, of the horses and their children, of RQ, and any other write
in the session's directory. -/
inductive Event (H : Type) where
  | arrive (j : ℕ)
  | again (j : ℕ)
  | wait (j : ℕ)
  | conclude (j : ℕ)
  | lock (j : ℕ)
  | status (j : ℕ)
  | judge (j : ℕ)
  | delete (j : ℕ)
  | enqueue (j : ℕ)
  | answer (j : ℕ)
  | pickup (h : ℕ)
  | horseLock (h : ℕ)
  | horseRecord (h : ℕ)
  | releaseRecord (h : ℕ)
  | childLock (h : ℕ)
  | childEnd (h : ℕ)
  | horseEnd (h : ℕ)
  | settle (status : RqStatus)
  | expire
  | document (d : Dest H)

namespace World

def start : World H where
  dest := ⟨none, fun _ => none⟩
  queue := none
  horses := fun _ => none
  horseHolder := none
  horseFile := none
  runLock := none
  lock := none
  posts := fun _ => .idle

def phase (w : World H) (h : ℕ) : Option HorsePhase := (w.horses h).map Horse.phase

/-- The horse holds the horse lock with its own record written. -/
def Live (w : World H) (h : ℕ) : Prop := w.phase h = some .recorded

def Ended (w : World H) : Prop := ∀ h p, w.phase h = some p → p = .ended

def queueStatus (w : World H) : Option RqStatus := w.queue.map QueueRecord.status

def setPost (w : World H) (j : ℕ) (p : Post H) : World H :=
  { w with posts := Function.update w.posts j p }

def release (w : World H) (j : ℕ) : World H :=
  { w with lock := if w.lock = some j then none else w.lock }.setPost j .idle

def setPhase (w : World H) (h : ℕ) (p : HorsePhase) : World H :=
  { w with horses := Function.update w.horses h ((w.horses h).map fun x => { x with phase := p }) }

/-- What a check reads now, besides the queue. -/
def sight (w : World H) : Sight H where
  stored := w.dest.metaJson
  runLock := w.runLock.isSome
  record := w.horseFile
  horseLock := w.horseHolder.isSome

/-- The lock of a horse and the lock of its child go with the process. -/
def endHorse (w : World H) (h : ℕ) : World H :=
  { w with horseHolder := if w.horseHolder = some h then none else w.horseHolder }.setPhase h .ended

end World

def noLooks (w : World H) : Looks H := ⟨none, w.sight, none, w.sight, none, none, w.sight⟩

section

variable [DecidableEq H]

def postStep (req : ℕ → Request H) (e : Event H) (w : World H) : World H :=
  match e with
  | .arrive j =>
    match w.posts j with
    | .idle => w.setPost j (.checking { noLooks w with status := some w.queueStatus })
    | _ => w
  | .again j =>
    match w.posts j with
    | .checking k => w.setPost j (.checking { k with again := some w.queueStatus, second := w.sight })
    | _ => w
  | .wait j =>
    match w.posts j with
    | .checking k =>
      let clear := !w.queueStatus.any RqStatus.inflight && w.runLock.isNone
      w.setPost j (.checking { k with stop := some (), waited := some clear, last := w.sight })
    | _ => w
  | .conclude j =>
    match w.posts j with
    | .checking k =>
      w.setPost j (if inflightResponse (req j).code (req j).upload.rebuild k = none then .cleared
        else .idle)
    | _ => w
  | .lock j =>
    match w.posts j with
    | .cleared =>
      if w.lock = none ∧ w.runLock = none then { w with lock := some j }.setPost j .locked
      else w.setPost j .idle
    | _ => w
  | .status j =>
    match w.posts j with
    | .locked => w.setPost j (.sighted w.queueStatus)
    | _ => w
  | .judge j =>
    match w.posts j with
    | .sighted status =>
      if lockedResponse (req j).code (req j).upload.rebuild (readyMeta (req j).code w.dest) status
          w.sight = none then
        w.setPost j (.admitted status (nextGeneration w.dest.metaJson))
      else w.release j
    | _ => w
  | .delete j =>
    match w.posts j with
    | .admitted status generation =>
      { w with queue := if status.isSome then none else w.queue }.setPost j (.deleted generation)
    | _ => w
  | .enqueue j =>
    match w.posts j with
    | .deleted generation =>
      if w.queue = none then
        { w with
          queue := some ⟨.queued, generation, none⟩
          dest.metaJson := some ((w.dest.metaJson.getD {}).postStamp
            { (req j).upload.payload w.dest.metaJson with generation := generation }) }.release j
      else w.release j
    | _ => w
  | .answer j => if (w.posts j).holdsLock then w.release j else w.setPost j .idle
  | _ => w

def workerStep (e : Event H) (w : World H) : World H :=
  match e with
  | .pickup h =>
    match w.queue, w.horses h with
    | some ⟨.queued, generation, _⟩, none =>
      { w with
        queue := some ⟨.started, generation, some h⟩
        horses := Function.update w.horses h (some ⟨generation, .picked⟩) }
    | _, _ => w
  | .horseLock h =>
    if w.phase h = some .picked ∧ w.horseHolder = none then
      { w with horseHolder := some h }.setPhase h .locked
    else w
  | .horseRecord h =>
    match w.horses h with
    | some ⟨generation, .locked⟩ => { w with horseFile := some generation }.setPhase h .recorded
    | _ => w
  | .releaseRecord h => if w.phase h = some .recorded then { w with horseFile := none } else w
  | .childLock h =>
    if w.phase h = some .recorded ∧ w.runLock = none then { w with runLock := some h } else w
  | .childEnd h => if w.runLock = some h then { w with runLock := none } else w
  | .horseEnd h => if w.phase h = none then w else w.endHorse h
  | .settle status =>
    match w.queue with
    | some r =>
      if r.status.inflight ∧ status ≠ .started ∧
          (r.owner.all fun h => w.phase h = some .ended) then
        { w with queue := some ⟨status, r.generation, none⟩ }
      else w
    | none => w
  | .expire =>
    match w.queue with
    | some r => if r.status = .started then w else { w with queue := none }
    | none => w
  | .document d => { w with dest := d }
  | _ => w

def step (req : ℕ → Request H) (e : Event H) (w : World H) : World H :=
  workerStep e (postStep req e w)

/-- A POST enqueues while no horse of an earlier generation is alive. -/
def NoLiveRun (e : Event H) (w : World H) : Prop :=
  ∀ j generation, e = .enqueue j → w.posts j = .deleted generation → w.queue = none →
    ∀ h, ¬ w.Live h

/-- A POST that the check under the lock lets go on over a record in flight finds every
horse ended, and the worker does not pick the record up before the POST has deleted it. -/
def Undisputed (req : ℕ → Request H) (e : Event H) (w : World H) : Prop :=
  match e with
  | .judge j => ∀ status, w.posts j = .sighted status → status.any RqStatus.inflight = true →
      lockedResponse (req j).code (req j).upload.rebuild (readyMeta (req j).code w.dest) status
        w.sight = none → w.Ended
  | .pickup i => w.queueStatus = some .queued → w.horses i = none →
      ∀ j status generation, w.posts j ≠ .admitted status generation
  | _ => True

end

namespace World

/-- What a POST under the lock has established. -/
def PostFits (w : World H) : Post H → Prop
  | .sighted status => (status = none → w.queue = none) ∧
      (status.any RqStatus.inflight = false → w.queueStatus.any RqStatus.inflight = false)
  | .admitted status _ => (status = none → w.queue = none) ∧ w.Ended
  | .deleted _ => w.queue = none ∧ w.Ended
  | _ => True

structure Consistent (w : World H) : Prop where
  owned : ∀ h p, w.phase h = some p → p ≠ .ended →
    ∃ r, w.queue = some r ∧ r.status = .started ∧ r.owner = some h
  locked : ∀ j, (w.posts j).holdsLock = true → w.lock = some j
  fits : ∀ j, w.PostFits (w.posts j)

variable {w : World H}

theorem Consistent.ended_of_not_inflight (h : w.Consistent)
    (hqueue : w.queueStatus.any RqStatus.inflight = false) : w.Ended := by
  intro i p hp
  by_contra hne
  obtain ⟨r, hr, hstarted, -⟩ := h.owned i p hp hne
  rw [queueStatus, hr, Option.map_some, Option.any_some, hstarted] at hqueue
  cases hqueue

theorem Consistent.setPost {j : ℕ} {p : Post H} (h : w.Consistent) (hp : w.PostFits p)
    (hlock : p.holdsLock = true → w.lock = some j) : (w.setPost j p).Consistent := by
  refine ⟨h.owned, fun i hi => ?_, fun i => ?_⟩
  · change (Function.update w.posts j p i).holdsLock = true at hi
    by_cases hij : i = j
    · subst hij
      rw [Function.update_self] at hi
      exact hlock hi
    · rw [Function.update_of_ne hij] at hi
      exact h.locked i hi
  · change w.PostFits (Function.update w.posts j p i)
    by_cases hij : i = j
    · rwa [hij, Function.update_self]
    · rw [Function.update_of_ne hij]
      exact h.fits i

theorem Consistent.release {j : ℕ} (h : w.Consistent) : (w.release j).Consistent := by
  refine ⟨h.owned, fun i hi => ?_, fun i => ?_⟩
  · change (Function.update w.posts j .idle i).holdsLock = true at hi
    by_cases hij : i = j
    · rw [hij, Function.update_self] at hi
      cases hi
    · rw [Function.update_of_ne hij] at hi
      have hlock := h.locked i hi
      change (if w.lock = some j then none else w.lock) = some i
      rwa [if_neg (by rw [hlock, Option.some.injEq]; exact hij)]
  · change w.PostFits (Function.update w.posts j .idle i)
    by_cases hij : i = j
    · rw [hij, Function.update_self]
      trivial
    · rw [Function.update_of_ne hij]
      exact h.fits i

theorem Consistent.of_phases {w' : World H} (h : w.Consistent) (hqueue : w'.queue = w.queue)
    (hlock : w'.lock = w.lock) (hposts : w'.posts = w.posts)
    (hphases : ∀ i p, w'.phase i = some p → p ≠ .ended → ∃ q, w.phase i = some q ∧ q ≠ .ended) :
    w'.Consistent := by
  have hended : w.Ended → w'.Ended := by
    intro hw i p hp
    by_contra hne
    obtain ⟨q, hq, hqne⟩ := hphases i p hp hne
    exact hqne (hw i q hq)
  refine ⟨fun i p hp hne => ?_, fun j hj => ?_, fun j => ?_⟩
  · obtain ⟨q, hq, hqne⟩ := hphases i p hp hne
    rw [hqueue]
    exact h.owned i q hq hqne
  · rw [hlock]
    rw [hposts] at hj
    exact h.locked j hj
  · rw [hposts]
    have hfits := h.fits j
    cases hpost : w.posts j with
    | sighted status =>
      rw [hpost] at hfits
      simpa only [PostFits, queueStatus, hqueue] using hfits
    | admitted status generation =>
      rw [hpost] at hfits
      exact ⟨fun hnone => hqueue ▸ hfits.1 hnone, hended hfits.2⟩
    | deleted generation =>
      rw [hpost] at hfits
      exact ⟨hqueue ▸ hfits.1, hended hfits.2⟩
    | _ => trivial

theorem phase_setPhase (w : World H) (h i : ℕ) (p : HorsePhase) :
    (w.setPhase h p).phase i = if i = h then (w.phase h).map fun _ => p else w.phase i := by
  simp only [phase, setPhase]
  by_cases hi : i = h
  · subst hi
    rw [Function.update_self, if_pos rfl, Option.map_map, Option.map_map]
    rfl
  · rw [Function.update_of_ne hi, if_neg hi]

theorem Consistent.setPhase {w' : World H} {i : ℕ} {p q : HorsePhase} (h : w.Consistent)
    (hw' : w'.phase = (w.setPhase i q).phase) (hqueue : w'.queue = w.queue)
    (hlock : w'.lock = w.lock) (hposts : w'.posts = w.posts) (hp : w.phase i = some p)
    (hpq : q ≠ .ended → p ≠ .ended) : w'.Consistent := by
  refine h.of_phases hqueue hlock hposts fun k r hr hne => ?_
  rw [hw', phase_setPhase] at hr
  by_cases hk : k = i
  · rw [if_pos hk, hp, Option.map_some, Option.some.injEq] at hr
    rw [hk]
    exact ⟨p, hp, hpq (hr ▸ hne)⟩
  · rw [if_neg hk] at hr
    exact ⟨r, hr, hne⟩

theorem Consistent.pickup {i : ℕ} (h : w.Consistent)
    (hfits : w.queueStatus = some .queued → w.horses i = none →
      ∀ j status generation, w.posts j ≠ .admitted status generation) :
    (workerStep (.pickup i) w).Consistent := by
  simp only [workerStep]
  split
  swap
  · exact h
  next generation owner hqueue hnew =>
  have hidle : w.Ended := by
    intro k p hp
    by_contra hne
    obtain ⟨r, hr, hstarted, -⟩ := h.owned k p hp hne
    rw [hqueue, Option.some.injEq] at hr
    rw [← hr] at hstarted
    cases hstarted
  refine ⟨fun k p hp hne => ?_, h.locked, fun j => ?_⟩
  · refine ⟨_, rfl, rfl, ?_⟩
    simp only [phase] at hp
    by_cases hk : k = i
    · rw [hk]
    · rw [Function.update_of_ne hk] at hp
      exact absurd (hidle k p hp) hne
  · have hpost := h.fits j
    have hnot := hfits (by rw [queueStatus, hqueue]; rfl) hnew j
    change PostFits _ (w.posts j)
    cases hj : w.posts j with
    | sighted status =>
      rw [hj] at hpost
      have hnone : status ≠ none := by
        intro hstatus
        rw [hpost.1 hstatus] at hqueue
        cases hqueue
      have hinflight : status.any RqStatus.inflight ≠ false := by
        intro hstatus
        have hnow := hpost.2 hstatus
        rw [queueStatus, hqueue] at hnow
        cases hnow
      exact ⟨fun hstatus => absurd hstatus hnone, fun hstatus => absurd hstatus hinflight⟩
    | admitted status generation => exact absurd hj (hnot status generation)
    | deleted generation =>
      rw [hj] at hpost
      rw [hpost.1] at hqueue
      cases hqueue
    | _ => trivial

theorem Consistent.requeue {queue : Option QueueRecord} (h : w.Consistent) (hended : w.Ended)
    (hnone : w.queue = none → queue = none)
    (hinflight : w.queueStatus.any RqStatus.inflight = false →
      (queue.map QueueRecord.status).any RqStatus.inflight = false) :
    Consistent { w with queue := queue } := by
  refine ⟨fun k p hp hne => absurd (hended k p hp) hne, h.locked, fun j => ?_⟩
  have hpost := h.fits j
  change PostFits _ (w.posts j)
  cases hj : w.posts j with
  | sighted status =>
    rw [hj] at hpost
    exact ⟨fun hstatus => hnone (hpost.1 hstatus), fun hstatus => hinflight (hpost.2 hstatus)⟩
  | admitted status generation =>
    rw [hj] at hpost
    exact ⟨fun hstatus => hnone (hpost.1 hstatus), hpost.2⟩
  | deleted generation =>
    rw [hj] at hpost
    exact ⟨hnone hpost.1, hpost.2⟩
  | _ => trivial

theorem Consistent.ended_of_status {r : QueueRecord} (h : w.Consistent) (hr : w.queue = some r)
    (howner : r.status = .started → ∀ i, r.owner = some i → w.phase i = some .ended) :
    w.Ended := by
  intro k p hp
  by_contra hne
  obtain ⟨r', hr', hstarted, hk⟩ := h.owned k p hp hne
  rw [hr, Option.some.injEq] at hr'
  subst hr'
  have hend := howner hstarted k hk
  rw [hend, Option.some.injEq] at hp
  exact hne hp.symm

theorem Consistent.settle {status : RqStatus} (h : w.Consistent) :
    (workerStep (.settle status) w).Consistent := by
  simp only [workerStep]
  split
  · next r hr =>
    split_ifs with hguard
    · obtain ⟨hin, -, howner⟩ := hguard
      have hended : w.Ended := h.ended_of_status hr fun _ i hi => by
        rw [hi, Option.all_some] at howner
        exact of_decide_eq_true howner
      refine h.requeue hended (fun hnone => ?_) fun hnot => ?_
      · rw [hr] at hnone
        cases hnone
      · rw [queueStatus, hr, Option.map_some, Option.any_some, hin] at hnot
        cases hnot
    · exact h
  · exact h

theorem Consistent.expire (h : w.Consistent) : (workerStep .expire w).Consistent := by
  simp only [workerStep]
  split
  · next r hr =>
    split_ifs with hstarted
    · exact h
    · have hended : w.Ended := h.ended_of_status hr fun hs => absurd hs hstarted
      exact h.requeue hended (fun _ => rfl) fun _ => rfl
  · exact h

theorem Consistent.workerStep {e : Event H} (h : w.Consistent)
    (hpickup : ∀ i, e = .pickup i → w.queueStatus = some .queued → w.horses i = none →
      ∀ j status generation, w.posts j ≠ .admitted status generation) :
    (workerStep e w).Consistent := by
  cases e with
  | pickup i => exact h.pickup (hpickup i rfl)
  | settle status => exact h.settle
  | expire => exact h.expire
  | horseLock i =>
    simp only [LiveRuns.workerStep]
    split_ifs with hfree
    · exact h.setPhase rfl rfl rfl rfl hfree.1 (fun _ hp => by cases hp)
    · exact h
  | horseRecord i =>
    simp only [LiveRuns.workerStep]
    split
    · next generation hi =>
      have hphase : w.phase i = some .locked := by rw [phase, hi, Option.map_some]
      exact h.setPhase rfl rfl rfl rfl hphase (fun _ hp => by cases hp)
    · exact h
  | releaseRecord i =>
    simp only [LiveRuns.workerStep]
    split_ifs
    · exact ⟨h.owned, h.locked, h.fits⟩
    · exact h
  | childLock i =>
    simp only [LiveRuns.workerStep]
    split_ifs
    · exact ⟨h.owned, h.locked, h.fits⟩
    · exact h
  | childEnd i =>
    simp only [LiveRuns.workerStep]
    split_ifs
    · exact ⟨h.owned, h.locked, h.fits⟩
    · exact h
  | horseEnd i =>
    simp only [LiveRuns.workerStep]
    split_ifs with hnone
    · exact h
    · obtain ⟨p, hp⟩ := Option.ne_none_iff_exists'.mp hnone
      exact h.setPhase rfl rfl rfl rfl hp (fun hne => absurd rfl hne)
  | document d => exact ⟨h.owned, h.locked, h.fits⟩
  | _ => exact h

theorem Consistent.idle {j : ℕ} {p : Post H} (h : w.Consistent) (hp : p.holdsLock = false) :
    (w.setPost j p).Consistent := by
  refine h.setPost ?_ fun hlock => ?_
  · cases p <;> trivial
  · rw [hp] at hlock
    cases hlock

theorem Consistent.lock {j : ℕ} (h : w.Consistent) (hfree : w.lock = none) :
    ({ w with lock := some j }.setPost j .locked).Consistent := by
  refine ⟨h.owned, fun i hi => ?_, fun i => ?_⟩
  · change (Function.update w.posts j .locked i).holdsLock = true at hi
    by_cases hij : i = j
    · rw [hij]
      rfl
    · rw [Function.update_of_ne hij] at hi
      have hlock := h.locked i hi
      rw [hfree] at hlock
      cases hlock
  · change PostFits _ (Function.update w.posts j .locked i)
    by_cases hij : i = j
    · rw [hij, Function.update_self]
      trivial
    · rw [Function.update_of_ne hij]
      exact h.fits i

theorem Consistent.delete {j generation : ℕ} {status : Option RqStatus} (h : w.Consistent)
    (hj : w.posts j = .admitted status generation) :
    ({ w with queue := if status.isSome then none else w.queue }.setPost j
      (.deleted generation)).Consistent := by
  have hfits := h.fits j
  rw [hj] at hfits
  obtain ⟨hnone, hended⟩ := hfits
  have hgone : (if status.isSome then none else w.queue) = none := by
    cases status with
    | none => exact hnone rfl
    | some st => rfl
  rw [hgone]
  have hcleared : Consistent { w with queue := none } :=
    h.requeue hended (fun _ => rfl) fun _ => rfl
  refine hcleared.setPost ⟨rfl, hended⟩ fun _ => h.locked j ?_
  rw [hj]
  rfl

theorem Consistent.enqueue {j generation : ℕ} {dest : Dest H} (h : w.Consistent)
    (hj : w.posts j = .deleted generation) :
    ({ w with queue := some ⟨.queued, generation, none⟩, dest := dest }.release j).Consistent := by
  have hfits := h.fits j
  rw [hj] at hfits
  have hlock : w.lock = some j := h.locked j (by rw [hj]; rfl)
  have hother : ∀ i, i ≠ j → (w.posts i).holdsLock = false := by
    intro i hij
    refine Bool.eq_false_iff.mpr fun hi => hij ?_
    exact Option.some.inj ((h.locked i hi).symm.trans hlock)
  refine ⟨fun k p hp hne => absurd (hfits.2 k p hp) hne, fun i hi => ?_, fun i => ?_⟩
  · change (Function.update w.posts j .idle i).holdsLock = true at hi
    by_cases hij : i = j
    · rw [hij, Function.update_self] at hi
      cases hi
    · rw [Function.update_of_ne hij, hother i hij] at hi
      cases hi
  · change PostFits _ (Function.update w.posts j .idle i)
    by_cases hij : i = j
    · rw [hij, Function.update_self]
      trivial
    · rw [Function.update_of_ne hij]
      have hi := hother i hij
      cases hpost : w.posts i <;> rw [hpost] at hi <;> trivial

variable [DecidableEq H] {req : ℕ → Request H}

theorem Consistent.judge {j : ℕ} (h : w.Consistent) (hfits : Undisputed req (.judge j) w) :
    (postStep req (.judge j) w).Consistent := by
  simp only [postStep]
  split
  swap
  · exact h
  next status hj =>
  split_ifs with hlocked
  · have hsighted := h.fits j
    rw [hj] at hsighted
    have hended : w.Ended := by
      cases hin : status.any RqStatus.inflight with
      | true => exact hfits status hj hin hlocked
      | false => exact h.ended_of_not_inflight (hsighted.2 hin)
    refine h.setPost ⟨hsighted.1, hended⟩ fun _ => h.locked j ?_
    rw [hj]
    rfl
  · exact h.release

theorem Consistent.postStep {e : Event H} (h : w.Consistent) (hfits : Undisputed req e w) :
    (postStep req e w).Consistent := by
  cases e with
  | arrive j =>
    simp only [LiveRuns.postStep]
    split
    · exact h.idle rfl
    · exact h
  | again j =>
    simp only [LiveRuns.postStep]
    split
    · exact h.idle rfl
    · exact h
  | wait j =>
    simp only [LiveRuns.postStep]
    split
    · exact h.idle rfl
    · exact h
  | conclude j =>
    simp only [LiveRuns.postStep]
    split
    · split_ifs <;> exact h.idle rfl
    · exact h
  | lock j =>
    simp only [LiveRuns.postStep]
    split
    · split_ifs with hfree
      · exact h.lock hfree.1
      · exact h.idle rfl
    · exact h
  | status j =>
    simp only [LiveRuns.postStep]
    split
    · next hj =>
      refine h.setPost ⟨fun hnone => Option.map_eq_none_iff.mp hnone, fun hnot => hnot⟩ fun _ => ?_
      exact h.locked j (by rw [hj]; rfl)
    · exact h
  | judge j => exact h.judge hfits
  | delete j =>
    simp only [LiveRuns.postStep]
    split
    · next hj => exact h.delete hj
    · exact h
  | enqueue j =>
    simp only [LiveRuns.postStep]
    split
    · next hj =>
      split_ifs
      · exact h.enqueue hj
      · exact h.release
    · exact h
  | answer j =>
    simp only [LiveRuns.postStep]
    split_ifs
    · exact h.release
    · exact h.idle rfl
  | _ => exact h

theorem Consistent.step {e : Event H} (h : w.Consistent) (hfits : Undisputed req e w) :
    (step req e w).Consistent := by
  refine (h.postStep hfits).workerStep fun i he => ?_
  subst he
  exact hfits

omit [DecidableEq H] in
theorem Consistent.noLiveRun (h : w.Consistent) (e : Event H) : NoLiveRun e w := by
  intro j generation _ hj _ i hlive
  have hfits := h.fits j
  rw [hj] at hfits
  have hend := hfits.2 i .recorded hlive
  cases hend

end World

/-- In a run whose every step is undisputed no POST enqueues over a live horse. -/
theorem no_enqueue_over_live_run [DecidableEq H] (req : ℕ → Request H) (es : List (Event H))
    (h : Along (step req) (Undisputed req) es World.start) :
    Along (step req) NoLiveRun es World.start := by
  have hstart : (World.start : World H).Consistent :=
    ⟨fun i p hp => (by cases hp), fun j hj => (by cases hj), fun _ => trivial⟩
  exact h.imp (fun e w hw _ => hw.noLiveRun e) (fun e w hw hfits => hw.step hfits) hstart

theorem no_enqueue_over_live_run_alone :
    Along (step fun _ => ⟨release 1 1 1 1, upload false⟩) (Undisputed fun _ =>
        ⟨release 1 1 1 1, upload false⟩) [.arrive 0, .conclude 0, .lock 0, .status 0, .judge 0,
          .delete 0, .enqueue 0] (World.start : World ℕ) ∧
      Along (step fun _ => ⟨release 1 1 1 1, upload false⟩) NoLiveRun [.arrive 0, .conclude 0,
        .lock 0, .status 0, .judge 0, .delete 0, .enqueue 0]
        (World.start : World ℕ) := by
  have hfits : Along (step fun _ => ⟨release 1 1 1 1, upload false⟩) (Undisputed fun _ =>
      ⟨release 1 1 1 1, upload false⟩) [.arrive 0, .conclude 0, .lock 0, .status 0, .judge 0,
        .delete 0, .enqueue 0] (World.start : World ℕ) := by
    refine ⟨trivial, trivial, trivial, trivial, fun status hstatus hinflight => ?_, trivial, trivial,
      trivial⟩
    cases hstatus
    cases hinflight
  exact ⟨hfits, no_enqueue_over_live_run _ _ hfits⟩

def secondPost : List (Event ℕ) :=
  [.arrive 0, .conclude 0, .arrive 1, .conclude 1,
    .lock 0, .status 0, .judge 0, .delete 0, .enqueue 0,
    .pickup 0, .horseLock 0, .horseRecord 0,
    .lock 1, .status 1, .judge 1, .delete 1]

theorem secondPost_overLiveRun :
    ¬ Along (step fun _ => ⟨release 1 1 1 1, upload false⟩) NoLiveRun
      (secondPost ++ [.enqueue 1]) (World.start : World ℕ) := by
  intro h
  exact (along_append.mp h).2.1 1 2 rfl rfl rfl 0 rfl

end FinanceContext.LiveRuns
