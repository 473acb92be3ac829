import FinanceContext.Histories
import Mathlib.Data.Finset.Card
import Mathlib.Logic.Function.Basic

/-!
The jobs of one session in the queue, and the POSTs that count them and enqueue. A POST
holds its own job's lock from its count to its enqueue, and nothing else.
-/

namespace FinanceContext.SessionLimit

open Histories

variable {J : Type} [DecidableEq J]

/-- The list and the registries of RQ; an id is in one of them. -/
inductive Place where
  | queue | started | scheduled | deferred
  deriving DecidableEq

/-- The order in which `session_inflight` reads them. -/
def countOrder : List Place := [.queue, .started, .scheduled, .deferred]

/-- A POST of one job, under the job's lock; `ids` are the jobs its count has met. -/
inductive Post (J : Type) where
  | idle
  | counting (unread : List Place) (ids : Finset J)
  | admitted

structure Session (J : Type) where
  inflight : Finset J
  place : J → Place
  post : J → Post J

def Session.empty : Session J := ⟨∅, fun _ => .queue, fun _ => .idle⟩

/-- `accept` takes the lock and deletes the previous record, `read` is one of the four
reads of the count, `decide` the comparison with the limit, `drop` any end without an
enqueue; `move` and `finish` are the workers'. -/
inductive Event (J : Type) where
  | accept (j : J)
  | read (j : J)
  | decide (j : J)
  | enqueue (j : J)
  | drop (j : J)
  | move (j : J) (next : Place)
  | finish (j : J)

namespace Session

def setPost (s : Session J) (j : J) (p : Post J) : Session J :=
  { s with post := Function.update s.post j p }

def idsAt (s : Session J) (p : Place) : Finset J := s.inflight.filter (fun k => s.place k = p)

end Session

/-- One step under `JOB_QUEUE_MAX_PER_SESSION`; an event that is not enabled changes nothing. -/
def step (limit : ℕ) (e : Event J) (s : Session J) : Session J :=
  match e with
  | .accept j =>
    match s.post j with
    | .idle => { s with inflight := s.inflight.erase j }.setPost j (.counting countOrder ∅)
    | _ => s
  | .read j =>
    match s.post j with
    | .counting (p :: unread) ids => s.setPost j (.counting unread (ids ∪ s.idsAt p))
    | _ => s
  | .decide j =>
    match s.post j with
    | .counting [] ids => s.setPost j (if limit ≤ ids.card then .idle else .admitted)
    | _ => s
  | .enqueue j =>
    match s.post j with
    | .admitted =>
      { s with
        inflight := insert j s.inflight
        place := if j ∈ s.inflight then s.place else Function.update s.place j .queue }.setPost j
          .idle
    | _ => s
  | .drop j => s.setPost j .idle
  | .move j next => if j ∈ s.inflight then { s with place := Function.update s.place j next } else s
  | .finish j => { s with inflight := s.inflight.erase j }

namespace Session

def WithinLimit (limit : ℕ) (s : Session J) : Prop := s.inflight.card ≤ limit

/-- A POST that enqueues a job finds room for it. -/
def FindsRoom (limit : ℕ) (e : Event J) (s : Session J) : Prop :=
  ∀ j, e = .enqueue j → s.post j = .admitted → j ∉ s.inflight → s.inflight.card < limit

/-- Another job that enters the queue now is missed by this POST. -/
def Exposed (p : Post J) : Prop :=
  match p with
  | .idle => False
  | .counting unread _ => .queue ∉ unread
  | .admitted => True

/-- No other job of the session is enqueued between a POST's count and its enqueue, and
none is moved past a count that has not met it. -/
def Undisturbed (e : Event J) (s : Session J) : Prop :=
  match e with
  | .enqueue k => s.post k = .admitted → ∀ j, j ≠ k → ¬ Exposed (s.post j)
  | .move k next => ∀ j unread ids, s.post j = .counting unread ids → next ∈ unread ∨ k ∈ ids
  | _ => True

/-- What a POST knows about the jobs in flight. -/
def Known (limit : ℕ) (s : Session J) (p : Post J) : Prop :=
  match p with
  | .idle => True
  | .counting unread ids => ∀ k ∈ s.inflight, s.place k ∈ unread ∨ k ∈ ids
  | .admitted => s.inflight.card < limit

def Counted (limit : ℕ) (s : Session J) : Prop := ∀ j, s.Known limit (s.post j)

variable {limit : ℕ} {s : Session J}

omit [DecidableEq J] in
theorem Known.of_subset {inflight : Finset J} {p : Post J} (h : s.Known limit p)
    (hsub : inflight ⊆ s.inflight) : Known limit { s with inflight := inflight } p := by
  cases p with
  | idle => trivial
  | counting unread ids => exact fun k hk => h k (hsub hk)
  | admitted => exact lt_of_le_of_lt (Finset.card_le_card hsub) h

theorem Counted.setPost {j : J} {p : Post J} (h : s.Counted limit) (hp : s.Known limit p) :
    (s.setPost j p).Counted limit := by
  intro i
  change s.Known limit (Function.update s.post j p i)
  by_cases hi : i = j
  · subst hi
    rwa [Function.update_self]
  · rw [Function.update_of_ne hi]
    exact h i

theorem Counted.erase (h : s.Counted limit) (j : J) :
    Counted limit { s with inflight := s.inflight.erase j } :=
  fun i => (h i).of_subset (Finset.erase_subset j s.inflight)

omit [DecidableEq J] in
theorem known_start (s : Session J) : s.Known limit (.counting countOrder ∅) := by
  intro k _
  refine Or.inl ?_
  cases s.place k <;> simp [countOrder]

theorem Known.read {p : Place} {unread : List Place} {ids : Finset J}
    (h : s.Known limit (.counting (p :: unread) ids)) :
    s.Known limit (.counting unread (ids ∪ s.idsAt p)) := by
  intro k hk
  rcases h k hk with hplace | hids
  · rcases List.mem_cons.mp hplace with heq | hunread
    · exact Or.inr (Finset.mem_union_right _ (Finset.mem_filter.mpr ⟨hk, heq⟩))
    · exact Or.inl hunread
  · exact Or.inr (Finset.mem_union_left _ hids)

omit [DecidableEq J] in
theorem Known.decide {ids : Finset J} (h : s.Known limit (.counting [] ids)) :
    s.Known limit (if limit ≤ ids.card then .idle else .admitted) := by
  split_ifs with hlimit
  · trivial
  · have hsub : s.inflight ⊆ ids := fun k hk => (h k hk).resolve_left List.not_mem_nil
    have hcard := Finset.card_le_card hsub
    change s.inflight.card < limit
    omega

theorem Counted.enqueue {k : J} (h : s.Counted limit) (hk : s.post k = .admitted)
    (hquiet : Undisturbed (.enqueue k) s) : (step limit (.enqueue k) s).Counted limit := by
  intro j
  simp only [step, hk]
  change Known limit _ (Function.update s.post k .idle j)
  by_cases hj : j = k
  · subst hj
    rw [Function.update_self]
    trivial
  · rw [Function.update_of_ne hj]
    have hknown := h j
    have hnot := hquiet hk j hj
    cases hpost : s.post j with
    | idle => trivial
    | admitted =>
      rw [hpost] at hnot
      exact absurd trivial hnot
    | counting unread ids =>
      rw [hpost] at hnot hknown
      have hqueue : .queue ∈ unread := not_not.mp hnot
      intro i hi
      change (if k ∈ s.inflight then s.place else Function.update s.place k .queue) i ∈ unread ∨ _
      change i ∈ insert k s.inflight at hi
      by_cases hmem : k ∈ s.inflight
      · rw [if_pos hmem]
        rw [Finset.insert_eq_of_mem hmem] at hi
        exact hknown i hi
      · rw [if_neg hmem]
        by_cases hik : i = k
        · rw [hik, Function.update_self]
          exact Or.inl hqueue
        · rw [Function.update_of_ne hik]
          exact hknown i (Finset.mem_of_mem_insert_of_ne hi hik)

theorem Counted.move {k : J} {next : Place} (h : s.Counted limit)
    (hquiet : Undisturbed (.move k next) s) : (step limit (.move k next) s).Counted limit := by
  simp only [step]
  split_ifs
  swap
  · exact h
  intro j
  have hknown := h j
  have hmoved := hquiet j
  change Known limit _ (s.post j)
  cases hpost : s.post j with
  | idle => trivial
  | admitted =>
    rw [hpost] at hknown
    exact hknown
  | counting unread ids =>
    rw [hpost] at hknown
    intro i hi
    change Function.update s.place k next i ∈ unread ∨ i ∈ ids
    by_cases hik : i = k
    · rw [hik, Function.update_self]
      exact hmoved unread ids hpost
    · rw [Function.update_of_ne hik]
      exact hknown i hi

theorem Counted.step {e : Event J} (h : s.Counted limit) (hquiet : Undisturbed e s) :
    (step limit e s).Counted limit := by
  cases e with
  | accept j =>
    simp only [SessionLimit.step]
    split
    · exact (h.erase j).setPost (known_start _)
    · exact h
  | read j =>
    simp only [SessionLimit.step]
    split
    · next p unread ids hpost =>
      have hknown := h j
      rw [hpost] at hknown
      exact h.setPost hknown.read
    · exact h
  | decide j =>
    simp only [SessionLimit.step]
    split
    · next ids hpost =>
      have hknown := h j
      rw [hpost] at hknown
      exact h.setPost hknown.decide
    · exact h
  | enqueue j =>
    cases hpost : s.post j with
    | admitted => exact h.enqueue hpost hquiet
    | _ => simpa only [SessionLimit.step, hpost] using h
  | drop j => exact h.setPost trivial
  | move j next => exact h.move hquiet
  | finish j => exact h.erase j

omit [DecidableEq J] in
theorem Counted.findsRoom (h : s.Counted limit) (e : Event J) : FindsRoom limit e s := by
  intro j _ hpost _
  have hknown := h j
  rw [hpost] at hknown
  exact hknown

theorem inflight_step_of_not_enqueue {e : Event J} (h : ∀ j, e ≠ .enqueue j) :
    (step limit e s).inflight ⊆ s.inflight := by
  cases e with
  | enqueue j => exact absurd rfl (h j)
  | accept j =>
    simp only [step]
    split
    · exact Finset.erase_subset _ _
    · exact Finset.Subset.refl _
  | read j => simp only [step]; split <;> exact Finset.Subset.refl _
  | decide j => simp only [step]; split <;> exact Finset.Subset.refl _
  | drop j => exact Finset.Subset.refl _
  | move j next => simp only [step]; split_ifs <;> exact Finset.Subset.refl _
  | finish j => exact Finset.erase_subset _ _

theorem withinLimit_step_iff {e : Event J} (h : s.WithinLimit limit) :
    (step limit e s).WithinLimit limit ↔ FindsRoom limit e s := by
  unfold WithinLimit at h ⊢
  by_cases henqueue : ∃ j, e = .enqueue j
  · obtain ⟨j, rfl⟩ := henqueue
    cases hpost : s.post j with
    | admitted =>
      simp only [step, hpost]
      change (insert j s.inflight).card ≤ limit ↔ _
      by_cases hmem : j ∈ s.inflight
      · rw [Finset.insert_eq_of_mem hmem]
        refine ⟨fun _ i hi _ hnot => ?_, fun _ => h⟩
        cases hi
        exact absurd hmem hnot
      · rw [Finset.card_insert_of_notMem hmem]
        refine ⟨fun hcard i _ _ _ => hcard, fun hroom => hroom j rfl hpost hmem⟩
    | _ =>
      simp only [step, hpost]
      refine ⟨fun _ i hi hadmitted => ?_, fun _ => h⟩
      cases hi
      rw [hpost] at hadmitted
      cases hadmitted
  · have hsub : (step limit e s).inflight ⊆ s.inflight :=
      inflight_step_of_not_enqueue fun j hj => henqueue ⟨j, hj⟩
    refine ⟨fun _ j hj => absurd ⟨j, hj⟩ henqueue, fun _ => ?_⟩
    exact Nat.le_trans (Finset.card_le_card hsub) h

end Session

/-- The bound survives exactly the runs whose every enqueue finds room, and it does so in
every run in which no count is disturbed. -/
theorem session_limit_iff (limit : ℕ) (es : List (Event J)) :
    (Along (step limit) (fun e s => (step limit e s).WithinLimit limit) es Session.empty ↔
        Along (step limit) (Session.FindsRoom limit) es Session.empty) ∧
      (Along (step limit) Session.Undisturbed es Session.empty →
        Along (step limit) (fun e s => (step limit e s).WithinLimit limit) es Session.empty) := by
  have hiff : Along (step limit) (fun e s => (step limit e s).WithinLimit limit) es
      (Session.empty : Session J) ↔ Along (step limit) (Session.FindsRoom limit) es Session.empty :=
    along_iff_along (I := Session.WithinLimit limit)
      (fun e s h => Session.withinLimit_step_iff (J := J) (e := e) h) (fun _ _ _ h => h) es
      Session.empty (Nat.zero_le limit)
  refine ⟨hiff, fun hquiet => hiff.mpr ?_⟩
  have hstart : (Session.empty : Session J).Counted limit := fun _ => trivial
  exact hquiet.imp (fun e s h _ => h.findsRoom e) (fun e s h hq => h.step hq) hstart

/-- Two POSTs of different jobs count before either of them enqueues. -/
theorem sessionLimit_exceeded :
    ¬ (after (step 1) [.accept 0, .read 0, .read 0, .read 0, .read 0, .decide 0,
        .accept 1, .read 1, .read 1, .read 1, .read 1, .decide 1, .enqueue 0, .enqueue 1]
      (Session.empty : Session ℕ)).WithinLimit 1 := by
  simp only [Session.WithinLimit]
  decide

end FinanceContext.SessionLimit
