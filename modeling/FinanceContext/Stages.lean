import Mathlib.Data.List.Basic
import Mathlib.Data.Option.Basic

namespace FinanceContext

inductive Stage where
  | compile | layout | graph | publish
  deriving DecidableEq, Repr

namespace Stage

def order : Stage → ℕ
  | compile => 0
  | layout => 1
  | graph => 2
  | publish => 3

def stageOrder : List Stage := [compile, layout, graph, publish]

/-- `reached(stage)` while clearing from `stale` down. -/
def reached (stale stage : Stage) : Bool := stale.order ≤ stage.order

theorem mem_stageOrder (s : Stage) : s ∈ stageOrder := by cases s <;> decide

theorem stageOrder_sorted : stageOrder.Pairwise fun s t => s.order < t.order := by decide

theorem reached_iff (s t : Stage) : reached s t = true ↔ s.order ≤ t.order := by
  simp [reached]

@[simp] theorem reached_publish (s : Stage) : reached s publish = true := by cases s <;> rfl

end Stage

abbrev StageMap (α : Type) := Stage → α

instance {α : Type} [DecidableEq α] : DecidableEq (StageMap α) := fun m n =>
  if h : ∀ s ∈ Stage.stageOrder, m s = n s then
    .isTrue (funext fun s => h s s.mem_stageOrder)
  else .isFalse fun he => h fun s _ => congrFun he s

/-- One version of the package: the hash of each stage's sources, the id of the
intermediate schema it writes, and the id of its Markdown renderer. -/
structure Code (H : Type) where
  hash : StageMap H
  irSchema : H
  renderer : H
  deriving DecidableEq

/-- The `publisher` and `stages` keys of a document. The combined fingerprint
digests the four hashes, so it is represented by them; `none` stands for a
missing key and for `partial`. A recorded stage is `none` when its text is no
hash (`unverified`). -/
@[ext] structure Stamp (H : Type) where
  publisher : Option (StageMap H)
  stages : Option (StageMap (Option H))
  agree : ∀ p, publisher = some p → stages = some fun s => some (p s)
  deriving DecidableEq

namespace Stamp

variable {H : Type}

def absent : Stamp H := ⟨none, none, by simp⟩

def complete (hash : StageMap H) : Stamp H :=
  ⟨some hash, some fun s => some (hash s), by simp⟩

def partialOf (stages : StageMap (Option H)) : Stamp H := ⟨none, some stages, by simp⟩

def recorded (st : Stamp H) (s : Stage) : Option H := st.stages.bind fun m => m s

@[simp] theorem recorded_absent (s : Stage) : (absent : Stamp H).recorded s = none := rfl

@[simp] theorem recorded_complete (hash : StageMap H) (s : Stage) :
    (complete hash).recorded s = some (hash s) := rfl

@[simp] theorem recorded_partialOf (m : StageMap (Option H)) (s : Stage) :
    (partialOf m).recorded s = m s := rfl

theorem recorded_of_publisher {st : Stamp H} {p : StageMap H} (h : st.publisher = some p)
    (s : Stage) : st.recorded s = some (p s) := by
  simp [recorded, st.agree p h]

end Stamp

namespace Code

variable {H : Type} [DecidableEq H]

def publisherMatches (code : Code H) (doc : Option (Stamp H)) : Bool :=
  doc.any fun st => st.publisher = some code.hash

def firstChanged (code : Code H) (stored : StageMap (Option H)) : Option Stage :=
  Stage.stageOrder.find? fun s => stored s ≠ some (code.hash s)

def staleFromMeta (code : Code H) (doc : Option (Stamp H)) : Option Stage :=
  if code.publisherMatches doc then none
  else match doc.bind Stamp.stages with
    | none => some .layout
    | some stored => some ((code.firstChanged stored).getD .layout)

theorem publisherMatches_iff (code : Code H) (doc : Option (Stamp H)) :
    code.publisherMatches doc = true ↔ ∃ st, doc = some st ∧ st.publisher = some code.hash := by
  cases doc <;> simp [publisherMatches]

theorem staleFromMeta_eq_none (code : Code H) (doc : Option (Stamp H)) :
    code.staleFromMeta doc = none ↔ code.publisherMatches doc = true := by
  unfold staleFromMeta
  split
  · simp [*]
  · split <;> simp [*]

theorem find?_eq_false_above (p : Stage → Bool) (s t : Stage)
    (hs : (Stage.stageOrder.find? p).getD .layout = s) (ht : t.order < s.order) :
    p t = false := by
  cases h : Stage.stageOrder.find? p with
  | none => simpa using List.find?_eq_none.mp h t t.mem_stageOrder
  | some u =>
    rw [h, Option.getD_some] at hs
    subst hs
    obtain ⟨-, before, rest, hsplit, hbefore⟩ := List.find?_eq_some_iff_append.mp h
    have hsorted := Stage.stageOrder_sorted
    have hmem := t.mem_stageOrder
    rw [hsplit, List.pairwise_append] at hsorted
    rw [hsplit, List.mem_append, List.mem_cons] at hmem
    rcases hmem with hmem | rfl | hmem
    · simpa using hbefore t hmem
    · omega
    · have := (List.pairwise_cons.mp hsorted.2.1).1 t hmem
      omega

theorem staleFromMeta_above (code : Code H) (st : Stamp H) (s t : Stage)
    (h : code.staleFromMeta (some st) = some s) (ht : t.order < s.order)
    (hm : st.stages ≠ none) : st.recorded t = some (code.hash t) := by
  obtain ⟨stored, hst⟩ := Option.ne_none_iff_exists'.mp hm
  unfold staleFromMeta at h
  simp only [Option.bind_some, hst] at h
  split at h
  · cases h
  · have := find?_eq_false_above _ s t (Option.some.inj h) ht
    simpa [Stamp.recorded, hst] using this

theorem stages_of_staleFromMeta (code : Code H) (doc : Option (Stamp H)) (s : Stage)
    (h : code.staleFromMeta doc = some s) (hs : s ≠ .layout) :
    ∃ st, doc = some st ∧ st.stages ≠ none := by
  unfold staleFromMeta at h
  split at h
  · cases h
  · split at h
    · exact absurd (Option.some.inj h).symm hs
    · next stored hst =>
      obtain ⟨st, rfl, hmap⟩ := Option.bind_eq_some_iff.mp hst
      exact ⟨st, rfl, by simp [hmap]⟩

end Code

end FinanceContext
