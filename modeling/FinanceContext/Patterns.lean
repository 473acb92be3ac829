import Mathlib.Data.List.Basic

/-!
Backtracking patterns: the matches at a place in the order they are tried, and the words a
pattern reads when what stands around it is left out of account.
-/

namespace Patterns

/-- `many` is a greedy run of a class and `opt` is greedy. `γ` names the groups. -/
inductive Pattern (α γ : Type) where
  | one (p : α → Bool)
  | sequence (parts : List (Pattern α γ))
  | choice (parts : List (Pattern α γ))
  | many (p : α → Bool)
  | opt (r : Pattern α γ)
  | group (name : γ) (r : Pattern α γ)
  | notAfter (p : α → Bool)
  | notBefore (p : α → Bool)

/-- A place in a text, the part before it backwards, and the groups so far, the last in front. -/
structure Place (α γ : Type) where
  before : List α
  after : List α
  groups : List (γ × List α)

variable {α γ : Type}

def Place.start (text : List α) : Place α γ := ⟨[], text, []⟩

def manyFrom (p : α → Bool) (groups : List (γ × List α)) : List α → List α → List (Place α γ)
  | before, [] => [⟨before, [], groups⟩]
  | before, ch :: after =>
    if p ch then manyFrom p groups (ch :: before) after ++ [⟨before, ch :: after, groups⟩]
    else [⟨before, ch :: after, groups⟩]

mutual

def run : Pattern α γ → Place α γ → List (Place α γ)
  | .one p, place =>
    match place.after with
    | [] => []
    | ch :: after => if p ch then [⟨ch :: place.before, after, place.groups⟩] else []
  | .sequence parts, place => runSequence parts place
  | .choice parts, place => runChoice parts place
  | .many p, place => manyFrom p place.groups place.before place.after
  | .opt r, place => run r place ++ [place]
  | .group name r, place =>
    (run r place).map fun next =>
      ⟨next.before, next.after,
        (name, place.after.take (place.after.length - next.after.length)) :: next.groups⟩
  | .notAfter p, place => if place.before.head?.any p then [] else [place]
  | .notBefore p, place => if place.after.head?.any p then [] else [place]

def runSequence : List (Pattern α γ) → Place α γ → List (Place α γ)
  | [], place => [place]
  | r :: parts, place => (run r place).flatMap (runSequence parts)

def runChoice : List (Pattern α γ) → Place α γ → List (Place α γ)
  | [], _ => []
  | r :: parts, place => run r place ++ runChoice parts place

end

def fullMatch (r : Pattern α γ) (text : List α) : Option (List (γ × List α)) :=
  ((run r (Place.start text)).find? (·.after.isEmpty)).map Place.groups

def foundFrom (r : Pattern α γ) : List α → List α → Bool
  | before, [] => !(run r ⟨before, [], []⟩).isEmpty
  | before, ch :: after =>
    !(run r ⟨before, ch :: after, []⟩).isEmpty || foundFrom r (ch :: before) after

def found (r : Pattern α γ) (text : List α) : Bool := foundFrom r [] text

mutual

/-- The words of a pattern whatever stands around them. -/
def Reads : Pattern α γ → List α → Prop
  | .one p, word => ∃ ch, p ch = true ∧ word = [ch]
  | .sequence parts, word => ReadsSequence parts word
  | .choice parts, word => ReadsChoice parts word
  | .many p, word => ∀ ch ∈ word, p ch = true
  | .opt r, word => word = [] ∨ Reads r word
  | .group _ r, word => Reads r word
  | .notAfter _, word => word = []
  | .notBefore _, word => word = []

def ReadsSequence : List (Pattern α γ) → List α → Prop
  | [], word => word = []
  | r :: parts, word => ∃ u v, word = u ++ v ∧ Reads r u ∧ ReadsSequence parts v

def ReadsChoice : List (Pattern α γ) → List α → Prop
  | [], _ => False
  | r :: parts, word => Reads r word ∨ ReadsChoice parts word

end

mutual

/-- In every word of the pattern stands a character with `q`. -/
def Needs (q : α → Prop) : Pattern α γ → Prop
  | .one p => ∀ ch, p ch = true → q ch
  | .sequence parts => NeedsSequence q parts
  | .choice parts => NeedsChoice q parts
  | .many _ => False
  | .opt _ => False
  | .group _ r => Needs q r
  | .notAfter _ => False
  | .notBefore _ => False

def NeedsSequence (q : α → Prop) : List (Pattern α γ) → Prop
  | [] => False
  | r :: parts => Needs q r ∨ NeedsSequence q parts

def NeedsChoice (q : α → Prop) : List (Pattern α γ) → Prop
  | [] => True
  | r :: parts => Needs q r ∧ NeedsChoice q parts

end

/-- What a match reads lies between its two places. -/
def Place.Between (place next : Place α γ) (word : List α) : Prop :=
  next.before = word.reverse ++ place.before ∧ place.after = word ++ next.after

theorem Place.Between.append {first second third : Place α γ} {u v : List α}
    (hu : first.Between second u) (hv : second.Between third v) : first.Between third (u ++ v) := by
  constructor
  · rw [hv.1, hu.1, List.reverse_append, List.append_assoc]
  · rw [hu.2, hv.2, List.append_assoc]

theorem Place.between_nil (place : Place α γ) : place.Between place [] := ⟨rfl, rfl⟩

theorem manyFrom_between {p : α → Bool} {groups : List (γ × List α)} {before after : List α}
    {next : Place α γ} (h : next ∈ manyFrom p groups before after) :
    ∃ word, Place.Between ⟨before, after, groups⟩ next word ∧ ∀ ch ∈ word, p ch = true := by
  induction after generalizing before with
  | nil =>
    rw [manyFrom, List.mem_singleton] at h
    subst h
    exact ⟨[], Place.between_nil _, by simp⟩
  | cons ch after ih =>
    rw [manyFrom] at h
    have hhere : next = ⟨before, ch :: after, groups⟩ → ∃ word,
        Place.Between ⟨before, ch :: after, groups⟩ next word ∧ ∀ ch ∈ word, p ch = true := by
      rintro rfl
      exact ⟨[], Place.between_nil _, by simp⟩
    split at h
    · rename_i hch
      rcases List.mem_append.mp h with hmore | hstop
      · obtain ⟨word, ⟨hbefore, hafter⟩, hword⟩ := ih hmore
        refine ⟨ch :: word, ⟨?_, ?_⟩, List.forall_mem_cons.mpr ⟨hch, hword⟩⟩
        · rw [hbefore, List.reverse_cons, List.append_assoc]
          rfl
        · rw [List.cons_append, ← hafter]
      · exact hhere (List.mem_singleton.mp hstop)
    · exact hhere (List.mem_singleton.mp h)

mutual

theorem run_reads : ∀ (r : Pattern α γ) (place next : Place α γ), next ∈ run r place →
    ∃ word, place.Between next word ∧ Reads r word
  | .one p, place, next, h => by
    rw [run] at h
    split at h
    · cases h
    · rename_i ch after hafter
      split at h
      · rename_i hch
        obtain rfl := List.mem_singleton.mp h
        exact ⟨[ch], ⟨rfl, hafter⟩, ch, hch, rfl⟩
      · cases h
  | .sequence parts, place, next, h => by
    rw [run] at h
    exact runSequence_reads parts place next h
  | .choice parts, place, next, h => by
    rw [run] at h
    exact runChoice_reads parts place next h
  | .many p, place, next, h => by
    rw [run] at h
    exact manyFrom_between h
  | .opt r, place, next, h => by
    rw [run] at h
    rcases List.mem_append.mp h with htaken | hskipped
    · obtain ⟨word, hbetween, hword⟩ := run_reads r place next htaken
      exact ⟨word, hbetween, Or.inr hword⟩
    · obtain rfl := List.mem_singleton.mp hskipped
      exact ⟨[], Place.between_nil _, Or.inl rfl⟩
  | .group name r, place, next, h => by
    rw [run] at h
    obtain ⟨inner, hinner, rfl⟩ := List.mem_map.mp h
    obtain ⟨word, hbetween, hword⟩ := run_reads r place inner hinner
    exact ⟨word, hbetween, hword⟩
  | .notAfter p, place, next, h => by
    rw [run] at h
    split at h
    · cases h
    · obtain rfl := List.mem_singleton.mp h
      exact ⟨[], Place.between_nil _, rfl⟩
  | .notBefore p, place, next, h => by
    rw [run] at h
    split at h
    · cases h
    · obtain rfl := List.mem_singleton.mp h
      exact ⟨[], Place.between_nil _, rfl⟩

theorem runSequence_reads : ∀ (parts : List (Pattern α γ)) (place next : Place α γ),
    next ∈ runSequence parts place → ∃ word, place.Between next word ∧ ReadsSequence parts word
  | [], place, next, h => by
    rw [runSequence] at h
    obtain rfl := List.mem_singleton.mp h
    exact ⟨[], Place.between_nil _, rfl⟩
  | r :: parts, place, next, h => by
    rw [runSequence] at h
    obtain ⟨mid, hmid, hnext⟩ := List.mem_flatMap.mp h
    obtain ⟨u, hu, hreads⟩ := run_reads r place mid hmid
    obtain ⟨v, hv, hrest⟩ := runSequence_reads parts mid next hnext
    exact ⟨u ++ v, hu.append hv, u, v, rfl, hreads, hrest⟩

theorem runChoice_reads : ∀ (parts : List (Pattern α γ)) (place next : Place α γ),
    next ∈ runChoice parts place → ∃ word, place.Between next word ∧ ReadsChoice parts word
  | [], _, _, h => by
    rw [runChoice] at h
    cases h
  | r :: parts, place, next, h => by
    rw [runChoice] at h
    rcases List.mem_append.mp h with hfirst | hrest
    · obtain ⟨word, hbetween, hword⟩ := run_reads r place next hfirst
      exact ⟨word, hbetween, Or.inl hword⟩
    · obtain ⟨word, hbetween, hword⟩ := runChoice_reads parts place next hrest
      exact ⟨word, hbetween, Or.inr hword⟩

end

theorem reads_of_fullMatch {r : Pattern α γ} {text : List α} {groups : List (γ × List α)}
    (h : fullMatch r text = some groups) : Reads r text := by
  obtain ⟨next, hnext, -⟩ := Option.map_eq_some_iff.mp h
  have hmem := List.mem_of_find?_eq_some hnext
  have hend : next.after = [] := by simpa using List.find?_some hnext
  obtain ⟨word, hbetween, hword⟩ := run_reads r _ next hmem
  have htext : text = word := by
    have hafter := hbetween.2
    rwa [hend, List.append_nil] at hafter
  rwa [htext]

theorem foundFrom_reads {r : Pattern α γ} {before after : List α}
    (h : foundFrom r before after = true) : ∃ a word b, after = a ++ word ++ b ∧ Reads r word := by
  have hhere : ∀ {before after : List α}, (run r ⟨before, after, []⟩).isEmpty = false →
      ∃ a word b, after = a ++ word ++ b ∧ Reads r word := by
    intro before after hne
    obtain ⟨next, hnext⟩ := List.exists_mem_of_ne_nil _ (List.isEmpty_eq_false_iff.mp hne)
    obtain ⟨word, hbetween, hword⟩ := run_reads r _ next hnext
    exact ⟨[], word, next.after, hbetween.2, hword⟩
  induction after generalizing before with
  | nil =>
    apply hhere
    simpa [foundFrom] using h
  | cons ch after ih =>
    rw [foundFrom, Bool.or_eq_true_iff] at h
    rcases h with h | h
    · apply hhere
      simpa using h
    · obtain ⟨a, word, b, rfl, hword⟩ := ih h
      exact ⟨ch :: a, word, b, by simp, hword⟩

mutual

theorem needs_reads {q : α → Prop} : ∀ (r : Pattern α γ) (word : List α), Needs q r →
    Reads r word → ∃ ch ∈ word, q ch
  | .one p, word, hneeds, hreads => by
    obtain ⟨ch, hch, rfl⟩ := hreads
    exact ⟨ch, List.mem_singleton_self ch, hneeds ch hch⟩
  | .sequence parts, word, hneeds, hreads => needsSequence_reads parts word hneeds hreads
  | .choice parts, word, hneeds, hreads => needsChoice_reads parts word hneeds hreads
  | .group _ r, word, hneeds, hreads => needs_reads r word hneeds hreads
  | .many _, _, hneeds, _ => absurd hneeds not_false
  | .opt _, _, hneeds, _ => absurd hneeds not_false
  | .notAfter _, _, hneeds, _ => absurd hneeds not_false
  | .notBefore _, _, hneeds, _ => absurd hneeds not_false

theorem needsSequence_reads {q : α → Prop} : ∀ (parts : List (Pattern α γ)) (word : List α),
    NeedsSequence q parts → ReadsSequence parts word → ∃ ch ∈ word, q ch
  | [], _, hneeds, _ => absurd hneeds not_false
  | r :: parts, word, hneeds, hreads => by
    obtain ⟨u, v, rfl, hu, hv⟩ := hreads
    rcases hneeds with hneeds | hneeds
    · obtain ⟨ch, hch, hq⟩ := needs_reads r u hneeds hu
      exact ⟨ch, List.mem_append_left v hch, hq⟩
    · obtain ⟨ch, hch, hq⟩ := needsSequence_reads parts v hneeds hv
      exact ⟨ch, List.mem_append_right u hch, hq⟩

theorem needsChoice_reads {q : α → Prop} : ∀ (parts : List (Pattern α γ)) (word : List α),
    NeedsChoice q parts → ReadsChoice parts word → ∃ ch ∈ word, q ch
  | [], _, _, hreads => absurd hreads not_false
  | r :: parts, word, hneeds, hreads => by
    rcases hreads with hreads | hreads
    · exact needs_reads r word hneeds.1 hreads
    · exact needsChoice_reads parts word hneeds.2 hreads

end

theorem fullMatch_eq_none {q : α → Prop} {r : Pattern α γ} (hneeds : Needs q r) {text : List α}
    (h : ∀ ch ∈ text, ¬q ch) : fullMatch r text = none := by
  cases hmatch : fullMatch r text with
  | none => rfl
  | some groups =>
    obtain ⟨ch, hch, hq⟩ := needs_reads r text hneeds (reads_of_fullMatch hmatch)
    exact absurd hq (h ch hch)

theorem found_eq_false {q : α → Prop} {r : Pattern α γ} (hneeds : Needs q r) {text : List α}
    (h : ∀ ch ∈ text, ¬q ch) : found r text = false := by
  apply Bool.eq_false_iff.mpr
  intro hfound
  obtain ⟨a, word, b, rfl, hword⟩ := foundFrom_reads hfound
  obtain ⟨ch, hch, hq⟩ := needs_reads r word hneeds hword
  exact h ch (by simp [hch]) hq

end Patterns
