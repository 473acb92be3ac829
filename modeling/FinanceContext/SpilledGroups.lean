import FinanceContext.Dictionaries
import Mathlib.Data.List.Nodup

/-!
A store that takes values in batches, puts the values of each key of a batch in a file of its own,
and gives the values of a key back once.
-/

namespace FinanceContext.SpilledGroups

open Dictionaries

variable {K V : Type} [DecidableEq K]

def addName (names : List K) (k : K) : List K := if k ∈ names then names else names ++ [k]

def distinct (ks : List K) : List K := ks.foldl addName []

theorem mem_foldl_addName {k : K} (names ks : List K) :
    k ∈ ks.foldl addName names ↔ k ∈ names ∨ k ∈ ks := by
  induction ks generalizing names with
  | nil => simp
  | cons first ks ih =>
    rw [List.foldl_cons, ih, addName]
    split_ifs with hfirst
    · constructor
      · rintro (h | h)
        · exact .inl h
        · exact .inr (List.mem_cons_of_mem _ h)
      · rintro (h | h)
        · exact .inl h
        · rcases List.mem_cons.mp h with rfl | h
          · exact .inl hfirst
          · exact .inr h
    · simp [or_assoc]

theorem mem_distinct {k : K} (ks : List K) : k ∈ distinct ks ↔ k ∈ ks := by
  simp [distinct, mem_foldl_addName]

theorem nodup_addName {names : List K} (h : names.Nodup) (k : K) : (addName names k).Nodup := by
  rw [addName]
  split_ifs with hk
  · exact h
  · exact List.nodup_append.mpr ⟨h, List.nodup_singleton k, fun a ha b hb hab =>
      hk (List.mem_singleton.mp hb ▸ hab ▸ ha)⟩

theorem nodup_distinct (ks : List K) : (distinct ks).Nodup := by
  induction ks using List.reverseRecOn with
  | nil => exact List.nodup_nil
  | append_singleton ks k ih =>
    rw [distinct, List.foldl_append]
    exact nodup_addName ih k

theorem foldl_distinct (names ks : List K) :
    (distinct ks).foldl addName names = ks.foldl addName names := by
  induction ks using List.reverseRecOn with
  | nil => rfl
  | append_singleton ks k ih =>
    have hstep : distinct (ks ++ [k]) = addName (distinct ks) k := by
      simp [distinct, List.foldl_append]
    rw [hstep, List.foldl_append, ← ih, addName]
    split_ifs with hk
    · have hin : k ∈ (distinct ks).foldl addName names :=
        (mem_foldl_addName _ _).mpr (.inr hk)
      rw [List.foldl_cons, List.foldl_nil, addName, if_pos hin]
    · rw [List.foldl_append]

theorem keys_grouped (ps : List (K × V)) : (grouped ps).map Prod.fst = distinct (ps.map Prod.fst) := by
  induction ps using List.reverseRecOn with
  | nil => rfl
  | append_singleton ps p ih =>
    rw [grouped_concat, push, keys_set, ih, List.map_append, distinct, distinct, List.foldl_append]
    rfl

theorem map_grouped {W : Type} (f : K → List V → W) (ps : List (K × V)) :
    (grouped ps).map (fun group => f group.1 group.2) =
      (distinct (ps.map Prod.fst)).map fun k => f k ((ps.filter (·.1 = k)).map Prod.snd) := by
  rw [← keys_grouped, List.map_map]
  apply List.map_congr_left
  intro group hgroup
  rw [(mem_grouped.mp hgroup).2]
  rfl

/-- The names of the keys, the files of each key, and the files with their values. -/
structure Spill (K V : Type) where
  names : List K
  parts : List (K × List ℕ)
  directory : List (ℕ × List V)
  seq : ℕ

namespace Spill

def empty : Spill K V := ⟨[], [], [], 0⟩

variable (spill : Spill K V)

def writePart (k : K) (part : List V) : Spill K V where
  names := addName spill.names k
  parts := push k spill.seq spill.parts
  directory := spill.directory ++ [(spill.seq, part)]
  seq := spill.seq + 1

def files (k : K) : List ℕ := (get k spill.parts).getD []

def read (k : K) : List V := (spill.files k).flatMap fun file => (get file spill.directory).getD []

/-- The values of the key, whose files are deleted. -/
def pop (k : K) : List V × Spill K V :=
  (spill.read k, { spill with
    parts := spill.parts.filter fun group => !decide (group.1 = k)
    directory := spill.directory.filter fun file => !decide (file.1 ∈ spill.files k) })

/-- Every file is of one key, and a new file gets a number of its own. -/
structure Sound (spill : Spill K V) : Prop where
  below : ∀ file ∈ spill.directory.map Prod.fst, file < spill.seq
  nodup : (spill.directory.map Prod.fst).Nodup
  keys : (spill.parts.map Prod.fst).Nodup
  exact : ∀ file, file ∈ spill.directory.map Prod.fst ↔ ∃ k, file ∈ spill.files k
  apart : ∀ k k' file, file ∈ spill.files k → file ∈ spill.files k' → k = k'
  named : ∀ k, spill.files k ≠ [] → k ∈ spill.names

theorem sound_empty : Sound (empty : Spill K V) where
  below := by simp [empty]
  nodup := List.nodup_nil
  keys := List.nodup_nil
  exact := by simp [empty, files]
  apart := by simp [empty, files]
  named := by simp [empty, files]

variable {spill}

theorem files_writePart (k k' : K) (part : List V) :
    (spill.writePart k part).files k' =
      if k = k' then spill.files k' ++ [spill.seq] else spill.files k' := by
  rw [files, writePart, push, get_set]
  split_ifs with hk
  · rw [hk, Option.getD_some, files]
  · rw [files]

theorem Sound.notMem_seq (h : spill.Sound) (k : K) : spill.seq ∉ spill.files k := by
  intro hseq
  have hbelow := h.below _ ((h.exact _).mpr ⟨k, hseq⟩)
  omega

theorem Sound.writePart (h : spill.Sound) (k : K) (part : List V) :
    (spill.writePart k part).Sound := by
  have hfiles (k' : K) (file : ℕ) : file ∈ (spill.writePart k part).files k' ↔
      file ∈ spill.files k' ∨ k = k' ∧ file = spill.seq := by
    rw [files_writePart]
    split_ifs with hk <;> simp [hk]
  have hdirectory (file : ℕ) : file ∈ (spill.writePart k part).directory.map Prod.fst ↔
      file ∈ spill.directory.map Prod.fst ∨ file = spill.seq := by
    simp [Spill.writePart]
  refine ⟨?_, ?_, nodup_keys_set h.keys, ?_, ?_, ?_⟩
  · intro file hfile
    have hseq : (spill.writePart k part).seq = spill.seq + 1 := rfl
    rcases (hdirectory file).mp hfile with hold | rfl
    · have hbelow := h.below file hold
      omega
    · omega
  · rw [Spill.writePart, List.map_append]
    refine List.nodup_append.mpr ⟨h.nodup, List.nodup_singleton _, ?_⟩
    intro file hfile seq hseq heq
    have hbelow := h.below file hfile
    have hvalue : seq = spill.seq := by simpa using hseq
    omega
  · intro file
    rw [hdirectory, h.exact]
    constructor
    · rintro (⟨k', hold⟩ | rfl)
      · exact ⟨k', (hfiles k' file).mpr (.inl hold)⟩
      · exact ⟨k, (hfiles k _).mpr (.inr ⟨rfl, rfl⟩)⟩
    · rintro ⟨k', hk'⟩
      rcases (hfiles k' file).mp hk' with hold | ⟨-, rfl⟩
      · exact .inl ⟨k', hold⟩
      · exact .inr rfl
  · intro k₁ k₂ file h₁ h₂
    rcases (hfiles k₁ file).mp h₁ with hold₁ | ⟨hk₁, hseq₁⟩
    · rcases (hfiles k₂ file).mp h₂ with hold₂ | ⟨-, hseq₂⟩
      · exact h.apart _ _ _ hold₁ hold₂
      · exact absurd (hseq₂ ▸ hold₁) (h.notMem_seq k₁)
    · rcases (hfiles k₂ file).mp h₂ with hold₂ | ⟨hk₂, -⟩
      · exact absurd (hseq₁ ▸ hold₂) (h.notMem_seq k₂)
      · rw [← hk₁, ← hk₂]
  · intro k' hne
    have hnames (k' : K) : k' ∈ (spill.writePart k part).names ↔ k' ∈ spill.names ∨ k' ∈ [k] :=
      mem_foldl_addName spill.names [k]
    rw [files_writePart] at hne
    rw [hnames]
    split_ifs at hne with hk
    · exact .inr (List.mem_singleton.mpr hk.symm)
    · exact .inl (h.named k' hne)

theorem Sound.read_writePart (h : spill.Sound) (k k' : K) (part : List V) :
    (spill.writePart k part).read k' =
      if k = k' then spill.read k' ++ part else spill.read k' := by
  have hold : ((spill.files k').flatMap fun file =>
      (get file (spill.writePart k part).directory).getD []) = spill.read k' := by
    rw [read]
    apply List.flatMap_congr
    intro file hfile
    have hne : spill.seq ≠ file := fun hseq => h.notMem_seq k' (hseq ▸ hfile)
    rw [Spill.writePart, get_append, get_cons, if_neg hne, get_nil, Option.or_none]
  have hnew : get spill.seq (spill.writePart k part).directory = some part := by
    have hnone : get spill.seq spill.directory = none := by
      by_contra hsome
      have hbelow := h.below _ ((mem_keys_iff _ _).mpr hsome)
      omega
    rw [Spill.writePart, get_append, hnone, get_cons, if_pos rfl, Option.none_or]
  rw [read, files_writePart]
  split_ifs with hk
  · rw [List.flatMap_append, hold, List.flatMap_singleton, hnew, Option.getD_some]
  · exact hold

section Batches

variable (key : V → K)

def writeBatch (spill : Spill K V) (batch : List V) : Spill K V :=
  (distinct (batch.map key)).foldl
    (fun spill k => spill.writePart k (batch.filter fun v => key v = k)) spill

def writeBatches (batches : List (List V)) : Spill K V := batches.foldl (writeBatch key) empty

variable {key}

theorem Sound.writeParts (h : spill.Sound) (part : K → List V) {ks : List K} (hks : ks.Nodup) :
    (ks.foldl (fun spill k => spill.writePart k (part k)) spill).Sound ∧
      (∀ k, (ks.foldl (fun spill k => spill.writePart k (part k)) spill).read k =
        if k ∈ ks then spill.read k ++ part k else spill.read k) ∧
      (ks.foldl (fun spill k => spill.writePart k (part k)) spill).names =
        ks.foldl addName spill.names := by
  induction ks generalizing spill with
  | nil => exact ⟨h, fun k => by simp, rfl⟩
  | cons first ks ih =>
    obtain ⟨hfirst, hks⟩ := List.nodup_cons.mp hks
    obtain ⟨hsound, hread, hnames⟩ := ih (h.writePart first (part first)) hks
    refine ⟨hsound, fun k => ?_, hnames⟩
    rw [List.foldl_cons, hread, h.read_writePart]
    by_cases hk : first = k
    · subst hk
      simp [hfirst]
    · simp [hk, Ne.symm hk]

theorem Sound.writeBatch (h : spill.Sound) (batch : List V) : (spill.writeBatch key batch).Sound :=
  (h.writeParts _ (nodup_distinct _)).1

theorem Sound.read_writeBatch (h : spill.Sound) (batch : List V) (k : K) :
    (spill.writeBatch key batch).read k = spill.read k ++ batch.filter fun v => key v = k := by
  rw [Spill.writeBatch, (h.writeParts _ (nodup_distinct _)).2.1]
  split_ifs with hk
  · rfl
  · have hnone : (batch.filter fun v => key v = k) = [] := by
      refine List.filter_eq_nil_iff.mpr fun v hv hkey => hk ((mem_distinct _).mpr ?_)
      exact List.mem_map.mpr ⟨v, hv, of_decide_eq_true hkey⟩
    rw [hnone, List.append_nil]

theorem Sound.names_writeBatch (h : spill.Sound) (batch : List V) :
    (spill.writeBatch key batch).names = (batch.map key).foldl addName spill.names := by
  rw [Spill.writeBatch, (h.writeParts _ (nodup_distinct _)).2.2, foldl_distinct]

theorem written (batches : List (List V)) :
    (writeBatches key batches).Sound ∧
      (∀ k, (writeBatches key batches).read k = batches.flatten.filter fun v => key v = k) ∧
      (writeBatches key batches).names = distinct (batches.flatten.map key) := by
  induction batches using List.reverseRecOn with
  | nil => exact ⟨sound_empty, fun k => rfl, rfl⟩
  | append_singleton batches batch ih =>
    obtain ⟨hsound, hread, hnames⟩ := ih
    have hstep : writeBatches key (batches ++ [batch]) =
        (writeBatches key batches).writeBatch key batch := by
      simp [writeBatches, List.foldl_append]
    rw [hstep]
    refine ⟨hsound.writeBatch batch, fun k => ?_, ?_⟩
    · rw [hsound.read_writeBatch, hread, List.flatten_append, List.filter_append]
      simp
    · rw [hsound.names_writeBatch, hnames, distinct, distinct, List.flatten_append,
        List.map_append, List.foldl_append]
      simp

end Batches

section Pops

theorem files_pop (k k' : K) :
    (spill.pop k).2.files k' = if k' = k then [] else spill.files k' := by
  have hget : get k' (spill.pop k).2.parts =
      if (!decide (k' = k)) = true then get k' spill.parts else none :=
    get_filter (fun name => !decide (name = k)) k' spill.parts
  rw [files, hget]
  split_ifs with hne hk hk
  · simp [hk] at hne
  · rfl
  · rfl
  · simp [hk] at hne

theorem Sound.notMem_files (h : spill.Sound) {k k' : K} (hk : k' ≠ k) {file : ℕ}
    (hfile : file ∈ spill.files k') : file ∉ spill.files k :=
  fun hother => hk (h.apart _ _ _ hfile hother)

theorem mem_directory_pop {k : K} {file : ℕ} :
    file ∈ (spill.pop k).2.directory.map Prod.fst ↔
      file ∈ spill.directory.map Prod.fst ∧ file ∉ spill.files k := by
  have hget : get file (spill.pop k).2.directory =
      if (!decide (file ∈ spill.files k)) = true then get file spill.directory else none :=
    get_filter (fun name => !decide (name ∈ spill.files k)) file spill.directory
  rw [mem_keys_iff, mem_keys_iff, hget]
  by_cases hfile : file ∈ spill.files k <;> simp [hfile]

theorem Sound.pop (h : spill.Sound) (k : K) : (spill.pop k).2.Sound := by
  refine ⟨?_, ?_, ?_, ?_, ?_, ?_⟩
  · intro file hfile
    exact h.below file (mem_directory_pop.mp hfile).1
  · exact h.nodup.sublist (List.filter_sublist.map _)
  · exact h.keys.sublist (List.filter_sublist.map _)
  · intro file
    rw [mem_directory_pop, h.exact]
    constructor
    · rintro ⟨⟨k', hk'⟩, hnot⟩
      have hne : k' ≠ k := fun heq => hnot (heq ▸ hk')
      exact ⟨k', by rwa [files_pop, if_neg hne]⟩
    · rintro ⟨k', hk'⟩
      rw [files_pop] at hk'
      split_ifs at hk' with hne
      · cases hk'
      · exact ⟨⟨k', hk'⟩, h.notMem_files hne hk'⟩
  · intro k₁ k₂ file h₁ h₂
    rw [files_pop] at h₁ h₂
    split_ifs at h₁ h₂
    all_goals first
      | cases h₁
      | cases h₂
      | exact h.apart _ _ _ h₁ h₂
  · intro k' hne
    rw [files_pop] at hne
    split_ifs at hne
    · exact absurd rfl hne
    · exact h.named k' hne

theorem Sound.read_pop (h : spill.Sound) (k k' : K) :
    (spill.pop k).2.read k' = if k' = k then [] else spill.read k' := by
  rw [read, files_pop]
  split_ifs with hk
  · rfl
  · rw [read]
    apply List.flatMap_congr
    intro file hfile
    have hget : get file (spill.pop k).2.directory =
        if (!decide (file ∈ spill.files k)) = true then get file spill.directory else none :=
      get_filter (fun name => !decide (name ∈ spill.files k)) file spill.directory
    rw [hget, if_pos (by simp [h.notMem_files hk hfile])]

theorem Sound.pops (h : spill.Sound) (ks : List K) :
    (ks.foldl (fun spill k => (spill.pop k).2) spill).Sound ∧
      ∀ k, (ks.foldl (fun spill k => (spill.pop k).2) spill).files k =
        if k ∈ ks then [] else spill.files k := by
  induction ks generalizing spill with
  | nil => exact ⟨h, fun k => by simp⟩
  | cons first ks ih =>
    obtain ⟨hsound, hfiles⟩ := ih (h.pop first)
    refine ⟨hsound, fun k => ?_⟩
    rw [List.foldl_cons, hfiles, files_pop]
    by_cases hk : k = first <;> simp [hk]

theorem Sound.drained (h : spill.Sound) :
    (spill.names.foldl (fun spill k => (spill.pop k).2) spill).directory = [] := by
  obtain ⟨hsound, hfiles⟩ := h.pops spill.names
  apply List.eq_nil_iff_forall_not_mem.mpr
  intro found hfound
  obtain ⟨k, hk⟩ := (hsound.exact found.1).mp (List.mem_map_of_mem hfound)
  rw [hfiles] at hk
  split_ifs at hk with hname
  · cases hk
  · exact hname (h.named k (List.ne_nil_of_mem hk))

end Pops

end Spill

end FinanceContext.SpilledGroups
