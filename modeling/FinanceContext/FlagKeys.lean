import FinanceContext.Addresses
import FinanceContext.Dictionaries
import FinanceContext.LayoutModel
import Mathlib.Data.List.Nodup
import Mathlib.Data.Nat.Find
import Mathlib.Data.Set.Finite.Basic

namespace FinanceContext.FlagKeys

open Dictionaries

variable (normalizeLabel : String → String)

section Keys

/-- The candidates of `_unused_flag_key`, the key itself first. -/
def candidate (key : String) (row : ℕ) : ℕ → String
  | 0 => key
  | 1 => key ++ " " ++ toString row
  | suffix + 2 => key ++ " " ++ toString row ++ " " ++ toString (suffix + 2)

theorem candidate_injective (key : String) (row : ℕ) :
    Function.Injective fun n => candidate key row (n + 2) := by
  intro m n h
  have hparts : toString (m + 2) = toString (n + 2) := (String.append_right_inj _).mp h
  have hnum : m + 2 = n + 2 := toString_nat_inj (congrArg String.toList hparts)
  omega

theorem exists_unused (key : String) (used : List String) (row : ℕ) :
    ∃ n, candidate key row n ∉ used := by
  by_contra hall
  push Not at hall
  have hsub : Set.range (fun n => candidate key row (n + 2)) ⊆ {k | k ∈ used} := by
    rintro _ ⟨n, rfl⟩
    exact hall (n + 2)
  exact Set.infinite_range_of_injective (candidate_injective key row)
    (used.finite_toSet.subset hsub)

def unusedFlagKey (key : String) (used : List String) (row : ℕ) : String :=
  candidate key row (Nat.find (exists_unused key used row))

def flagBase (row : LayoutRow) : String :=
  if normalizeLabel row.label = "" then "row " ++ toString row.row else normalizeLabel row.label

def precedingFlagKey (bases keys : List String) (own : String) : Option String :=
  ((bases.zip keys).reverse.find? (·.1 ≠ own)).map Prod.snd

/-- One turn of the loop of `_flag_keys`, after the rows that have the keys. -/
def addKey (bases keys : List String) (row : LayoutRow) : List String :=
  let base := flagBase normalizeLabel row
  let key :=
    if bases.count base = 1 then base
    else
      match precedingFlagKey bases keys base with
      | none => base ++ " " ++ toString row.row
      | some qualifier =>
        if qualifier = "" then base ++ " " ++ toString row.row
        else base ++ " (" ++ qualifier ++ ")"
  keys ++ [unusedFlagKey key keys row.row]

def flagKeys (flags : List LayoutRow) : List String :=
  flags.foldl (addKey normalizeLabel (flags.map (flagBase normalizeLabel))) []

end Keys

theorem unusedFlagKey_notMem (key : String) (used : List String) (row : ℕ) :
    unusedFlagKey key used row ∉ used := Nat.find_spec (exists_unused key used row)

variable {normalizeLabel} {bases keys : List String}

theorem nodup_addKey (h : keys.Nodup) (row : LayoutRow) :
    (addKey normalizeLabel bases keys row).Nodup := by
  apply List.Nodup.append h (List.nodup_singleton _)
  rw [List.disjoint_singleton]
  exact unusedFlagKey_notMem _ _ _

theorem nodup_foldl_addKey (h : keys.Nodup) (flags : List LayoutRow) :
    (flags.foldl (addKey normalizeLabel bases) keys).Nodup := by
  induction flags generalizing keys with
  | nil => exact h
  | cons row flags ih => exact ih (nodup_addKey h row)

theorem length_foldl_addKey (flags : List LayoutRow) (keys : List String) :
    (flags.foldl (addKey normalizeLabel bases) keys).length = keys.length + flags.length := by
  induction flags generalizing keys with
  | nil => rfl
  | cons row flags ih =>
    rw [List.foldl_cons, ih, addKey, List.length_append, List.length_singleton, List.length_cons]
    omega

theorem length_flagKeys (flags : List LayoutRow) :
    (flagKeys normalizeLabel flags).length = flags.length := by
  rw [flagKeys, length_foldl_addKey]
  exact Nat.zero_add _

/-- The keys of the flag rows are distinct, so the map of a column keeps every flag. -/
theorem flag_keys_distinct (normalizeLabel : String → String) (flags : List LayoutRow) :
    (flagKeys normalizeLabel flags).Nodup ∧
      (flagKeys normalizeLabel flags).length = flags.length ∧
      ∀ flagOn : LayoutRow → Bool,
        filled ((flagKeys normalizeLabel flags).zip (flags.map flagOn)) =
          (flagKeys normalizeLabel flags).zip (flags.map flagOn) := by
  have hnodup : (flagKeys normalizeLabel flags).Nodup := nodup_foldl_addKey List.nodup_nil flags
  refine ⟨hnodup, length_flagKeys flags, fun flagOn => ?_⟩
  apply filled_eq_self
  rw [List.map_fst_zip]
  · exact hnodup
  · rw [length_flagKeys, List.length_map]

end FinanceContext.FlagKeys
