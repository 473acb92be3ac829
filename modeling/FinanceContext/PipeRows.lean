import Mathlib.Algebra.BigOperators.Group.List.Basic
import Mathlib.Algebra.GroupWithZero.Nat

/-!
Rows of cells between bars, where a bar after an odd number of backslashes is text: how many
cells a line has, and what a row of given cells splits into.
-/

namespace PipeRows

/-- The bars that end a cell; `odd` says that an odd number of backslashes is just before. -/
def bars : Bool → List Char → ℕ
  | _, [] => 0
  | odd, ch :: text =>
    if ch = '\\' then bars (!odd) text
    else if ch = '|' then (if odd then 0 else 1) + bars false text
    else bars false text

/-- A line split at the bars that end a cell. -/
def pieces (odd : Bool) (piece : List Char) : List Char → List (List Char)
  | [] => [piece]
  | ch :: text =>
    if ch = '\\' then pieces (!odd) (piece ++ [ch]) text
    else if ch = '|' ∧ odd = false then piece :: pieces false [] text
    else pieces false (piece ++ [ch]) text

/-- `| a | b |`. -/
def row (cells : List (List Char)) : List Char :=
  ['|', ' '] ++ [' ', '|', ' '].intercalate cells ++ [' ', '|']

theorem length_pieces (odd : Bool) (piece text : List Char) :
    (pieces odd piece text).length = bars odd text + 1 := by
  induction text generalizing odd piece with
  | nil => rfl
  | cons ch text ih =>
    simp only [pieces, bars]
    by_cases hslash : ch = '\\'
    · rw [if_pos hslash, if_pos hslash, ih]
    · rw [if_neg hslash, if_neg hslash]
      by_cases hbar : ch = '|'
      · cases odd with
        | false =>
          simp only [hbar, and_self, if_true, List.length_cons, ih, Bool.false_eq_true, if_false]
          omega
        | true => simp [hbar, ih]
      · simp [hbar, ih]

/-- Neither a bar nor a backslash. -/
def Plain (ch : Char) : Prop := ch ≠ '|' ∧ ch ≠ '\\'

theorem bars_cons_plain {ch : Char} (h : Plain ch) (odd : Bool) (text : List Char) :
    bars odd (ch :: text) = bars false text := by
  simp [bars, h.1, h.2]

theorem bars_append_plain {ch : Char} (h : Plain ch) (odd : Bool) (text rest : List Char) :
    bars odd (text ++ ch :: rest) = bars odd text + bars false rest := by
  induction text generalizing odd with
  | nil =>
    rw [List.nil_append, bars_cons_plain h, bars, Nat.zero_add]
  | cons first text ih =>
    simp only [List.cons_append, bars]
    split_ifs
    · exact ih _
    · rw [ih, Nat.add_assoc]
    · rw [ih, Nat.add_assoc]
    · exact ih _

theorem bars_intercalate {cells : List (List Char)} (h : cells ≠ []) :
    bars false ([' ', '|', ' '].intercalate cells ++ [' ', '|']) =
      cells.length + (cells.map (bars false)).sum := by
  have hspace : Plain ' ' := ⟨by decide, by decide⟩
  induction cells with
  | nil => exact absurd rfl h
  | cons cell cells ih =>
    cases cells with
    | nil =>
      rw [List.intercalate_singleton, bars_append_plain hspace]
      simp [bars, Nat.add_comm]
    | cons next cells =>
      have hrest := ih (List.cons_ne_nil _ _)
      rw [List.intercalate_cons_cons, List.append_assoc, List.append_assoc]
      change bars false (cell ++ ' ' :: ('|' :: ' ' ::
        ([' ', '|', ' '].intercalate (next :: cells) ++ [' ', '|']))) = _
      rw [bars_append_plain hspace]
      have hbar : bars false ('|' :: ' ' ::
          ([' ', '|', ' '].intercalate (next :: cells) ++ [' ', '|'])) =
          1 + bars false ([' ', '|', ' '].intercalate (next :: cells) ++ [' ', '|']) := by
        simp [bars]
      have hsum : ((cell :: next :: cells).map (bars false)).sum =
          bars false cell + ((next :: cells).map (bars false)).sum := by
        rw [List.map_cons, List.sum_cons]
      rw [hbar, hrest, hsum, List.length_cons, List.length_cons, List.length_cons]
      omega

theorem length_pieces_row {cells : List (List Char)} (h : cells ≠ []) :
    (pieces false [] (row cells)).length =
      cells.length + 2 + (cells.map (bars false)).sum := by
  have hstart : bars false (row cells) =
      1 + bars false ([' ', '|', ' '].intercalate cells ++ [' ', '|']) := by
    simp [row, bars]
  rw [length_pieces, hstart, bars_intercalate h]
  omega

theorem mem_intercalate {α : Type} {a : α} {sep : List α} (hsep : a ∉ sep)
    (texts : List (List α)) : a ∈ sep.intercalate texts ↔ ∃ text ∈ texts, a ∈ text := by
  induction texts with
  | nil => simp
  | cons text texts ih =>
    cases texts with
    | nil => simp
    | cons next texts =>
      rw [List.intercalate_cons_cons, List.mem_append, List.mem_append, ih]
      simp [hsep]

theorem mem_row {ch : Char} (hbar : ch ≠ '|') (hspace : ch ≠ ' ') (cells : List (List Char)) :
    ch ∈ row cells ↔ ∃ cell ∈ cells, ch ∈ cell := by
  have hsep : ch ∉ [' ', '|', ' '] := by simp [hbar, hspace]
  unfold row
  rw [List.mem_append, List.mem_append, mem_intercalate hsep]
  simp [hbar, hspace]

end PipeRows
