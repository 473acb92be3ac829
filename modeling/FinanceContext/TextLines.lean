import FinanceContext.Addresses
import Mathlib.Data.List.Forall2

namespace TextLines

/-- A file under writing: a newline goes before every line but the first. -/
structure Writer where
  text : String := ""
  pending : Bool := false

namespace Writer

def line (w : Writer) (text : String) : Writer where
  text := (if w.pending then w.text ++ "\n" else w.text) ++ text
  pending := true

def extend (w : Writer) (lines : List String) : Writer := lines.foldl line w

/-- The file holds these lines and nothing else. -/
def Holds (w : Writer) (lines : List String) : Prop :=
  w.text = "\n".intercalate lines ∧ w.pending = !lines.isEmpty

theorem holds_empty : Holds {} [] := ⟨by simp, rfl⟩

theorem Holds.line {w : Writer} {lines : List String} (h : w.Holds lines) (text : String) :
    (w.line text).Holds (lines ++ [text]) := by
  obtain ⟨htext, hpending⟩ := h
  refine ⟨?_, by simp [Writer.line]⟩
  unfold Writer.line
  rw [htext, hpending]
  cases lines with
  | nil => simp
  | cons first lines =>
    rw [String.intercalate_append_of_ne_nil (List.cons_ne_nil _ _) (List.cons_ne_nil _ _),
      String.intercalate_singleton]
    simp

theorem Holds.extend {w : Writer} {lines : List String} (h : w.Holds lines) (more : List String) :
    (w.extend more).Holds (lines ++ more) := by
  induction more generalizing w lines with
  | nil => simpa [Writer.extend] using h
  | cons text more ih =>
    have hstep := ih (h.line text)
    simpa [Writer.extend] using hstep

end Writer

/-- The lines an iteration over a file gives, each without its newline. -/
def fileLines (text : String) : List String :=
  let pieces := text.toList.splitOn '\n'
  (if pieces.getLast? = some [] then pieces.dropLast else pieces).map String.ofList

theorem fileLines_intercalate {lines : List String} (h : ∀ text ∈ lines, '\n' ∉ text.toList)
    (hlast : lines.getLast? ≠ some "") : fileLines ("\n".intercalate lines) = lines := by
  have hnewline : "\n".toList = ['\n'] := rfl
  unfold fileLines
  rw [String.toList_intercalate, hnewline]
  cases lines with
  | nil => simp
  | cons first lines =>
    have hsplit : ((['\n'].intercalate ((first :: lines).map String.toList)).splitOn '\n') =
        (first :: lines).map String.toList := by
      apply List.splitOn_intercalate
      · simpa using h
      · simp
    have hend : ((first :: lines).map String.toList).getLast? ≠ some [] := by
      rw [List.getLast?_map]
      intro heq
      obtain ⟨text, htext, hempty⟩ := Option.map_eq_some_iff.mp heq
      rw [String.toList_eq_nil_iff.mp hempty] at htext
      exact hlast htext
    simp only [hsplit, if_neg hend, List.map_map]
    simp [Function.comp_def]

/-- Two lines that are equal or both free of newlines. -/
def Aligned (s t : String) : Prop := s = t ∨ '\n' ∉ s.toList ∧ '\n' ∉ t.toList

theorem intercalate_inj {lines lines' : List String} (h : List.Forall₂ Aligned lines lines')
    (heq : "\n".intercalate lines = "\n".intercalate lines') : lines = lines' := by
  have hlists := congrArg String.toList heq
  rw [String.toList_intercalate, String.toList_intercalate] at hlists
  change ['\n'].intercalate _ = ['\n'].intercalate _ at hlists
  clear heq
  induction h with
  | nil => rfl
  | @cons s t lines lines' hst hrest ih =>
    cases hrest with
    | nil =>
      simp only [List.map_cons, List.map_nil, List.intercalate_singleton] at hlists
      rw [String.toList_inj.mp hlists]
    | @cons s' t' lines lines' hst' hrest =>
      simp only [List.map_cons, List.intercalate_cons_cons, List.append_assoc,
        List.singleton_append] at hlists ih
      obtain rfl | ⟨hs, ht⟩ := hst
      · have htail := List.append_cancel_left hlists
        rw [ih (List.cons.inj htail).2]
      · obtain ⟨hhead, htail⟩ := FinanceContext.append_sep_inj hs ht hlists
        rw [String.toList_inj.mp hhead, ih htail]

/-- Aligned lines that are the same exactly under a condition. -/
def Agree (lines lines' : List String) (p : Prop) : Prop :=
  List.Forall₂ Aligned lines lines' ∧ (lines = lines' ↔ p)

namespace Agree

variable {a a' b b' : List String} {p q : Prop}

theorem refl (a : List String) : Agree a a True :=
  ⟨List.forall₂_same.mpr fun _ _ => .inl rfl, iff_of_true rfl trivial⟩

theorem congr (h : Agree a a' p) (hpq : p ↔ q) : Agree a a' q := ⟨h.1, h.2.trans hpq⟩

theorem append (h : Agree a a' p) (h' : Agree b b' q) : Agree (a ++ b) (a' ++ b') (p ∧ q) := by
  refine ⟨List.rel_append h.1 h'.1, ?_⟩
  rw [← h.2, ← h'.2]
  constructor
  · exact fun heq => List.append_inj heq h.1.length_eq
  · rintro ⟨rfl, rfl⟩
    rfl

theorem within (h : Agree a a' p) (head tail : List String) :
    Agree (head ++ a ++ tail) (head ++ a' ++ tail) p :=
  (((refl head).append h).append (refl tail)).congr (by simp)

theorem flatMap {α : Type} {f g : α → List String} {p : α → Prop} {l : List α}
    (h : ∀ x ∈ l, Agree (f x) (g x) (p x)) : Agree (l.flatMap f) (l.flatMap g) (∀ x ∈ l, p x) := by
  induction l with
  | nil => exact (refl []).congr (by simp)
  | cons x l ih =>
    have hrest := ih fun y hy => h y (List.mem_cons_of_mem _ hy)
    rw [List.flatMap_cons, List.flatMap_cons]
    exact ((h x List.mem_cons_self).append hrest).congr (by simp)

theorem intercalate_iff (h : Agree a a' p) : "\n".intercalate a = "\n".intercalate a' ↔ p := by
  rw [← h.2]
  exact ⟨intercalate_inj h.1, fun heq => by rw [heq]⟩

end Agree

theorem intercalate_ne_empty {lines : List String} (h : lines.head?.any (· ≠ "") = true) :
    "\n".intercalate lines ≠ "" := by
  cases lines with
  | nil => cases h
  | cons first lines =>
    have hfirst : first ≠ "" := by simpa using h
    cases lines with
    | nil => rwa [String.intercalate_singleton]
    | cons second lines =>
      rw [String.intercalate_cons_cons]
      intro heq
      have hlist := congrArg String.toList heq
      simp at hlist

/-- `rstrip` of the characters in a class. -/
def stripEnd (p : Char → Bool) (text : String) : String :=
  String.ofList (text.toList.reverse.dropWhile p).reverse

theorem stripEnd_append {p : Char → Bool} (hp : p '\n' = true) {text : String} {ch : Char}
    (hlast : text.toList.getLast? = some ch) (hch : p ch = false) :
    stripEnd p (text ++ "\n") = text := by
  obtain ⟨init, hinit⟩ := List.getLast?_eq_some_iff.mp hlast
  have hnewline : "\n".toList = ['\n'] := rfl
  unfold stripEnd
  rw [String.toList_append, hnewline, List.reverse_append, hinit]
  have hkept : ((['\n'].reverse ++ (init ++ [ch]).reverse).dropWhile p).reverse = init ++ [ch] := by
    simp [hp, hch]
  rw [hkept, ← hinit, String.ofList_toList]

/-- Lines whose last one is empty, after a line that ends with a character to keep. -/
def Closed (p : Char → Bool) (lines : List String) : Prop :=
  ∃ init text ch, lines = init ++ [text, ""] ∧ text.toList.getLast? = some ch ∧ p ch = false

section Closed

variable {p : Char → Bool} {lines : List String}

theorem closed_concat {text : String} {ch : Char} (h : lines.getLast? = some text)
    (hlast : text.toList.getLast? = some ch) (hch : p ch = false) : Closed p (lines ++ [""]) := by
  obtain ⟨init, rfl⟩ := List.getLast?_eq_some_iff.mp h
  exact ⟨init, text, ch, by simp, hlast, hch⟩

theorem Closed.append (h : Closed p lines) (head : List String) : Closed p (head ++ lines) := by
  obtain ⟨init, text, ch, rfl, hlast, hch⟩ := h
  exact ⟨head ++ init, text, ch, by simp, hlast, hch⟩

theorem exists_intercalate_concat (init : List String) (text : String) :
    ∃ before, "\n".intercalate (init ++ [text, ""]) = before ++ text ++ "\n" := by
  have hsplit : init ++ [text, ""] = (init ++ [text]) ++ [""] := by simp
  rw [hsplit, String.intercalate_append_of_ne_nil (by simp) (List.cons_ne_nil _ _),
    String.intercalate_singleton, String.append_empty]
  cases init with
  | nil => exact ⟨"", by simp⟩
  | cons first init =>
    rw [String.intercalate_append_of_ne_nil (List.cons_ne_nil _ _) (List.cons_ne_nil _ _),
      String.intercalate_singleton]
    exact ⟨_, rfl⟩

theorem stripEnd_intercalate (hp : p '\n' = true) (h : Closed p lines) :
    stripEnd p ("\n".intercalate lines) ++ "\n" = "\n".intercalate lines := by
  obtain ⟨init, text, ch, rfl, hlast, hch⟩ := h
  obtain ⟨before, hbefore⟩ := exists_intercalate_concat init text
  have hend : (before ++ text).toList.getLast? = some ch := by
    rw [String.toList_append, List.getLast?_append, hlast, Option.some_or]
  rw [hbefore, stripEnd_append hp hend hch]

end Closed

end TextLines
