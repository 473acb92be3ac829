import FinanceContext.MarkdownStream
import Mathlib.Data.List.Sort

/-!
When the streamed Markdown is the Markdown of the stored document: the flags of a period must
read alike in the order of the build and in the order of their names.
-/

namespace FinanceContext.Markdown

open Dictionaries TextLines

section Reload

variable (rules : NumberText)

def reloadPeriod (period : ContextPeriod) : ContextPeriod := loadPeriod (dumpPeriod period)

def reloadAxis (axis : ContextAxis) : ContextAxis := loadAxis (dumpAxis axis)

@[simp] theorem col_reloadPeriod (p : ContextPeriod) : (reloadPeriod p).col = p.col := rfl
@[simp] theorem text_reloadPeriod (p : ContextPeriod) : (reloadPeriod p).text = p.text := rfl
@[simp] theorem periodKey_reloadPeriod (p : ContextPeriod) :
    (reloadPeriod p).periodKey = p.periodKey := rfl
@[simp] theorem groupKey_reloadPeriod (p : ContextPeriod) :
    (reloadPeriod p).groupKey = p.groupKey := rfl
@[simp] theorem startDate_reloadPeriod (p : ContextPeriod) :
    (reloadPeriod p).startDate = p.startDate := rfl
@[simp] theorem endDate_reloadPeriod (p : ContextPeriod) :
    (reloadPeriod p).endDate = p.endDate := rfl
@[simp] theorem id_reloadAxis (axis : ContextAxis) : (reloadAxis axis).id = axis.id := rfl
@[simp] theorem sheet_reloadAxis (axis : ContextAxis) : (reloadAxis axis).sheet = axis.sheet := rfl
@[simp] theorem grain_reloadAxis (axis : ContextAxis) : (reloadAxis axis).grain = axis.grain := rfl
@[simp] theorem timelineId_reloadAxis (axis : ContextAxis) :
    (reloadAxis axis).timelineId = axis.timelineId := rfl

theorem flags_reloadPeriod (period : ContextPeriod) :
    (reloadPeriod period).flags = keyOrder period.flags := by
  unfold reloadPeriod loadPeriod dumpPeriod
  cases h : period.flags <;> simp [keyOrder]

@[simp] theorem periods_reloadAxis (axis : ContextAxis) :
    (reloadAxis axis).periods = axis.periods.map reloadPeriod := by
  simp [reloadAxis, loadAxis, dumpAxis, reloadPeriod, Function.comp_def]

theorem redundantCalendar_reloadPeriod (period : ContextPeriod) :
    redundantCalendar (reloadPeriod period) = redundantCalendar period := by
  unfold redundantCalendar
  simp only [periodKey_reloadPeriod]
  unfold reloadPeriod loadPeriod dumpPeriod
  cases h : period.calendarYear with
  | none => rfl
  | some calendar =>
    cases hsame : (calendar = period.periodKey || calendar = keyYear period.periodKey : Bool) with
    | false => simp only [Option.filter_some, hsame, Bool.not_false, if_true]
    | true =>
      simp only [Option.filter_some, hsame, Bool.not_true, Bool.false_eq_true, if_false, given]
      by_cases hempty : calendar = ""
      · simp only [if_pos hempty]
      · simp only [if_neg hempty, hsame]

theorem calendarYear_reloadPeriod {period : ContextPeriod} (h : redundantCalendar period = false) :
    (reloadPeriod period).calendarYear = period.calendarYear := by
  unfold redundantCalendar at h
  unfold reloadPeriod loadPeriod dumpPeriod
  cases hcalendar : period.calendarYear with
  | none => rfl
  | some calendar =>
    rw [hcalendar] at h
    simp only [given] at h
    split at h
    · cases h
    · rename_i text hgiven
      split at hgiven
      · cases hgiven
      · cases hgiven
        simp only [Option.filter_some]
        rw [h]
        rfl

theorem isEmpty_keyOrder (flags : List (String × Bool)) :
    (keyOrder flags).isEmpty = flags.isEmpty := by
  have hlength := List.length_insertionSort (fun a b : String × Bool => a.1 ≤ b.1) flags
  unfold keyOrder
  cases flags with
  | nil => rfl
  | cons flag flags =>
    cases h : (flag :: flags).insertionSort fun a b => a.1 ≤ b.1 with
    | nil => simp [h] at hlength
    | cons _ _ => rfl

theorem shows_reloadPeriod (shown : Attribute) (period : ContextPeriod) :
    shown.shows (reloadPeriod period) = shown.shows period := by
  cases shown with
  | calendar =>
    simp only [Attribute.shows, redundantCalendar_reloadPeriod]
    cases hredundant : redundantCalendar period with
    | true => simp
    | false => rw [calendarYear_reloadPeriod hredundant]
  | flags => simp only [Attribute.shows, flags_reloadPeriod, isEmpty_keyOrder]
  | _ => rfl

theorem periodCell_reloadPeriod {shown : Attribute} (h : shown ≠ .flags) (period : ContextPeriod) :
    periodCell shown (reloadPeriod period) = periodCell shown period := by
  cases shown with
  | calendar =>
    simp only [periodCell, redundantCalendar_reloadPeriod]
    cases hredundant : redundantCalendar period with
    | true => simp only [if_true]
    | false => simp only [calendarYear_reloadPeriod hredundant]
  | flags => exact absurd rfl h
  | start => simp only [periodCell, startDate_reloadPeriod]
  | finish => simp only [periodCell, endDate_reloadPeriod]
  | group => simp only [periodCell, groupKey_reloadPeriod]

theorem visibleAttributes_reloadAxis (axis : ContextAxis) :
    visibleAttributes (reloadAxis axis) = visibleAttributes axis := by
  unfold visibleAttributes
  simp only [periods_reloadAxis, List.any_map, Function.comp_def, shows_reloadPeriod]

theorem attributeRow_reloadAxis {shown : Attribute} (h : shown ≠ .flags) (axis : ContextAxis) :
    attributeRow (reloadAxis axis) shown = attributeRow axis shown := by
  unfold attributeRow
  simp only [periods_reloadAxis, List.map_map, Function.comp_def, periodCell_reloadPeriod h]

theorem monthRuns_reloadAxis (axis : ContextAxis) :
    monthRuns rules (reloadAxis axis) = monthRuns rules axis := by
  unfold monthRuns
  simp only [periods_reloadAxis, List.any_map, List.all_map, List.foldl_map, Function.comp_def,
    flags_reloadPeriod, isEmpty_keyOrder]
  rfl

theorem monthSummary_reloadAxis (axis : ContextAxis) :
    monthSummary rules (reloadAxis axis) = monthSummary rules axis := by
  unfold monthSummary
  rw [monthRuns_reloadAxis]
  rfl

end Reload

section Blocks

variable (axes : List ContextAxis) (block : FinancialBlock)

theorem axisOf_reload (axisId : String) :
    axisOf (axes.map reloadAxis) axisId = (axisOf axes axisId).map reloadAxis := by
  unfold axisOf
  rw [get_filled, get_filled]
  simp only [List.map_map, List.filter_map, Function.comp_def, List.getLast?_map, id_reloadAxis,
    Option.map_map]

theorem referencedAxes_reload :
    referencedAxes (axes.map reloadAxis) block = (referencedAxes axes block).map reloadAxis := by
  unfold referencedAxes
  simp only [axisOf_reload, List.map_filterMap]

theorem blockIntro_reload (count : ℕ) :
    blockIntro (axes.map reloadAxis) block count = blockIntro axes block count := by
  unfold blockIntro
  simp only [referencedAxes_reload, List.map_map, List.filter_map, Function.comp_def, id_reloadAxis,
    timelineId_reloadAxis, List.isEmpty_map]
  rfl

theorem markdownTables_reload :
    markdownTables (axes.map reloadAxis) block = markdownTables axes block := by
  unfold markdownTables
  simp only [referencedAxes_reload, List.map_map, Function.comp_def, id_reloadAxis,
    periods_reloadAxis, col_reloadPeriod, text_reloadPeriod, periodKey_reloadPeriod,
    List.isEmpty_map, List.length_map]

theorem blockSection_reload (rules : NumberText) :
    blockSection rules (axes.map reloadAxis) block = blockSection rules axes block := by
  unfold blockSection
  rw [blockIntro_reload, markdownTables_reload]

end Blocks

section Cells

/-- A text that a separator cannot start in. -/
def Cellular (text : String) : Prop :=
  ¬[' ', '|'] <:+: text.toList ∧ text.toList.getLast? ≠ some ' '

theorem bar_infix_escaped (text : List Char) : ¬[' ', '|'] <:+: escaped text := by
  have hhead (text : List Char) : (escaped text).head? ≠ some '|' := by
    cases text with
    | nil => simp [escaped]
    | cons ch text =>
      unfold escaped
      split <;> simp_all
  induction text with
  | nil => simp [escaped]
  | cons ch text ih =>
    have hrest (first : Char) (h : [' ', '|'] <:+: first :: escaped text) : False := by
      rcases List.infix_cons_iff.mp h with hprefix | hinfix
      · obtain ⟨-, tail, htail⟩ := List.cons_prefix_cons.mp hprefix
        apply hhead text
        rw [← htail]
        rfl
      · exact ih hinfix
    intro h
    by_cases hbar : ch = '|'
    · subst hbar
      rcases List.infix_cons_iff.mp h with hprefix | hinfix
      · cases (List.cons_prefix_cons.mp hprefix).1
      · exact hrest '|' hinfix
    · by_cases hnewline : ch = '\n'
      · subst hnewline
        exact hrest ' ' h
      · have hplain : escaped (ch :: text) = ch :: escaped text := by
          simp [escaped]
        exact hrest ch (hplain ▸ h)

theorem cellular_cell (text : String) : Cellular (cell text) := by
  unfold cell strip Cellular
  rw [String.toList_ofList, String.toList_ofList]
  constructor
  · exact fun h => bar_infix_escaped _ (h.trans (stripChars_within isSpace _))
  · intro h
    have hspace := getLast?_stripChars h
    revert hspace
    decide

/-- The text before the first separator is the first cell. -/
theorem separator_inj {a b x y : List Char} (ha : ¬[' ', '|'] <:+: a) (hb : ¬[' ', '|'] <:+: b)
    (ha' : a.getLast? ≠ some ' ') (hb' : b.getLast? ≠ some ' ')
    (h : a ++ ' ' :: '|' :: x = b ++ ' ' :: '|' :: y) : a = b ∧ x = y := by
  have hlonger (a b x y : List Char) (hb : ¬[' ', '|'] <:+: b) (hb' : b.getLast? ≠ some ' ')
      (extra : List Char) (hab : b = a ++ extra)
      (h : ' ' :: '|' :: x = extra ++ ' ' :: '|' :: y) : a = b ∧ x = y := by
    cases extra with
    | nil =>
      obtain ⟨-, hxy⟩ := List.cons.inj h
      exact ⟨by simpa using hab.symm, (List.cons.inj hxy).2⟩
    | cons first extra =>
      obtain ⟨rfl, hrest⟩ := List.cons.inj h
      cases extra with
      | nil => exact absurd (by simp [hab]) hb'
      | cons second extra =>
        obtain ⟨rfl, -⟩ := List.cons.inj hrest
        exact absurd ⟨a, extra, by simp [hab]⟩ hb
  rcases List.append_eq_append_iff.mp h with ⟨extra, hba, hxy⟩ | ⟨extra, hab, hxy⟩
  · exact hlonger a b x y hb hb' extra hba hxy
  · obtain ⟨hba, hyx⟩ := hlonger b a y x ha ha' extra hab hxy
    exact ⟨hba.symm, hyx.symm⟩

theorem axisRow_inj {cells cells' : List String} (hlength : cells.length = cells'.length)
    (h : ∀ text ∈ cells, Cellular text) (h' : ∀ text ∈ cells', Cellular text)
    (heq : axisRow cells = axisRow cells') : cells = cells' := by
  have hlists := congrArg String.toList heq
  unfold axisRow at hlists
  simp only [String.toList_append, String.toList_intercalate, List.append_assoc] at hlists
  have hmiddle := List.append_cancel_left hlists
  clear hlists heq
  induction cells generalizing cells' with
  | nil => simpa using hlength.symm
  | cons text cells ih =>
    cases cells' with
    | nil => cases hlength
    | cons text' cells' =>
      have htext := h text List.mem_cons_self
      have htext' := h' text' List.mem_cons_self
      have hrest (hcells : cells.length = cells'.length) := ih hcells
        (fun other hother => h other (List.mem_cons_of_mem _ hother))
        (fun other hother => h' other (List.mem_cons_of_mem _ hother))
      cases cells with
      | nil =>
        cases cells' with
        | nil =>
          have hsame := List.append_cancel_right hmiddle
          simp only [List.map_cons, List.map_nil, List.intercalate_singleton] at hsame
          rw [String.toList_inj.mp hsame]
        | cons _ _ => cases hlength
      | cons other cells =>
        cases cells' with
        | nil => cases hlength
        | cons other' cells' =>
          simp only [List.map_cons, List.intercalate_cons_cons, List.append_assoc] at hmiddle hrest
          have hsplit := separator_inj htext.1 htext'.1 htext.2 htext'.2 hmiddle
          have htail := hrest (Nat.succ.inj hlength) (List.cons.inj hsplit.2).2
          rw [String.toList_inj.mp hsplit.1, htail]

theorem newline_notMem_attributeRow (axis : ContextAxis) (shown : Attribute) :
    '\n' ∉ (attributeRow axis shown).toList := by
  apply newline_notMem_axisRow
  intro text htext
  rcases List.mem_cons.mp htext with rfl | hperiod
  · cases shown <;> decide
  · obtain ⟨period, -, rfl⟩ := List.mem_map.mp hperiod
    cases shown with
    | calendar =>
      simp only [periodCell]
      split
      · decide
      · exact newline_notMem_cell _
    | _ => exact newline_notMem_cell _

/-- The flags of a period read alike in their own order and in the order of their names. -/
def FlagsReadAlike (flags : List (String × Bool)) : Prop :=
  cell (", ".intercalate (flagNames flags)) = cell (", ".intercalate (flagNames (keyOrder flags)))

theorem flagsReadAlike_of_sorted {flags : List (String × Bool)}
    (h : flags.Pairwise fun a b => a.1 ≤ b.1) : FlagsReadAlike flags := by
  have horder : keyOrder flags = flags := List.Pairwise.insertionSort_eq h
  rw [FlagsReadAlike, horder]

theorem attributeRow_flags_iff (axis : ContextAxis) :
    attributeRow axis .flags = attributeRow (reloadAxis axis) .flags ↔
      ∀ period ∈ axis.periods, FlagsReadAlike period.flags := by
  have hcells (axis : ContextAxis) :
      ∀ text ∈ Attribute.flags.name :: axis.periods.map (periodCell .flags), Cellular text := by
    intro text htext
    rcases List.mem_cons.mp htext with rfl | hperiod
    · exact ⟨by decide, by decide⟩
    · obtain ⟨period, -, rfl⟩ := List.mem_map.mp hperiod
      exact cellular_cell _
  have hrow : attributeRow axis .flags = attributeRow (reloadAxis axis) .flags ↔
      axis.periods.map (periodCell .flags) = (reloadAxis axis).periods.map (periodCell .flags) := by
    constructor
    · intro h
      exact (List.cons.inj (axisRow_inj (by simp) (hcells axis) (hcells _) h)).2
    · intro h
      rw [attributeRow, attributeRow, h]
  rw [hrow, periods_reloadAxis, List.map_map, List.map_inj_left]
  simp only [Function.comp_apply, periodCell, flags_reloadPeriod, FlagsReadAlike]

end Cells

section Axes

variable (rules : NumberText)

/-- The attribute rows of an axis, as printed and as printed from the stored document. -/
theorem attributeRows_agree (axis : ContextAxis) :
    Agree ((visibleAttributes axis).map (attributeRow axis))
      ((visibleAttributes (reloadAxis axis)).map (attributeRow (reloadAxis axis)))
      (∀ period ∈ axis.periods, FlagsReadAlike period.flags) := by
  rw [visibleAttributes_reloadAxis]
  constructor
  · rw [List.forall₂_map_left_iff, List.forall₂_map_right_iff, List.forall₂_same]
    intro shown _
    exact .inr ⟨newline_notMem_attributeRow axis shown, newline_notMem_attributeRow _ shown⟩
  rw [List.map_inj_left]
  constructor
  · intro h period hperiod
    by_cases hshown : Attribute.flags ∈ visibleAttributes axis
    · exact (attributeRow_flags_iff axis).mp (h _ hshown) period hperiod
    · have hnone : period.flags = [] := by
        simp only [visibleAttributes, List.mem_filter, not_and] at hshown
        have hhidden := hshown (by simp)
        simp only [Attribute.shows, List.any_eq_true, not_exists, not_and] at hhidden
        simpa using hhidden period hperiod
      rw [hnone]
      rfl
  · intro h shown _
    by_cases hflags : shown = .flags
    · rw [hflags]
      exact (attributeRow_flags_iff axis).mpr h
    · exact (attributeRow_reloadAxis hflags axis).symm

theorem flags_of_monthRuns {axis : ContextAxis} (h : (monthRuns rules axis).isSome) :
    ∀ period ∈ axis.periods, period.flags = [] := by
  intro period hperiod
  unfold monthRuns at h
  by_cases hflags : axis.periods.any (!·.flags.isEmpty) = true
  · simp only [if_pos hflags] at h
    cases h
  · simp only [List.any_eq_true, not_exists, not_and] at hflags
    simpa using hflags period hperiod

/-- The axis whose attributes the lines of a timeline show. -/
def printedAxis : String × List ContextAxis → Option ContextAxis
  | (_, []) => none
  | (key, first :: members) => some (canonAxis key first members)

def FlagsAlike (axis : ContextAxis) : Prop :=
  ∀ period ∈ axis.periods, FlagsReadAlike period.flags

theorem flagsAlike_of_monthRuns {axis : ContextAxis} (h : (monthRuns rules axis).isSome) :
    FlagsAlike axis := by
  intro period hperiod
  rw [flags_of_monthRuns rules h period hperiod]
  rfl

theorem periodTable_agree (axis : ContextAxis) :
    Agree (periodTable axis) (periodTable (reloadAxis axis)) (FlagsAlike axis) := by
  have hrows := attributeRows_agree axis
  unfold periodTable
  simp only [id_reloadAxis, periods_reloadAxis, List.map_map, Function.comp_def,
    periodKey_reloadPeriod]
  exact ((Agree.refl _).append hrows).congr (by simp [FlagsAlike])

theorem oneAxis_agree (axis : ContextAxis) :
    Agree (oneAxis rules axis) (oneAxis rules (reloadAxis axis)) (FlagsAlike axis) := by
  unfold oneAxis
  simp only [id_reloadAxis, grain_reloadAxis, sheet_reloadAxis, periods_reloadAxis, List.length_map,
    monthRuns_reloadAxis, monthSummary_reloadAxis]
  split
  · rename_i hruns
    exact (Agree.refl _).congr (iff_of_true trivial (flagsAlike_of_monthRuns rules hruns))
  · exact (periodTable_agree axis).within _ _

theorem sharedAxisTable_agree (members : List ContextAxis) (canon : ContextAxis) :
    Agree (sharedAxisTable members canon)
      (sharedAxisTable (members.map reloadAxis) (reloadAxis canon)) (FlagsAlike canon) := by
  unfold sharedAxisTable
  simp only [id_reloadAxis, grain_reloadAxis, periods_reloadAxis, List.length_map, List.map_map,
    Function.comp_def, periodKey_reloadPeriod, col_reloadPeriod]
  exact (((Agree.refl _).append (attributeRows_agree canon)).within _ _).congr
    (by simp [FlagsAlike])

theorem canonAxis_reload (key : String) (first : ContextAxis) (members : List ContextAxis) :
    canonAxis key (reloadAxis first) (members.map reloadAxis) =
      reloadAxis (canonAxis key first members) := by
  unfold canonAxis
  rw [← List.map_cons, List.find?_map]
  simp only [Function.comp_def, id_reloadAxis, Option.getD_map]
  rfl

theorem groupLines_agree (key : String) (members : List ContextAxis) :
    Agree (groupLines rules (key, members)) (groupLines rules (key, members.map reloadAxis))
      (∀ axis ∈ printedAxis (key, members), FlagsAlike axis) := by
  cases members with
  | nil => exact (Agree.refl _).congr (by simp [printedAxis])
  | cons first members =>
    cases members with
    | nil =>
      have hprinted : printedAxis (key, [first]) = some first := by
        simp only [printedAxis, canonAxis, List.find?_cons, List.find?_nil]
        split <;> rfl
      rw [hprinted]
      exact (oneAxis_agree rules first).congr (by simp)
    | cons second members =>
      have hprinted : printedAxis (key, first :: second :: members) =
        some (canonAxis key first (second :: members)) := rfl
      have hcanon := canonAxis_reload key first (second :: members)
      rw [hprinted]
      simp only [groupLines, List.map_cons] at hcanon ⊢
      rw [hcanon, monthRuns_reloadAxis, monthSummary_reloadAxis]
      generalize canonAxis key first (second :: members) = canon
      simp only [grain_reloadAxis, periods_reloadAxis, List.length_map]
      split
      · rename_i hruns
        exact (Agree.refl _).congr
          (iff_of_true trivial (by simpa using flagsAlike_of_monthRuns rules hruns))
      · have htable := sharedAxisTable_agree (first :: second :: members) canon
        exact htable.congr (by simp)

theorem axisGroups_reload (axes : List ContextAxis) :
    axisGroups (axes.map reloadAxis) =
      (axisGroups axes).map fun group => (group.1, group.2.map reloadAxis) := by
  have hkey (axis : ContextAxis) : axisKey (reloadAxis axis) = axisKey axis := rfl
  unfold axisGroups
  rw [← grouped_mapValues reloadAxis, List.map_map, List.map_map]
  simp only [Function.comp_def, hkey]

theorem axesSection_agree (axes : List ContextAxis) :
    Agree (axesSection rules axes) (axesSection rules (axes.map reloadAxis))
      (∀ group ∈ axisGroups axes, ∀ axis ∈ printedAxis group, FlagsAlike axis) := by
  unfold axesSection
  rw [axisGroups_reload, List.flatMap_map]
  have hgroups : Agree ((axisGroups axes).flatMap (groupLines rules))
      ((axisGroups axes).flatMap fun group => groupLines rules (group.1, group.2.map reloadAxis))
      (∀ group ∈ axisGroups axes, ∀ axis ∈ printedAxis group, FlagsAlike axis) :=
    Agree.flatMap fun group _ => groupLines_agree rules group.1 group.2
  exact ((Agree.refl _).append hgroups).congr (by simp)

theorem preamble_agree (doc : PublishedDocument) (count : ℕ) :
    Agree (preamble rules doc count) (preamble rules (reloaded doc) count)
      (∀ group ∈ axisGroups doc.axes, ∀ axis ∈ printedAxis group, FlagsAlike axis) := by
  have hreloaded : (reloaded doc).axes = doc.axes.map reloadAxis := rfl
  unfold preamble
  rw [hreloaded]
  cases haxes : doc.axes with
  | nil => exact (Agree.refl _).congr (by simp [axisGroups, grouped])
  | cons axis axes => exact (axesSection_agree rules (axis :: axes)).within _ _

end Axes

section Ends

variable (rules : NumberText)

theorem closed_rows (head : List String) {rows : List String} (hne : rows ≠ [])
    (h : ∀ row ∈ rows, ∃ cells, row = axisRow cells) : Closed isSpace (head ++ rows ++ [""]) := by
  obtain ⟨cells, hlast⟩ := h _ (List.getLast_mem hne)
  have hrow : (head ++ rows).getLast? = some (axisRow cells) := by
    rw [List.getLast?_append, List.getLast?_eq_some_getLast hne, hlast, Option.some_or]
  have hbar : (axisRow cells).toList.getLast? = some '|' := by
    rw [axisRow, String.toList_append, List.getLast?_append]
    rfl
  exact closed_concat hrow hbar (by decide)

theorem closed_monthSummary (head : List String) (axis : ContextAxis) :
    Closed isSpace (head ++ monthSummary rules axis ++ [""]) := by
  apply closed_rows
  · simp [monthSummary]
  · intro row hrow
    simp only [monthSummary, List.mem_cons, List.not_mem_nil, or_false] at hrow
    rcases hrow with rfl | rfl | rfl <;> exact ⟨_, rfl⟩

theorem closed_periodTable (head : List String) (axis : ContextAxis) :
    Closed isSpace (head ++ periodTable axis ++ [""]) := by
  apply closed_rows
  · simp [periodTable]
  · intro row hrow
    simp only [periodTable, List.mem_append, List.mem_cons, List.not_mem_nil, or_false,
      List.mem_map] at hrow
    rcases hrow with (rfl | rfl) | ⟨shown, -, rfl⟩ <;> exact ⟨_, rfl⟩

theorem closed_sharedAxisTable (members : List ContextAxis) (canon : ContextAxis) :
    Closed isSpace (sharedAxisTable members canon) := by
  apply closed_rows
  · simp
  · intro row hrow
    simp only [List.mem_append, List.mem_cons, List.not_mem_nil, or_false, List.mem_map] at hrow
    rcases hrow with ((rfl | rfl) | ⟨axis, -, rfl⟩) | ⟨shown, -, rfl⟩ <;> exact ⟨_, rfl⟩

theorem closed_groupLines {key : String} {members : List ContextAxis} (hne : members ≠ []) :
    Closed isSpace (groupLines rules (key, members)) := by
  cases members with
  | nil => exact absurd rfl hne
  | cons first members =>
    cases members with
    | nil =>
      simp only [groupLines, oneAxis]
      split
      · exact closed_monthSummary rules _ first
      · exact closed_periodTable _ first
    | cons second members =>
      simp only [groupLines]
      split
      · exact closed_monthSummary rules _ _
      · exact closed_sharedAxisTable _ _

theorem closed_valueTable (head : List String) (table : ValueTable) (rows : List BlockRow) :
    Closed isSpace (head ++ valueTable rules table rows) := by
  have hrows : Closed isSpace
      (head ++ (tableHeader rules table.headers ++ rows.map (tableLine rules table)) ++ [""]) := by
    apply closed_rows
    · simp [tableHeader]
    · intro row hrow
      simp only [tableHeader, List.mem_append, List.mem_cons, List.not_mem_nil, or_false,
        List.mem_map] at hrow
      rcases hrow with (rfl | rfl) | ⟨row, -, rfl⟩ <;> exact ⟨_, rfl⟩
  simpa [valueTable] using hrows

theorem closed_relationsSection {relations : List RowRelation} (hne : relations ≠ []) :
    Closed isSpace (relationsSection relations) := by
  apply closed_rows
  · simpa using hne
  · intro row hrow
    obtain ⟨relation, -, rfl⟩ := List.mem_map.mp hrow
    exact ⟨_, rfl⟩

theorem closed_blockIntro (axes : List ContextAxis) (block : FinancialBlock) (count : ℕ) :
    Closed isSpace (blockIntro axes block count) := by
  have hdot (text : String) : (text ++ ".").toList.getLast? = some '.' := by simp
  exact closed_concat (show [_, _, _].getLast? = some _ from rfl) (hdot _) (by decide)

theorem markdownTables_ne_nil (axes : List ContextAxis) (block : FinancialBlock) :
    markdownTables axes block ≠ [] := by
  by_cases h : (referencedAxes axes block).isEmpty
  · simp [markdownTables, h]
  · have hne : referencedAxes axes block ≠ [] := by simpa using h
    simp [markdownTables, hne]

theorem closed_blockSection (axes : List ContextAxis) (block : FinancialBlock) :
    Closed isSpace (blockSection rules axes block) := by
  unfold blockSection
  split
  · exact closed_blockIntro axes block _
  · split
    · obtain ⟨tables, table, htables⟩ :=
        (List.eq_nil_or_concat (markdownTables axes block)).resolve_left
          (markdownTables_ne_nil axes block)
      rw [htables, List.concat_eq_append, List.append_nil, List.flatMap_append,
        List.flatMap_singleton, ← List.append_assoc]
      exact (closed_valueTable rules (headingLines table) table block.rows).append _
    · rename_i hrelations
      exact (closed_relationsSection (by simpa using hrelations)).append _

theorem cell_getLast {text : String} (h : cell text ≠ "") :
    ∃ ch, (cell text).toList.getLast? = some ch ∧ isSpace ch = false := by
  cases hlast : (cell text).toList.getLast? with
  | none =>
    rw [List.getLast?_eq_none_iff] at hlast
    exact absurd (String.toList_eq_nil_iff.mp hlast) h
  | some ch =>
    refine ⟨ch, rfl, ?_⟩
    unfold cell strip at hlast
    rw [String.toList_ofList] at hlast
    exact getLast?_stripChars hlast

theorem axisGroups_ne_nil {axes : List ContextAxis} (h : axes ≠ []) : axisGroups axes ≠ [] := by
  obtain ⟨axis, haxis⟩ := List.exists_mem_of_ne_nil axes h
  have hgot : get (axisKey axis) (axisGroups axes) ≠ none := by
    intro hnone
    exact (get_grouped_eq_none_iff _ _).mp hnone (axisKey axis, axis)
      (List.mem_map.mpr ⟨axis, haxis, rfl⟩) rfl
  intro hnil
  exact hgot (by rw [hnil]; rfl)

theorem members_ne_nil {axes : List ContextAxis} {group : String × List ContextAxis}
    (h : group ∈ axisGroups axes) : group.2 ≠ [] := by
  intro hnil
  have hget := get_of_mem (nodup_keys_grouped _) h
  have hnone : ((axes.map fun axis => (axisKey axis, axis)).filter (·.1 = group.1)) = [] := by
    have hvalues := getD_get_grouped group.1 (axes.map fun axis => (axisKey axis, axis))
    rw [hget, hnil] at hvalues
    simpa using hvalues.symm
  have hsome : get group.1 (axisGroups axes) = none := by
    apply (get_grouped_eq_none_iff _ _).mpr
    intro p hp hkey
    exact List.ne_nil_of_mem (List.mem_filter.mpr ⟨hp, by simpa using hkey⟩) hnone
  rw [axisGroups, hget] at hsome
  cases hsome

theorem closed_axesSection {axes : List ContextAxis} (h : axes ≠ []) :
    Closed isSpace (axesSection rules axes) := by
  obtain ⟨groups, group, hgroups⟩ :=
    (List.eq_nil_or_concat (axisGroups axes)).resolve_left (axisGroups_ne_nil h)
  have hmem : group ∈ axisGroups axes := by simp [hgroups]
  unfold axesSection
  rw [hgroups, List.concat_eq_append, List.flatMap_append, List.flatMap_singleton,
    ← List.append_assoc]
  exact (closed_groupLines rules (members_ne_nil hmem)).append _

/-- The last warning, where there is one, prints something. -/
def EndsShown (doc : PublishedDocument) : Prop :=
  doc.blocks = [] → ∀ warning ∈ doc.warnings.getLast?, cell warning ≠ ""

theorem closed_lines (doc : PublishedDocument) (h : EndsShown doc) (count : ℕ) :
    Closed isSpace (preamble rules doc count ++ doc.blocks.flatMap (blockSection rules doc.axes)) := by
  rcases List.eq_nil_or_concat doc.blocks with hblocks | ⟨blocks, block, hblocks⟩
  · rw [hblocks, List.flatMap_nil, List.append_nil]
    unfold preamble
    rcases List.eq_nil_or_concat doc.warnings with hwarnings | ⟨warnings, warning, hwarnings⟩
    · rw [hwarnings]
      simp only [List.isEmpty_nil, if_true, List.append_nil]
      split
      · have hrows (text : String) : (text ++ " layout rows)").toList.getLast? = some ')' := by
          rw [String.toList_append, List.getLast?_append]
          rfl
        rw [List.append_nil]
        exact closed_concat (show [_, _, _, _, _, _, _, _, _, _].getLast? = some _ from rfl) (hrows _)
          (by decide)
      · rename_i haxes
        exact (closed_axesSection rules (by simpa using haxes)).append _
    · have hshown := h hblocks warning (by simp [hwarnings])
      obtain ⟨ch, hch, hspace⟩ := cell_getLast hshown
      have hlast : ("- " ++ cell warning).toList.getLast? = some ch := by
        rw [String.toList_append, List.getLast?_append, hch, Option.some_or]
      have hne : doc.warnings.isEmpty = false := by simp [hwarnings]
      rw [hne]
      simp only [Bool.false_eq_true, if_false]
      apply Closed.append
      apply closed_concat _ hlast hspace
      rw [hwarnings, List.concat_eq_append, List.map_append, ← List.append_assoc,
        List.getLast?_append]
      rfl
  · rw [hblocks, List.concat_eq_append, List.flatMap_append, List.flatMap_singleton,
      ← List.append_assoc]
    exact (closed_blockSection rules doc.axes block).append _

end Ends

section Agreement

variable (rules : NumberText)

theorem sections_reloaded (doc : PublishedDocument) :
    (reloaded doc).blocks.flatMap (blockSection rules (reloaded doc).axes) =
      doc.blocks.flatMap (blockSection rules doc.axes) :=
  List.flatMap_congr fun block _ => blockSection_reload doc.axes block rules

theorem preamble_warnings (doc : PublishedDocument) {warnings : List String} {warning : String}
    (h : doc.warnings = warnings ++ [warning]) (count : ℕ) :
    ∃ init, preamble rules doc count = init ++ ["- " ++ cell warning, ""] := by
  have hne : ¬doc.warnings.isEmpty = true := by simp [h]
  unfold preamble
  rw [if_neg hne, h]
  have hend : ["## Warnings", ""] ++ ((warnings ++ [warning]).map fun warning =>
      "- " ++ cell warning) ++ [""] = (["## Warnings", ""] ++ warnings.map fun warning =>
        "- " ++ cell warning) ++ ["- " ++ cell warning, ""] := by simp
  rw [hend, ← List.append_assoc]
  exact ⟨_, rfl⟩

/-- A blank line at the end keeps its blank in the stream and loses it in the rendered text. -/
theorem blank_end_differs {doc : PublishedDocument} (h : ¬EndsShown doc) (count : ℕ) :
    "\n".intercalate (preamble rules doc count ++ doc.blocks.flatMap (blockSection rules doc.axes)) ≠
      renderMarkdown rules (reloaded doc) := by
  simp only [EndsShown, Classical.not_imp, not_forall, not_not] at h
  obtain ⟨hblocks, warning, hwarning, hblank⟩ := h
  obtain ⟨warnings, hwarnings⟩ := List.getLast?_eq_some_iff.mp hwarning
  obtain ⟨init, hinit⟩ := preamble_warnings rules doc hwarnings count
  obtain ⟨init', hinit'⟩ := preamble_warnings rules (reloaded doc) hwarnings
    ((reloaded doc).blocks.map (·.rows.length)).sum
  obtain ⟨before, hbefore⟩ := exists_intercalate_concat init ("- " ++ cell warning)
  obtain ⟨before', hbefore'⟩ := exists_intercalate_concat init' ("- " ++ cell warning)
  have hlines : (reloaded doc).blocks = [] := hblocks
  simp only [renderMarkdown]
  rw [hinit', hinit, hblocks, hlines, List.flatMap_nil, List.flatMap_nil, List.append_nil,
    List.append_nil, hbefore, hbefore', hblank]
  have hstripped : stripEnd isSpace (before' ++ ("- " ++ "") ++ "\n") = before' ++ "-" := by
    have hlist : (before' ++ ("- " ++ "") ++ "\n").toList = before'.toList ++ ['-', ' ', '\n'] := by
      simp
    have hblanks : (['\n', ' ', '-'] ++ before'.toList.reverse).dropWhile isSpace =
        '-' :: before'.toList.reverse := rfl
    unfold stripEnd
    rw [hlist, List.reverse_append]
    change String.ofList ((['\n', ' ', '-'] ++ before'.toList.reverse).dropWhile isSpace).reverse = _
    rw [hblanks, List.reverse_cons, List.reverse_reverse]
    simp
  rw [hstripped]
  intro heq
  have hlast := congrArg (fun text => text.toList.reverse) heq
  simp at hlast

theorem lines_agree (doc : PublishedDocument) (count : ℕ) :
    Agree (preamble rules doc count ++ doc.blocks.flatMap (blockSection rules doc.axes))
      (preamble rules (reloaded doc) count ++
        (reloaded doc).blocks.flatMap (blockSection rules (reloaded doc).axes))
      (∀ group ∈ axisGroups doc.axes, ∀ axis ∈ printedAxis group, FlagsAlike axis) := by
  rw [sections_reloaded]
  exact ((preamble_agree rules doc count).append (Agree.refl _)).congr (and_iff_left trivial)

/-- Where the text does not end in a blank warning, only the flags can differ. -/
theorem flags_of_shown {doc : PublishedDocument} (hends : EndsShown doc) :
    (streamContext rules doc).2 = renderMarkdown rules (readContext (streamContext rules doc).1) ↔
      ∀ group ∈ axisGroups doc.axes, ∀ axis ∈ printedAxis group, FlagsAlike axis := by
  obtain ⟨hstored, hstreamed⟩ := streamContext_spec rules doc
  have hclosed := closed_lines rules (reloaded doc) hends
  rw [hstored, hstreamed, ← (lines_agree rules doc _).intercalate_iff]
  simp only [renderMarkdown]
  rw [stripEnd_intercalate (by decide) (hclosed _)]
  rfl

/-- The streamed Markdown is the Markdown of the stored document exactly when the flags of every
printed axis read alike in both orders, and a document without blocks does not end in a blank
warning. -/
theorem streamed_markdown_iff (doc : PublishedDocument) :
    (streamContext rules doc).2 = renderMarkdown rules (readContext (streamContext rules doc).1) ↔
      (∀ group ∈ axisGroups doc.axes, ∀ axis ∈ printedAxis group, FlagsAlike axis) ∧
        EndsShown doc := by
  by_cases hends : EndsShown doc
  · rw [flags_of_shown rules hends]
    exact (and_iff_left hends).symm
  · obtain ⟨hstored, hstreamed⟩ := streamContext_spec rules doc
    rw [hstored, hstreamed]
    exact iff_of_false (blank_end_differs rules hends _) fun h => hends h.2

/-- A year in which both flags are on, the first of them last by name. -/
def flaggedAxis : ContextAxis where
  id := "CF!r1"
  sheet := "CF"
  headerRow := 1
  timelineId := "CF!r1"
  periods :=
    [{ col := 2, text := "2024", periodKey := "2024", index := 1, calendarYear := some "2024"
       flags := [("operation", true), ("construction", true)] }]

def flaggedDocument : PublishedDocument where
  workbook :=
    { sheets := ["CF"], cellCount := 4, definedNames := [], formulaCount := 0
      missingCachedValues := 0, unparsedFormulas := 0 }
  axes := [flaggedAxis]
  blocks := []
  warnings := []
  schemaVersion := "1.14.0"
  jobId := "job"
  status := "succeeded"
  sourceFilename := none

theorem flag_order_differs :
    (streamContext ⟨Char.isDigit, fun _ => none, (· != ·)⟩ flaggedDocument).2 ≠
      renderMarkdown ⟨Char.isDigit, fun _ => none, (· != ·)⟩
        (readContext (streamContext ⟨Char.isDigit, fun _ => none, (· != ·)⟩ flaggedDocument).1) := by
  intro heq
  have hends : EndsShown flaggedDocument := by
    intro _ warning hwarning
    cases hwarning
  have hprinted : printedAxis ("CF!r1", flaggedDocument.axes) = some flaggedAxis := by
    simp [printedAxis, canonAxis, flaggedDocument, flaggedAxis]
  have hgroup : ("CF!r1", flaggedDocument.axes) ∈ axisGroups flaggedDocument.axes := by
    simp [axisGroups, grouped, push, Dictionaries.get, Dictionaries.set, flaggedDocument,
      flaggedAxis, axisKey]
  have hflags := (flags_of_shown _ hends).mp heq _ hgroup flaggedAxis hprinted _
    List.mem_cons_self
  revert hflags
  unfold FlagsReadAlike
  decide +kernel

end Agreement

end FinanceContext.Markdown
