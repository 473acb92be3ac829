import FinanceContext.ObservationPlaces

namespace FinanceContext

open Dictionaries

namespace ContextText

variable (text : ContextText)

/-- What `normalize_series` makes of one value of a series. -/
def amountIn (values : List (Option String)) (factor : Option ℕ) (shown : Option String) :
    Option String :=
  (text.normalizeValue shown factor).map
    (text.withoutResidue (values.map (text.normalizeValue · factor)).reduceOption)

theorem normalizeSeries_eq_map (values : List (Option String)) (factor : Option ℕ) :
    text.normalizeSeries values factor = values.map (text.amountIn values factor) := by
  simp only [normalizeSeries, List.map_map]
  rfl

end ContextText

/-- The document holds these three for a cell in the series of the row on an axis. -/
def Line.Holds (line : Line) (axisId cell : String) (value : Option String)
    (status : ValueStatus) (normalized : Option String) : Prop :=
  ∃ p ∈ (blockViews line.sheet line.block).zip line.line.series, p.1.1 = axisId ∧
    ∃ (place : ℕ) (header : AxisHeader), p.1.2[place]? = some header ∧
      formatAddr header.col line.line.row = cell ∧ p.2.values[place]? = some value ∧ p.2.valueStatuses[place]? = some status ∧
        p.2.normalizedValues[place]? = some normalized

/-- The link of the cell itself has this text and this class. -/
def OwnLink (links : List FormulaLink) (sheet cell : String) (formula : Option String)
    (kind : FormulaClass) : Prop :=
  ∃ link ∈ links, link.cell = nodeId sheet cell ∧ link.formula = formula ∧
    link.formulaClass = some kind

/-- An observation of a row is right about the cell it names. -/
def Reports (links : List FormulaLink) (origin : Line × Slot) (item : Observation) : Prop :=
  origin.1.Holds origin.2.axisId item.source.cell item.value item.valueStatus
      item.normalizedValue ∧
    ∀ kind, item.formula.formulaClass = some kind →
      OwnLink links item.source.sheet item.source.cell item.formula.text kind

section

variable (text : ContextText) (input : BuildInput) (reads : CellReads)

/-- The cell of a slot has a column in the series, and the entry at the place of the slot is the
entry of that column. -/
def PlaceFits (origin : Line × Slot) : Prop :=
  ∃ view ∈ blockViews origin.1.sheet origin.1.block, view.1 = origin.2.axisId ∧
    ∃ header ∈ view.2, formatAddr header.col origin.1.row.row = origin.2.cell ∧
      origin.1.entryAt text input reads view.2 origin.2.place =
        origin.1.entry text input reads view.2 header

/-- The first link of the pair, those that wear the address before the others, is the cell's own,
or says what the cell's own says, or has no class. -/
def LinkFits (links : List FormulaLink) (origin : Line × Slot) : Prop :=
  let named := linksByPair links (rowKey origin.1.sheet.name origin.1.row.row
    origin.1.block.blockId) origin.2.periodId
  ∀ link kind, (named.filter (·.wears origin.2.cell) ++ named).head? = some link →
    link.formulaClass = some kind →
      OwnLink links origin.1.sheet.name origin.2.cell link.formula kind

def origins (rules : ObservationRules) (selector : Selector) : List (Line × Slot) :=
  (((lines text input reads).filter fun line => rules.selected selector line.line).flatMap
    fun line => (rowSlots selector line.line (contextAxes text input reads) line.built).map
      (line, ·)).take selector.limit

end

section

variable {text : ContextText} {input : BuildInput} {reads : CellReads} {line : Line}

theorem series_of_mem_lines (h : line ∈ lines text input reads) :
    line.line.series = (blockViews line.sheet line.block).map
      (text.rowSeries (blockReads input reads line.sheet line.block) line.sheet.name line.row
        line.line.scaleFactor) := by
  obtain ⟨current, hline, -⟩ := of_mem_lines h
  rw [hline]
  rfl

theorem row_of_mem_lines (h : line ∈ lines text input reads) :
    line.line.row = line.row.row ∧ line.line.sheet = line.sheet.name ∧
      line.line.rowKey = rowKey line.sheet.name line.row.row line.block.blockId := by
  obtain ⟨current, hline, -⟩ := of_mem_lines h
  rw [hline]
  exact ⟨rfl, rfl, rfl⟩

variable (text input reads line) in
theorem rowSeries_values (factor : Option ℕ) (view : String × List AxisHeader) :
    let series := text.rowSeries (blockReads input reads line.sheet line.block) line.sheet.name
      line.row factor view
    series.values = view.2.map (fun header => (line.entry text input reads view.2 header).1) ∧
      series.valueStatuses = view.2.map (fun header =>
        (line.entry text input reads view.2 header).2) ∧
      series.normalizedValues = series.values.map (text.amountIn series.values factor) := by
  simp only [ContextText.rowSeries, ContextText.seriesNumbers, List.map_map,
    ContextText.normalizeSeries_eq_map]
  exact ⟨rfl, rfl, trivial⟩

variable (text input reads line) in
theorem reading_rowSeries (factor : Option ℕ) (view : String × List AxisHeader) (place : ℕ) :
    let series := text.rowSeries (blockReads input reads line.sheet line.block) line.sheet.name
      line.row factor view
    cache (series.at place).text (series.at place).status =
        line.entryAt text input reads view.2 place ∧
      (series.at place).normalized =
        text.amountIn series.values factor (line.entryAt text input reads view.2 place).1 := by
  intro series
  obtain ⟨hvalues, hstatuses, hnormalized⟩ := rowSeries_values text input reads line factor view
  simp only [RowSeries.at, Line.entryAt]
  change series.values = _ at hvalues
  change series.valueStatuses = _ at hstatuses
  change series.normalizedValues = series.values.map (text.amountIn series.values factor)
    at hnormalized
  rw [hnormalized]
  simp only [List.getElem?_map]
  rw [hstatuses]
  generalize hamount : text.amountIn series.values factor = amount
  rw [hvalues]
  simp only [List.getElem?_map]
  cases view.2[place]? with
  | none =>
    refine ⟨rfl, ?_⟩
    rw [← hamount]
    rfl
  | some header => exact ⟨cache_seriesEntry _ _ _ _ _, rfl⟩

theorem holds_iff (h : line ∈ lines text input reads) {view : String × List AxisHeader}
    (hview : view ∈ blockViews line.sheet line.block) {cell : String} {value : Option String}
    {status : ValueStatus} {normalized : Option String} :
    line.Holds view.1 cell value status normalized ↔
      ∃ header ∈ view.2, formatAddr header.col line.row.row = cell ∧
        line.entry text input reads view.2 header = (value, status) ∧
          normalized = text.amountIn (text.rowSeries (blockReads input reads line.sheet line.block)
            line.sheet.name line.row line.line.scaleFactor view).values
              line.line.scaleFactor value := by
  unfold Line.Holds
  rw [series_of_mem_lines h, (row_of_mem_lines h).1]
  obtain ⟨hvalues, hstatuses, hnormalized⟩ := rowSeries_values text input reads line
    line.line.scaleFactor view
  constructor
  · rintro ⟨⟨view', series⟩, hzip, hid, place, header, hheader, hcell, hv, hs, hn⟩
    obtain ⟨hview', rfl⟩ := mem_zip_map.mp hzip
    obtain rfl := blockViews_unique hview' hview hid
    simp only [hnormalized, List.getElem?_map, hv] at hn
    simp only [hvalues, List.getElem?_map, hheader] at hv
    simp only [hstatuses, List.getElem?_map, hheader] at hs
    exact ⟨header, List.mem_of_getElem? hheader, hcell,
      Prod.ext (Option.some.inj hv) (Option.some.inj hs), (Option.some.inj hn).symm⟩
  · rintro ⟨header, hmem, hcell, hentry, rfl⟩
    obtain ⟨place, hplace⟩ := List.getElem?_of_mem hmem
    refine ⟨(view, _), mem_zip_map.mpr ⟨hview, rfl⟩, rfl, place, header, hplace, hcell, ?_, ?_, ?_⟩
    · simp [hvalues, List.getElem?_map, hplace, hentry]
    · simp [hstatuses, List.getElem?_map, hplace, hentry]
    · rw [hnormalized, List.getElem?_map]
      have hv : (text.rowSeries (blockReads input reads line.sheet line.block) line.sheet.name
          line.row line.line.scaleFactor view).values[place]? = some value := by
        simp [hvalues, List.getElem?_map, hplace, hentry]
      rw [hv]
      rfl

/-- Every slot is read from the series of its row on its axis. -/
def ReadFromSeries (text : ContextText) (input : BuildInput) (reads : CellReads) (line : Line)
    (slot : Slot) : Prop :=
  ∃ view ∈ blockViews line.sheet line.block, view.1 = slot.axisId ∧
    slot.reading = (text.rowSeries (blockReads input reads line.sheet line.block)
      line.sheet.name line.row line.line.scaleFactor view).at slot.place

theorem read_paramsRow (h : line ∈ lines text input reads) (hkind : line.block.kind = .params)
    {selector : Selector} {slot : Slot}
    (hslot : slot ∈ paramsRow selector line.line line.built) :
    ReadFromSeries text input reads line slot := by
  obtain ⟨-, -, hbuilt, -⟩ := of_mem_lines h
  obtain ⟨⟨cell, index⟩, -, rfl⟩ := List.mem_map.mp hslot
  have hid : line.built.blockId = line.block.blockId := by rw [hbuilt]; rfl
  have hviews : ∃ headers, blockViews line.sheet line.block = [(line.block.blockId, headers)] := by
    unfold blockViews
    simp only [hkind]
    exact ⟨_, rfl⟩
  obtain ⟨headers, hviews⟩ := hviews
  refine ⟨(line.block.blockId, headers), by rw [hviews]; exact List.mem_singleton.mpr rfl,
    hid.symm, ?_⟩
  have hseries := series_of_mem_lines h
  rw [hviews, List.map_singleton] at hseries
  have hfound : paramsSeries line.line line.built =
      some (text.rowSeries (blockReads input reads line.sheet line.block) line.sheet.name line.row
        line.line.scaleFactor (line.block.blockId, headers)) := by
    unfold paramsSeries
    rw [hseries, List.find?_cons_of_pos]
    simp [hid, ContextText.rowSeries]
  simp only [paramsSlot, paramsReading, hfound]

theorem mem_axisSlots {selector : Selector} {row : BlockRow} {axisId : String}
    {axis : ContextAxis} {series : RowSeries} {slot : Slot}
    (h : slot ∈ axisSlots selector row axisId axis series) :
    slot.axisId = axisId ∧ slot.reading = series.at slot.place ∧
      ∃ period, axis.periods[slot.place]? = some period ∧
        slot.cell = formatAddr period.col row.row := by
  obtain ⟨⟨period, index⟩, hp, rfl⟩ := List.mem_map.mp h
  have hperiod := List.mem_zipIdx_iff_getElem?.mp (List.mem_filter.mp hp).1
  exact ⟨rfl, rfl, period, hperiod, rfl⟩

theorem mem_timelineSlots {selector : Selector} {row : BlockRow} {axes : List ContextAxis}
    (hseries : row.series ≠ []) {used : Bool} {axisIds : List String} {slot : Slot}
    (h : slot ∈ timelineSlots selector row axes used axisIds) :
    ∃ axis series, axisById axes slot.axisId = some axis ∧
      seriesFor row slot.axisId = some series ∧
        slot ∈ axisSlots selector row slot.axisId axis series := by
  induction axisIds generalizing used with
  | nil => cases h
  | cons axisId axisIds ih =>
    unfold timelineSlots at h
    split at h
    · exact ih h
    · next axis haxis =>
      split at h
      · next series hfor =>
        rcases List.mem_append.mp h with h | h
        · obtain rfl := (mem_axisSlots h).1
          exact ⟨axis, series, haxis, hfor, h⟩
        · exact ih h
      · rw [if_pos (.inl hseries)] at h
        exact ih h

theorem mem_timelineRow (h : line ∈ lines text input reads) (hkind : line.block.kind = .timeline)
    {selector : Selector} {axes : List ContextAxis} {slot : Slot}
    (hslot : slot ∈ timelineRow selector line.line line.built axes) :
    ∃ axis series, axisById axes slot.axisId = some axis ∧
      seriesFor line.line slot.axisId = some series ∧
        slot ∈ axisSlots selector line.line slot.axisId axis series := by
  obtain ⟨-, -, hbuilt, -⟩ := of_mem_lines h
  have hseries := series_of_mem_lines h
  by_cases hnone : line.line.series = []
  · have hviews : blockViews line.sheet line.block = [] :=
      List.map_eq_nil_iff.mp (hseries.symm.trans hnone)
    have hids : line.built.axisIds = [] := by
      rw [hbuilt]
      simp [buildBlock, hkind, hviews]
    rw [timelineRow, hids, hnone] at hslot
    cases hslot
  · exact mem_timelineSlots hnone hslot

theorem series_of_seriesFor (h : line ∈ lines text input reads) {axisId : String}
    {series : RowSeries} (hfor : seriesFor line.line axisId = some series) :
    ∃ view ∈ blockViews line.sheet line.block, view.1 = axisId ∧
      series = text.rowSeries (blockReads input reads line.sheet line.block) line.sheet.name
        line.row line.line.scaleFactor view := by
  obtain ⟨hmem, hid⟩ := List.mem_filter.mp (List.mem_of_getLast? hfor)
  rw [series_of_mem_lines h] at hmem
  obtain ⟨view, hview, rfl⟩ := List.mem_map.mp hmem
  exact ⟨view, hview, of_decide_eq_true hid, rfl⟩

theorem read_rowSlots (h : line ∈ lines text input reads) {selector : Selector}
    {axes : List ContextAxis} {slot : Slot}
    (hslot : slot ∈ rowSlots selector line.line axes line.built) :
    ReadFromSeries text input reads line slot := by
  obtain ⟨-, -, hbuilt, -⟩ := of_mem_lines h
  have hbuiltKind : line.built.kind = line.block.kind := by rw [hbuilt]; rfl
  unfold rowSlots at hslot
  rw [hbuiltKind] at hslot
  cases hkind : line.block.kind with
  | params =>
    rw [hkind] at hslot
    exact read_paramsRow h hkind hslot
  | timeline =>
    rw [hkind] at hslot
    obtain ⟨axis, series, -, hfor, hin⟩ := mem_timelineRow h hkind hslot
    obtain ⟨view, hview, hid, rfl⟩ := series_of_seriesFor h hfor
    exact ⟨view, hview, hid, (mem_axisSlots hin).2.1⟩

theorem holds_observation_iff (h : line ∈ lines text input reads) {slot : Slot}
    (hread : ReadFromSeries text input reads line slot) (links : List FormulaLink) :
    line.Holds slot.axisId slot.cell (observation links line.line slot).value
        (observation links line.line slot).valueStatus
        (observation links line.line slot).normalizedValue ↔
      PlaceFits text input reads (line, slot) := by
  obtain ⟨view, hview, hid, hreading⟩ := hread
  obtain ⟨hcache, hamount⟩ := reading_rowSeries text input reads line line.line.scaleFactor view
    slot.place
  rw [← hreading] at hcache hamount
  have hshown : ((observation links line.line slot).value,
      (observation links line.line slot).valueStatus) =
        line.entryAt text input reads view.2 slot.place := hcache
  have hvalue : (observation links line.line slot).value =
      (line.entryAt text input reads view.2 slot.place).1 := congrArg Prod.fst hcache
  rw [← hid, holds_iff h hview]
  constructor
  · rintro ⟨header, hmem, hcell, hentry, -⟩
    exact ⟨view, hview, hid, header, hmem, hcell, hshown.symm.trans hentry.symm⟩
  · rintro ⟨view', hview', hid', header, hmem, hcell, hfits⟩
    obtain rfl := blockViews_unique hview' hview (hid'.trans hid.symm)
    refine ⟨header, hmem, hcell, hfits.symm.trans hshown.symm, ?_⟩
    rw [hvalue]
    exact hamount

theorem pickLink_eq (links : List FormulaLink) (key periodId cell : String) :
    pickLink links key periodId cell =
      ((linksByPair links key periodId).filter (·.wears cell) ++
        linksByPair links key periodId).head? := by
  rw [pickLink, List.head?_append, List.head?_filter]

theorem link_observation_iff (h : line ∈ lines text input reads) (slot : Slot)
    (links : List FormulaLink) :
    (∀ kind, (observation links line.line slot).formula.formulaClass = some kind →
      OwnLink links (observation links line.line slot).source.sheet
        (observation links line.line slot).source.cell
        (observation links line.line slot).formula.text kind) ↔ LinkFits links (line, slot) := by
  obtain ⟨-, hsheet, hkey⟩ := row_of_mem_lines h
  unfold LinkFits
  simp only [← pickLink_eq]
  rw [← hkey]
  simp only [observation, observationFormula, hsheet]
  cases pickLink links line.line.rowKey slot.periodId slot.cell with
  | none => simp
  | some link =>
    constructor
    · intro hown picked kind hpicked hkind
      rw [← Option.some.inj hpicked] at hkind ⊢
      exact hown kind hkind
    · intro hfits kind hkind
      exact hfits link kind rfl hkind

theorem reports_iff (h : line ∈ lines text input reads) {selector : Selector}
    {axes : List ContextAxis} {slot : Slot}
    (hslot : slot ∈ rowSlots selector line.line axes line.built) (links : List FormulaLink) :
    Reports links (line, slot) (observation links line.line slot) ↔
      PlaceFits text input reads (line, slot) ∧ LinkFits links (line, slot) :=
  and_congr (holds_observation_iff h (read_rowSlots h hslot) links)
    (link_observation_iff h slot links)

theorem found_buildContext (rules : ObservationRules) (links : List FormulaLink)
    (selector : Selector) :
    rules.found (buildContext text input reads) links selector =
      ((lines text input reads).filter fun line => rules.selected selector line.line).flatMap
        fun line => (rowSlots selector line.line (contextAxes text input reads) line.built).map
          (observation links line.line) := by
  have hblock (sheet : SheetLayout) (block : Block) :
      (((buildBlock text input reads (contextAxes text input reads) sheet block).rows.filter
        (rules.selected selector)).flatMap fun row =>
          (rowSlots selector row (contextAxes text input reads)
            (buildBlock text input reads (contextAxes text input reads) sheet block)).map
              (observation links row)) =
      ((linesOf text input reads sheet block).filter
        fun line => rules.selected selector line.line).flatMap fun line =>
          (rowSlots selector line.line (contextAxes text input reads) line.built).map
            (observation links line.line) := by
    have hlength : (buildBlock text input reads (contextAxes text input reads) sheet
        block).rows.length ≤ block.rows.length :=
      (text.length_blockRows _ _ _ _ _ _).le
    have hrows := List.map_snd_zip hlength
    rw [linesOf, List.filter_map, List.flatMap_map]
    conv_lhs => rw [← hrows, List.filter_map, List.flatMap_map]
    rfl
  have hsheet (sheet : SheetLayout) : ((sheet.blocks.map (buildBlock text input reads
      (contextAxes text input reads) sheet)).flatMap fun block =>
        (block.rows.filter (rules.selected selector)).flatMap fun row =>
          (rowSlots selector row (contextAxes text input reads) block).map
            (observation links row)) =
      ((sheet.blocks.flatMap (linesOf text input reads sheet)).filter
        fun line => rules.selected selector line.line).flatMap fun line =>
          (rowSlots selector line.line (contextAxes text input reads) line.built).map
            (observation links line.line) := by
    rw [List.flatMap_map, List.filter_flatMap, List.flatMap_assoc]
    exact List.flatMap_congr fun block _ => hblock sheet block
  rw [lines, List.filter_flatMap, List.flatMap_assoc]
  simp only [← hsheet]
  rw [← List.flatMap_assoc]
  rfl

theorem reports_withPrecedents (rules : ObservationRules) (context : ContextDocument)
    (selector : Selector) (links : List FormulaLink) (origin : Line × Slot) (item : Observation) :
    Reports links origin (rules.withPrecedents context selector item) ↔
      Reports links origin item := by
  unfold ObservationRules.withPrecedents
  split
  · rfl
  · split_ifs <;> rfl

variable (text input reads) in
theorem forall₂_reports_iff (rules : ObservationRules) (links : List FormulaLink)
    (selector : Selector) :
    List.Forall₂ (Reports links) (origins text input reads rules selector)
      (((rules.found (buildContext text input reads) links selector).take selector.limit).map
        (rules.withPrecedents (buildContext text input reads) selector)) ↔
      ∀ origin ∈ origins text input reads rules selector,
        PlaceFits text input reads origin ∧ LinkFits links origin := by
  have hfound : (rules.found (buildContext text input reads) links selector).take
      selector.limit = (origins text input reads rules selector).map
        fun origin => observation links origin.1.line origin.2 := by
    rw [found_buildContext, origins, List.map_take, List.map_flatMap]
    simp only [List.map_map]
    rfl
  rw [hfound, List.map_map, List.forall₂_map_right_iff, List.forall₂_same]
  refine forall₂_congr fun origin horigin => ?_
  obtain ⟨line, hline, hslots⟩ := List.mem_flatMap.mp (List.mem_of_mem_take horigin)
  obtain ⟨slot, hslot, rfl⟩ := List.mem_map.mp hslots
  rw [← reports_iff (List.mem_filter.mp hline).1 hslot links]
  exact reports_withPrecedents rules _ selector links (line, slot) _

/-- The observations of a document are right about the cells they name exactly when each is read
at a place, and from a link, that fits its cell. -/
theorem observations_align_iff (text : ContextText) (input : BuildInput) (reads : CellReads)
    (rules : ObservationRules) (links : List FormulaLink) (selector : Selector) :
    (∀ document, rules.buildObservations (buildContext text input reads) links selector =
        some document →
      List.Forall₂ (Reports links) (origins text input reads rules selector)
        document.observations) ↔
      (selector.rowKeys ≠ [] ∨ rules.strip selector.q ≠ "" →
        ∀ origin ∈ origins text input reads rules selector,
          PlaceFits text input reads origin ∧ LinkFits links origin) := by
  have hreports := forall₂_reports_iff text input reads rules links selector
  unfold ObservationRules.buildObservations
  constructor
  · intro h hgiven
    refine hreports.mp (h _ (if_neg ?_))
    rintro ⟨hkeys, hq⟩
    exact hgiven.elim (· hkeys) (· hq)
  · intro h document hdocument
    split_ifs at hdocument with hnone
    rw [← Option.some.inj hdocument]
    refine hreports.mpr (h ?_)
    by_cases hkeys : selector.rowKeys = []
    · exact .inr fun hq => hnone ⟨hkeys, hq⟩
    · exact .inl hkeys

theorem placeFits_of_getElem {origin : Line × Slot} {view : String × List AxisHeader}
    (hview : view ∈ blockViews origin.1.sheet origin.1.block) (hid : view.1 = origin.2.axisId)
    {header : AxisHeader} (hplace : view.2[origin.2.place]? = some header)
    (hcell : formatAddr header.col origin.1.row.row = origin.2.cell) :
    PlaceFits text input reads origin := by
  refine ⟨view, hview, hid, header, List.mem_of_getElem? hplace, hcell, ?_⟩
  rw [Line.entryAt, hplace]
  rfl

end

/-- An axis id means one axis in the whole book. -/
def Layout.AxesNamed (layout : Layout) : Prop :=
  ∀ sheet ∈ layout.sheets, ∀ block ∈ sheet.blocks, ∀ axis ∈ axesFor sheet block,
    ∀ other ∈ layout.sheets, ∀ named ∈ other.contextAxes, named.id = axis.id → named = axis

section

variable {text : ContextText} {input : BuildInput} {reads : CellReads} {line : Line}

theorem placeFits_timeline (haxes : input.layout.AxesNamed) (h : line ∈ lines text input reads)
    (hkind : line.block.kind = .timeline) {selector : Selector} {slot : Slot}
    (hslot : slot ∈ timelineRow selector line.line line.built (contextAxes text input reads)) :
    PlaceFits text input reads (line, slot) := by
  obtain ⟨current, hline, -, hsheet, hblock⟩ := of_mem_lines h
  obtain ⟨axis, series, haxis, hfor, hin⟩ := mem_timelineRow h hkind hslot
  obtain ⟨-, -, period, hperiod, hcell⟩ := mem_axisSlots hin
  obtain ⟨view, hview, hid, -⟩ := series_of_seriesFor h hfor
  have hviews := hview
  unfold blockViews at hviews
  simp only [hkind] at hviews
  obtain ⟨own, hown, rfl⟩ := List.mem_map.mp hviews
  obtain ⟨hpublished, hnamed⟩ := List.mem_filter.mp (List.mem_of_getLast? haxis)
  obtain ⟨other, hother, hbuilt⟩ := List.mem_flatMap.mp hpublished
  obtain ⟨named, hmem, hannotated⟩ := List.mem_filterMap.mp hbuilt
  unfold ContextText.annotateAxis at hannotated
  split_ifs at hannotated
  have haxis' := Option.some.inj hannotated
  have hnameId : named.id = own.id := by
    have hslotId : axis.id = slot.axisId := of_decide_eq_true hnamed
    rw [← haxis'] at hslotId
    exact hslotId.trans hid.symm
  obtain rfl := haxes _ hsheet _ hblock own hown other hother named (List.mem_filter.mp hmem).1
    hnameId
  rw [← haxis'] at hperiod
  simp only [List.getElem?_map, List.getElem?_zipIdx] at hperiod
  obtain ⟨⟨source, index⟩, hsource, rfl⟩ := Option.map_eq_some_iff.mp hperiod
  obtain ⟨source', hplace, hpair⟩ := Option.map_eq_some_iff.mp hsource
  obtain ⟨rfl, -⟩ := Prod.mk.inj hpair
  have hheader : (named.seriesPeriods.map AxisPeriod.header)[slot.place]? =
      some source'.header := by
    rw [List.getElem?_map, hplace]
    rfl
  have hown : formatAddr source'.header.col line.row.row = slot.cell := by
    rw [hcell, (row_of_mem_lines h).1]
    rfl
  exact placeFits_of_getElem hview hid hheader hown

theorem placeFits_params (h : line ∈ lines text input reads) {headers : List AxisHeader}
    (hview : (line.block.blockId, headers) ∈ blockViews line.sheet line.block)
    (hcells : (valueCells line.line).map (·.col) = headers.map (·.col)) {selector : Selector}
    {slot : Slot} (hslot : slot ∈ paramsRow selector line.line line.built) :
    PlaceFits text input reads (line, slot) := by
  obtain ⟨current, hline, hbuilt, -⟩ := of_mem_lines h
  obtain ⟨⟨cell, index⟩, hp, rfl⟩ := List.mem_map.mp hslot
  have hcell := List.mem_zipIdx_iff_getElem?.mp (List.mem_filter.mp hp).1
  have hcol : (headers.map (·.col))[index]? = some cell.col := by
    rw [← hcells, List.getElem?_map, hcell]
    rfl
  rw [List.getElem?_map] at hcol
  obtain ⟨header, hheader, hsame⟩ := Option.map_eq_some_iff.mp hcol
  have hrole : ∃ item ∈ line.row.cells, cell =
      text.roleCell (blockReads input reads line.sheet line.block).cells line.sheet.name
        line.row item := by
    have hmem := (List.mem_insertionSort _).mp (List.mem_of_getElem? hcell)
    have hin := (List.mem_filter.mp hmem).1
    rw [hline] at hin
    obtain ⟨item, hitem, hbuilt⟩ := List.mem_map.mp hin
    exact ⟨item, hitem, hbuilt.symm⟩
  obtain ⟨item, -, hitem⟩ := hrole
  refine placeFits_of_getElem hview ?_ hheader ?_
  · rw [hbuilt]
    rfl
  · have haddr : cell.addr = formatAddr cell.col line.row.row := by
      rw [hitem]
      rfl
    have hslotCell : (paramsSlot line.line line.built cell index).cell = cell.addr :=
      if_pos (haddr ▸ formatAddr_ne_empty _ _)
    rw [hsame]
    exact haddr.symm.trans hslotCell.symm

end

section

instance (text : ContextText) (input : BuildInput) (reads : CellReads) (origin : Line × Slot) :
    Decidable (PlaceFits text input reads origin) := by
  unfold PlaceFits
  infer_instance

def gapCells : List Cell :=
  [⟨"S", 2, 1, place_two, place_one, none, none, some "Rate", none, false, false⟩,
   ⟨"S", 2, 3, place_two, place_three, none, none, some "5", none, false, false⟩]

def gapInput : BuildInput where
  sheets := [{ name := "S" }]
  definedNames := []
  layout := ⟨[{
    name := "S"
    blocks := [{
      blockId := "S!params"
      labelCol := 1
      kind := .params
      axis := some ⟨"S!params", 1,
        [{ col := 2, text := "Low", role := some .value, periodKey := "Low" },
         { col := 3, text := "High", role := some .value, periodKey := "High" }]⟩
      rows := [{ row := 2, label := "Rate"
                 cells := [{ col := 3, role := .value, header := some "High" }] }] }] }]⟩

def gapReads : CellReads := memoryReads .literal gapInput gapCells

def gapRules : ObservationRules where
  strip value := value
  ownLabelContains _ _ := false

/-- The one value of the row is read at the place of the empty column. -/
theorem gappedRow_misread :
    ∃ document, gapRules.buildObservations (buildContext .literal gapInput gapReads) []
        { rowKeys := ["S|2|S!params"] } = some document ∧
      ¬List.Forall₂ (Reports []) (origins .literal gapInput gapReads gapRules
        { rowKeys := ["S|2|S!params"] }) document.observations := by
  refine ⟨_, if_neg (by decide), fun h => ?_⟩
  have hfits := (forall₂_reports_iff _ _ _ gapRules [] _).mp h
  have hmisplaced : ¬∀ origin ∈ origins .literal gapInput gapReads gapRules
      { rowKeys := ["S|2|S!params"] }, PlaceFits .literal gapInput gapReads origin := by
    decide +kernel
  exact hmisplaced fun origin horigin => (hfits origin horigin).1

end

end FinanceContext
