import FinanceContext.RowParents
import Mathlib.Data.Fintype.Card
import Mathlib.Data.Fintype.EquivFin
import Mathlib.Data.List.Nodup

namespace FinanceContext.Rows

open ParentScans Relation

variable (text : LabelText)

section Readings

variable (seed : Option LayoutRow)

/-- No title of a header row. -/
def Own (item : LayoutRow) : Prop := item ∉ seed

/-- A row whose parent is a row put out before it. -/
def Hangs (out : List LayoutRow) (item : LayoutRow) : Prop :=
  ∃ parent ∈ out, item.parentRow = some parent.row

theorem Hangs.append {out : List LayoutRow} {item : LayoutRow} (h : Hangs out item)
    (more : List LayoutRow) : Hangs (out ++ more) item := by
  obtain ⟨parent, hparent, hrow⟩ := h
  exact ⟨parent, List.mem_append_left more hparent, hrow⟩

/-- What holds of the rows between two turns of the loop. -/
structure Hung (out stack : List LayoutRow) : Prop where
  ascending : out.Pairwise fun a b => a.row < b.row
  outside : ∀ item ∈ out, ∀ title ∈ seed, item.row ≠ title.row
  sections : ∀ item ∈ stack, Own seed item → item ∈ out ∧ text.isUnitText item.label = false
  sorted : stack.Pairwise fun a b => b.indent < a.indent
  titleLast : stack.Pairwise fun a b => Own seed b → Own seed a
  shallower : ∀ q ∈ out, ∀ r ∈ out, q.row < r.row → text.isUnitText q.label = false →
    q.indent < r.indent → Hangs out r
  behind : ∀ q ∈ stack, Own seed q → ∀ r ∈ out, q.row < r.row →
    text.isUnitText r.label = false → Hangs out r
  crossing : ∀ j ∈ out, ∀ q ∈ out, j.parentRow = some q.row → ∀ r ∈ out, q.row < r.row →
    r.row < j.row → text.isUnitText r.label = false → Hangs out r
  above : ∀ j ∈ out, ∀ p, j.parentRow = some p →
    (∃ q ∈ out, q.row = p ∧ p < j.row) ∨ ∃ title ∈ seed, p = title.row

variable {text seed} {out stack : List LayoutRow}

theorem Hung.eq_of_row (h : Hung text seed out stack) {a b : LayoutRow} (ha : a ∈ out)
    (hb : b ∈ out) (hrow : a.row = b.row) : a = b := by
  have hnodup : (out.map (·.row)).Nodup :=
    List.pairwise_map.mpr (h.ascending.imp fun hlt => by omega)
  exact List.inj_on_of_nodup_map hnodup ha hb hrow

variable (text) in
theorem parentOf_cases (kind : RowKind) (parents sections : List LayoutRow) (r : RowRead) :
    parentOf text kind parents sections r = indentParent parents r.indent ∨
      ∃ top ∈ sections.head?, parentOf text kind parents sections r = some top.row := by
  unfold parentOf
  cases sections with
  | nil => exact .inl rfl
  | cons top sections =>
    dsimp only
    split_ifs
    · exact .inr ⟨top, rfl, rfl⟩
    · exact .inr ⟨top, rfl, rfl⟩
    · exact .inr ⟨top, rfl, rfl⟩
    · exact .inl rfl

theorem Hung.top_mem (h : Hung text seed out stack) {sections : List LayoutRow}
    (hsuffix : sections <:+ stack) {item : LayoutRow} (hitem : item ∈ sections)
    (hown : Own seed item) : ∃ top, sections.head? = some top ∧ top ∈ out := by
  cases sections with
  | nil => cases hitem
  | cons top sections =>
    have htop : top ∈ stack := hsuffix.subset List.mem_cons_self
    have howns : Own seed top := by
      rcases List.mem_cons.mp hitem with rfl | hlater
      · exact hown
      · exact (List.pairwise_cons.mp (h.titleLast.sublist hsuffix.sublist)).1 item hlater hown
    exact ⟨top, rfl, (h.sections top htop howns).1⟩

variable (text) in
theorem suffix_popSections (kind : RowKind) (stack : List LayoutRow) (r : RowRead) :
    popSections text kind stack r <:+ stack := by
  unfold popSections
  split_ifs
  · exact List.suffix_rfl
  · exact List.dropWhile_suffix _
  · exact List.dropWhile_suffix _

theorem shallower_of_mem_popSections {stack : List LayoutRow} {r : RowRead}
    (hsorted : stack.Pairwise fun a b => b.indent < a.indent)
    (hunit : text.isUnitText r.label = false) {item : LayoutRow}
    (hitem : item ∈ popSections text .abstract stack r) : item.indent < r.indent := by
  unfold popSections at hitem
  rw [if_neg (by simp [hunit]), if_pos rfl] at hitem
  have hrest := hsorted.sublist (List.dropWhile_sublist fun item => decide (r.indent ≤ item.indent))
  cases hdrop : stack.dropWhile fun item => decide (r.indent ≤ item.indent) with
  | nil =>
    rw [hdrop] at hitem
    cases hitem
  | cons top rest =>
    have htop : ¬r.indent ≤ top.indent := by
      have hhead := List.head?_dropWhile_not (fun item => decide (r.indent ≤ item.indent)) stack
      rw [hdrop] at hhead
      simpa using hhead
    rw [hdrop] at hitem hrest
    rcases List.mem_cons.mp hitem with rfl | hlater
    · omega
    · have hlt := (List.pairwise_cons.mp hrest).1 item hlater
      omega

end Readings

section Step

variable {text} {seed : Option LayoutRow} {s : Reading} {r : RowRead}

/-- The facts about a loop and the row it reads next. -/
structure Next (text : LabelText) (seed : Option LayoutRow) (s : Reading) (r : RowRead) :
    Prop where
  hung : Hung text seed s.out s.sectionStack
  parents : ∀ indent, indentParent s.parentStack indent = (nearest (·.indent)
    (fun item => text.isUnitText item.label) s.out indent).map (·.row)
  later : ∀ item ∈ s.out, item.row < r.row
  outside : ∀ title ∈ seed, r.row ≠ title.row

variable (h : Next text seed s r)

include h

theorem Next.mem_of_indentParent {p : ℕ} (hp : indentParent s.parentStack r.indent = some p) :
    ∃ q ∈ s.out, q.row = p ∧ text.isUnitText q.label = false ∧ q.indent < r.indent ∧
      ∀ c ∈ s.out, q.row < c.row → text.isUnitText c.label = false → r.indent ≤ c.indent := by
  rw [h.parents] at hp
  obtain ⟨q, hq, rfl⟩ := Option.map_eq_some_iff.mp hp
  obtain ⟨before, behind, hsplit, hskip, hindent, hbehind⟩ := nearest_eq_some hq
  refine ⟨q, ?_, rfl, hskip, hindent, fun c hc hrow hunit => ?_⟩
  · rw [hsplit]
    exact List.mem_append_right _ List.mem_cons_self
  · apply hbehind c _ hunit
    have hascending := h.hung.ascending
    rw [hsplit] at hc hascending
    rcases List.mem_append.mp hc with hbefore | hlater
    · have hlt := (List.pairwise_append.mp hascending).2.2 c hbefore q List.mem_cons_self
      omega
    · rcases List.mem_cons.mp hlater with rfl | hbehind'
      · omega
      · exact hbehind'

theorem Next.hangs_of_indentParent {p : ℕ}
    (hp : indentParent s.parentStack r.indent = some p) :
    Hangs s.out (layoutRow text s r) := by
  obtain ⟨q, hq, rfl, -⟩ := h.mem_of_indentParent hp
  have hsuffix := suffix_popSections text (finalKind text s r) s.sectionStack r
  change ∃ parent ∈ s.out, parentOf text _ s.parentStack (popSections text _ s.sectionStack r) r =
    some parent.row
  generalize popSections text (finalKind text s r) s.sectionStack r = sections at hsuffix
  unfold parentOf
  cases sections with
  | nil => exact ⟨q, hq, hp⟩
  | cons top sections =>
    simp only [hp, reduceCtorEq, false_and, if_false, false_or]
    split_ifs with htotal
    · obtain ⟨item, hitem, hrow⟩ := List.mem_map.mp htotal.2
      have hown : Own seed item := fun htitle =>
        h.hung.outside q hq item htitle (Option.some.inj hrow).symm
      obtain ⟨top', htop, hmem⟩ := h.hung.top_mem hsuffix hitem hown
      obtain rfl := Option.some.inj htop
      exact ⟨top, hmem, rfl⟩
    · exact ⟨q, hq, rfl⟩

theorem Next.hangs_of_shallower {q : LayoutRow} (hq : q ∈ s.out)
    (hunit : text.isUnitText q.label = false) (hindent : q.indent < r.indent) :
    Hangs s.out (layoutRow text s r) := by
  have hsome := @nearest_isSome _ (·.indent)
    (fun item => text.isUnitText item.label) _ _ _ hq hunit hindent
  obtain ⟨p, hp⟩ := Option.isSome_iff_exists.mp hsome
  apply h.hangs_of_indentParent (p := p.row)
  rw [h.parents, hp]
  rfl

theorem Next.hangs_of_section {item : LayoutRow}
    (hitem : item ∈ popSections text (finalKind text s r) s.sectionStack r)
    (hown : Own seed item) (hkind : finalKind text s r ≠ .abstract) :
    Hangs s.out (layoutRow text s r) := by
  cases hp : indentParent s.parentStack r.indent with
  | some p => exact h.hangs_of_indentParent hp
  | none =>
    have hsuffix := suffix_popSections text (finalKind text s r) s.sectionStack r
    obtain ⟨top, htop, hmem⟩ := h.hung.top_mem hsuffix hitem hown
    change ∃ parent ∈ s.out, parentOf text _ s.parentStack
      (popSections text _ s.sectionStack r) r = some parent.row
    generalize popSections text (finalKind text s r) s.sectionStack r = sections at htop
    refine ⟨top, hmem, ?_⟩
    cases sections with
    | nil => cases htop
    | cons top' sections =>
      obtain rfl := Option.some.inj htop
      unfold parentOf
      simp [hp, hkind]

theorem Next.above {p : ℕ} (hp : (layoutRow text s r).parentRow = some p) :
    (∃ q ∈ s.out, q.row = p ∧ p < r.row) ∨ ∃ title ∈ seed, p = title.row := by
  have hsuffix := suffix_popSections text (finalKind text s r) s.sectionStack r
  rcases parentOf_cases text (finalKind text s r) s.parentStack
    (popSections text (finalKind text s r) s.sectionStack r) r with hparent | ⟨top, htop, hparent⟩
  · obtain ⟨q, hq, rfl, -⟩ := h.mem_of_indentParent (hparent.symm.trans hp)
    exact .inl ⟨q, hq, rfl, h.later q hq⟩
  · obtain rfl := Option.some.inj (hparent.symm.trans hp)
    have hmem : top ∈ s.sectionStack := hsuffix.subset (List.mem_of_mem_head? htop)
    by_cases hown : Own seed top
    · have hout := (h.hung.sections top hmem hown).1
      exact .inl ⟨top, hout, rfl, h.later top hout⟩
    · exact .inr ⟨top, Classical.not_not.mp hown, rfl⟩

theorem Next.crossing {q : LayoutRow} (hq : q ∈ s.out)
    (hparent : (layoutRow text s r).parentRow = some q.row) {c : LayoutRow} (hc : c ∈ s.out)
    (hrow : q.row < c.row) (hunit : text.isUnitText c.label = false) : Hangs s.out c := by
  have hsuffix := suffix_popSections text (finalKind text s r) s.sectionStack r
  rcases parentOf_cases text (finalKind text s r) s.parentStack
    (popSections text (finalKind text s r) s.sectionStack r) r with hcase | ⟨top, htop, hcase⟩
  · obtain ⟨q', hq', hsame, hskip, hindent, hbetween⟩ :=
      h.mem_of_indentParent (hcase.symm.trans hparent)
    obtain rfl := h.hung.eq_of_row hq' hq hsame
    have hdeeper := hbetween c hc hrow hunit
    exact h.hung.shallower q' hq c hc hrow hskip (by omega)
  · have hsame := Option.some.inj (hcase.symm.trans hparent)
    have hmem : top ∈ s.sectionStack := hsuffix.subset (List.mem_of_mem_head? htop)
    have hown : Own seed top := fun htitle => h.hung.outside q hq top htitle hsame.symm
    exact h.hung.behind top hmem hown c hc (by omega) hunit

theorem Next.step : Hung text seed (readRow text s r).out (readRow text s r).sectionStack := by
  have hsuffix := suffix_popSections text (finalKind text s r) s.sectionStack r
  have hkept : ∀ item ∈ popSections text (finalKind text s r) s.sectionStack r,
      item ∈ s.sectionStack := fun item hitem => hsuffix.subset hitem
  have hlast {c : LayoutRow} (hc : c ∈ s.out ++ [layoutRow text s r]) :
      c ∈ s.out ∨ c = layoutRow text s r := by
    simpa using hc
  have hfirst {q : LayoutRow} (hq : q ∈ s.out ++ [layoutRow text s r]) {c : LayoutRow}
      (hc : c ∈ s.out ++ [layoutRow text s r]) (hrow : q.row < c.row) : q ∈ s.out := by
    rcases hlast hq with hq | rfl
    · exact hq
    · rcases hlast hc with hc | rfl
      · have := h.later c hc
        have hrow' : r.row < c.row := hrow
        omega
      · omega
  have hpushed : (readRow text s r).sectionStack =
      if finalKind text s r = .abstract ∧ text.isUnitText r.label = false then
        layoutRow text s r :: popSections text (finalKind text s r) s.sectionStack r
      else popSections text (finalKind text s r) s.sectionStack r := by
    unfold readRow
    simp [layoutRow]
  have hsections : ∀ item ∈ (readRow text s r).sectionStack,
      item ∈ popSections text (finalKind text s r) s.sectionStack r ∨
        item = layoutRow text s r ∧ text.isUnitText r.label = false := by
    intro item hitem
    rw [hpushed] at hitem
    split_ifs at hitem with habstract
    · rcases List.mem_cons.mp hitem with rfl | hitem
      · exact .inr ⟨rfl, habstract.2⟩
      · exact .inl hitem
    · exact .inl hitem
  change Hung text seed (s.out ++ [layoutRow text s r]) _
  refine ⟨?_, ?_, ?_, ?_, ?_, ?_, ?_, ?_, ?_⟩
  · refine List.pairwise_append.mpr ⟨h.hung.ascending, List.pairwise_singleton _ _, ?_⟩
    intro item hitem last hlast
    rw [List.mem_singleton.mp hlast]
    exact h.later item hitem
  · intro item hitem title htitle
    rcases hlast hitem with hitem | rfl
    · exact h.hung.outside item hitem title htitle
    · exact h.outside title htitle
  · intro item hitem hown
    rcases hsections item hitem with hitem | ⟨rfl, hunit⟩
    · obtain ⟨hout, hunit⟩ := h.hung.sections item (hkept item hitem) hown
      exact ⟨List.mem_append_left _ hout, hunit⟩
    · refine ⟨List.mem_append_right _ (List.mem_singleton_self _), ?_⟩
      rw [isUnitText_layoutRow, hunit]
  · have hold := h.hung.sorted.sublist hsuffix.sublist
    rw [hpushed]
    split_ifs with habstract
    · refine List.pairwise_cons.mpr ⟨fun item hitem => ?_, hold⟩
      rw [habstract.1] at hitem
      exact shallower_of_mem_popSections h.hung.sorted habstract.2 hitem
    · exact hold
  · have hold := h.hung.titleLast.sublist hsuffix.sublist
    rw [hpushed]
    split_ifs with habstract
    · refine List.pairwise_cons.mpr ⟨fun _ _ _ htitle => ?_, hold⟩
      exact h.outside _ htitle rfl
    · exact hold
  · intro q hq c hc hrow hunit hindent
    have hq' := hfirst hq hc hrow
    rcases hlast hc with hc | rfl
    · exact (h.hung.shallower q hq' c hc hrow hunit hindent).append _
    · exact (h.hangs_of_shallower hq' hunit hindent).append _
  · intro q hq hown c hc hrow hunit
    rcases hsections q hq with hq | ⟨rfl, -⟩
    · rcases hlast hc with hc | rfl
      · exact (h.hung.behind q (hkept q hq) hown c hc hrow hunit).append _
      · rw [isUnitText_layoutRow] at hunit
        by_cases hkind : finalKind text s r = .abstract
        · obtain ⟨hout, hskip⟩ := h.hung.sections q (hkept q hq) hown
          rw [hkind] at hq
          have hindent := shallower_of_mem_popSections h.hung.sorted hunit hq
          exact (h.hangs_of_shallower hout hskip hindent).append _
        · exact (h.hangs_of_section hq hown hkind).append _
    · have hmem := hfirst (List.mem_append_right _ (List.mem_singleton_self _)) hc hrow
      have hlt := h.later _ hmem
      exact absurd hlt (Nat.lt_irrefl _)
  · intro j hj q hq hparent c hc hrow hrow' hunit
    have hc' := hfirst hc hj hrow'
    have hq' := hfirst hq hc hrow
    rcases hlast hj with hj | rfl
    · exact (h.hung.crossing j hj q hq' hparent c hc' hrow hrow' hunit).append _
    · exact (h.crossing hq' hparent hc' hrow hunit).append _
  · intro j hj p hp
    have hcases : (∃ q ∈ s.out, q.row = p ∧ p < j.row) ∨ ∃ title ∈ seed, p = title.row := by
      rcases hlast hj with hj | rfl
      · exact h.hung.above j hj p hp
      · exact h.above hp
    rcases hcases with ⟨q, hq, hsame⟩ | htitle
    · exact .inl ⟨q, List.mem_append_left _ hq, hsame⟩
    · exact .inr htitle

end Step

section Runs

variable {text} {seed : Option LayoutRow}

variable (text) in
theorem rows_readRows (seed : Option LayoutRow) (rows : List RowRead) :
    (readRows text seed rows).out.map (·.row) = rows.map (·.row) := by
  have hkeys := congrArg (List.map Prod.fst) (keys_readRows text seed rows)
  simpa only [List.map_map, Function.comp_def] using hkeys

theorem hung_readRows {rows : List RowRead} (hascending : rows.Pairwise fun a b => a.row < b.row)
    (houtside : ∀ title ∈ seed, ∀ r ∈ rows, r.row ≠ title.row) :
    Hung text seed (readRows text seed rows).out (readRows text seed rows).sectionStack := by
  induction rows using List.reverseRecOn with
  | nil =>
    have htitle : ∀ item ∈ seed.toList, ¬Own seed item := fun item hitem hown =>
      hown (Option.mem_toList.mp hitem)
    have hsingle (p : LayoutRow → LayoutRow → Prop) : seed.toList.Pairwise p := by
      cases seed with
      | none => exact .nil
      | some title => exact List.pairwise_singleton _ _
    refine ⟨.nil, ?_, ?_, hsingle _, hsingle _, ?_, ?_, ?_, ?_⟩
    · exact fun item hitem => nomatch hitem
    · exact fun item hitem hown => absurd hown (htitle item hitem)
    · exact fun q hq => nomatch hq
    · exact fun q hq hown => absurd hown (htitle q hq)
    · exact fun j hj => nomatch hj
    · exact fun j hj => nomatch hj
  | append_singleton rows r ih =>
    obtain ⟨hbefore, -, hlater⟩ := List.pairwise_append.mp hascending
    have hhung := ih hbefore fun title htitle r' hr' =>
      houtside title htitle r' (List.mem_append_left _ hr')
    rw [readRows_append]
    apply Next.step
    refine ⟨hhung, indentParent_eq_nearest text seed rows, fun item hitem => ?_, fun title htitle => ?_⟩
    · have hrow : item.row ∈ rows.map (·.row) := by
        rw [← rows_readRows text seed rows]
        exact List.mem_map_of_mem hitem
      obtain ⟨r', hr', hsame⟩ := List.mem_map.mp hrow
      have hlt := hlater r' hr' r (List.mem_singleton_self r)
      omega
    · exact houtside title htitle r (List.mem_append_right _ (List.mem_singleton_self r))

end Runs

section Outlines

/-- The row at an index takes another, its summary row, as its parent. -/
def TakesAt (levels : List ℕ) (unit : List Bool) (rows : List LayoutRow) (summaryBelow : Bool)
    (index : ℕ) (row summary : LayoutRow) : Prop :=
  ∃ p, rows[p]? = some summary ∧ 1 < levelAt levels index ∧
    scanOutline levels unit summaryBelow index = some p ∧ 0 < levelAt levels p ∧
    ∀ above, row.parentRow = some above →
      if summaryBelow then summary.row < above else above < summary.row

def Takes (levels : List ℕ) (unit : List Bool) (rows : List LayoutRow) (summaryBelow : Bool)
    (row summary : LayoutRow) : Prop :=
  ∃ i, rows[i]? = some row ∧ TakesAt levels unit rows summaryBelow i row summary

def Parent (rows : List LayoutRow) (child parent : ℕ) : Prop :=
  ∃ row ∈ rows, row.row = child ∧ row.parentRow = some parent

/-- Following parents never returns to a row, and ends. -/
structure Forest (rows : List LayoutRow) : Prop where
  acyclic : ∀ row, ¬TransGen (Parent rows) row row
  ends : ∀ row, ∃ last, ReflTransGen (Parent rows) row last ∧ ∀ p, ¬Parent rows last p

variable {levels : List ℕ} {unit : List Bool} {rows : List LayoutRow} {summaryBelow : Bool}

theorem forest_of_acyclic (h : ∀ row, ¬TransGen (Parent rows) row row) : Forest rows := by
  refine ⟨h, fun n => ?_⟩
  let R : Fin rows.length → Fin rows.length → Prop := fun i j =>
    TransGen (Parent rows) (rows.get j).row (rows.get i).row
  have htrans : IsTrans _ R := ⟨fun _ _ _ hab hbc => hbc.trans hab⟩
  have hirrefl : Std.Irrefl R := ⟨fun i => h (rows.get i).row⟩
  have hwf : WellFounded R := Finite.wellFounded_of_trans_of_irrefl R
  have hends (i : Fin rows.length) : ∃ last,
      ReflTransGen (Parent rows) (rows.get i).row last ∧ ∀ p, ¬Parent rows last p := by
    induction i using hwf.induction with
    | _ i ih =>
      by_cases hlast : ∀ p, ¬Parent rows (rows.get i).row p
      · exact ⟨_, .refl, hlast⟩
      · simp only [not_forall, not_not] at hlast
        obtain ⟨p, hp⟩ := hlast
        by_cases hband : ∀ q, ¬Parent rows p q
        · exact ⟨p, .single hp, hband⟩
        · simp only [not_forall, not_not] at hband
          obtain ⟨_, row, hrow, rfl, -⟩ := hband
          obtain ⟨j, rfl⟩ := List.mem_iff_get.mp hrow
          obtain ⟨last, hwalk, hlast⟩ := ih j (.single hp)
          exact ⟨last, .head hp hwalk, hlast⟩
  by_cases hband : ∀ q, ¬Parent rows n q
  · exact ⟨n, .refl, hband⟩
  · simp only [not_forall, not_not] at hband
    obtain ⟨_, row, hrow, rfl, -⟩ := hband
    obtain ⟨i, rfl⟩ := List.mem_iff_get.mp hrow
    exact hends i

theorem getD_outlineParentAt (index : ℕ) :
    (outlineParentAt levels unit summaryBelow).getD index none =
      if index < levels.length then scanOutline levels unit summaryBelow index else none := by
  rw [outlineParentAt_eq, List.getD_eq_getElem?_getD, List.getElem?_map]
  split_ifs with hindex
  · rw [List.getElem?_range hindex]
    rfl
  · rw [List.getElem?_eq_none (by simpa using hindex)]
    rfl

theorem closer_iff {above below : ℕ} :
    ((!summaryBelow && decide (above < below)) || (summaryBelow && decide (below < above))) = true ↔
      if summaryBelow then below < above else above < below := by
  cases summaryBelow <;> simp

theorem outlineRow_of_takes {index : ℕ} {row summary : LayoutRow} (hindex : index < levels.length)
    (h : TakesAt levels unit rows summaryBelow index row summary) :
    outlineRow levels unit rows (outlineParentAt levels unit summaryBelow) summaryBelow index row =
      { row with parentRow := some summary.row } := by
  obtain ⟨p, hsummary, hlevel, hscan, hpos, hcloser⟩ := h
  have hunit : unitAt unit index = false := by
    unfold scanOutline at hscan
    split_ifs at hscan with hunit
    exact Bool.eq_false_iff.mpr hunit
  have htest : ¬(decide (levelAt levels index ≤ 1) || unitAt unit index) = true := by
    rw [hunit, Bool.or_false, decide_eq_true_eq]
    omega
  unfold outlineRow
  rw [getD_outlineParentAt, if_pos hindex, if_neg htest, hscan]
  dsimp only
  rw [hsummary]
  dsimp only
  rw [if_neg (by omega)]
  cases hparent : row.parentRow with
  | none => rfl
  | some above => exact if_pos (closer_iff.mpr (hcloser above hparent))

theorem outlineRow_of_not {index : ℕ} {row : LayoutRow} (hindex : index < levels.length)
    (h : ∀ summary, ¬TakesAt levels unit rows summaryBelow index row summary) :
    outlineRow levels unit rows (outlineParentAt levels unit summaryBelow) summaryBelow index row =
      row := by
  unfold outlineRow
  rw [getD_outlineParentAt, if_pos hindex]
  split_ifs with htest
  · rfl
  · rw [Bool.or_eq_true, decide_eq_true_eq, not_or] at htest
    cases hscan : scanOutline levels unit summaryBelow index with
    | none => rfl
    | some p =>
      dsimp only
      cases hsummary : rows[p]? with
      | none => rfl
      | some summary =>
        dsimp only
        split_ifs with hzero
        · rfl
        · have hcloser (hall : ∀ above, row.parentRow = some above →
              if summaryBelow then summary.row < above else above < summary.row) : False :=
            h summary ⟨p, hsummary, by omega, hscan, by omega, hall⟩
          cases hparent : row.parentRow with
          | none =>
            rw [hparent] at hcloser
            exact (hcloser fun above habove => nomatch habove).elim
          | some above =>
            rw [hparent] at hcloser
            dsimp only
            rw [if_neg fun htrue => hcloser fun other hother =>
              Option.some.inj hother ▸ closer_iff.mp htrue]

/-- Where two rows differ they have different numbers. -/
def Ascending (rows : List LayoutRow) : Prop := rows.Pairwise fun a b => a.row < b.row

theorem Ascending.lt_iff (h : Ascending rows) {i j : ℕ} {a b : LayoutRow} (hi : rows[i]? = some a)
    (hj : rows[j]? = some b) : a.row < b.row ↔ i < j := by
  obtain ⟨hi', rfl⟩ := List.getElem?_eq_some_iff.mp hi
  obtain ⟨hj', rfl⟩ := List.getElem?_eq_some_iff.mp hj
  have hall := List.pairwise_iff_getElem.mp h
  constructor
  · intro hlt
    by_contra hle
    rcases Nat.lt_or_ge j i with hji | hij
    · have := hall j i hj' hi' hji
      omega
    · obtain rfl : i = j := by omega
      omega
  · exact hall i j hi' hj'

theorem Ascending.index_eq (h : Ascending rows) {i j : ℕ} {a b : LayoutRow}
    (hi : rows[i]? = some a) (hj : rows[j]? = some b) (hrow : a.row = b.row) : i = j := by
  have hlt := h.lt_iff hi hj
  have hgt := h.lt_iff hj hi
  omega

theorem Takes.side (h : Ascending rows) {row summary : LayoutRow}
    (htakes : Takes levels unit rows summaryBelow row summary) :
    if summaryBelow then row.row < summary.row else summary.row < row.row := by
  obtain ⟨i, hi, p, hp, -, hscan, -⟩ := htakes
  unfold scanOutline at hscan
  split_ifs at hscan
  have hmem := List.mem_of_find?_eq_some hscan
  unfold sideOf at hmem
  cases summaryBelow with
  | true =>
    simp only [if_true] at hmem ⊢
    have hlt := (List.mem_range'_1.mp hmem).1
    exact (h.lt_iff hi hp).mpr (by omega)
  | false =>
    simp only [Bool.false_eq_true, if_false] at hmem ⊢
    have hlt := List.mem_range.mp (List.mem_reverse.mp hmem)
    exact (h.lt_iff hp hi).mpr hlt

theorem parent_applied {text : LabelText} (h : Ascending rows)
    (hlength : rows.length = levels.length)
    (hunit : unit = rows.map fun row => text.isUnitText row.label) (child parent : ℕ) :
    Parent (applyOutlineParents levels text rows summaryBelow) child parent ↔
      (∃ row summary, Takes levels unit rows summaryBelow row summary ∧ row.row = child ∧
        summary.row = parent) ∨
      (Parent rows child parent ∧
        ¬∃ row summary, Takes levels unit rows summaryBelow row summary ∧ row.row = child) := by
  have hlt {i : ℕ} {row : LayoutRow} (hi : rows[i]? = some row) : i < levels.length := by
    rw [← hlength]
    exact (List.getElem?_eq_some_iff.mp hi).1
  have happlied (i : ℕ) : (applyOutlineParents levels text rows summaryBelow)[i]? =
      rows[i]?.map (outlineRow levels unit rows (outlineParentAt levels unit summaryBelow)
        summaryBelow i) := by
    rw [hunit]
    exact List.getElem?_mapIdx
  constructor
  · rintro ⟨final, hfinal, rfl, hparent⟩
    obtain ⟨i, hi⟩ := List.mem_iff_getElem?.mp hfinal
    rw [happlied] at hi
    obtain ⟨row, hrow, rfl⟩ := Option.map_eq_some_iff.mp hi
    by_cases htakes : ∃ summary, TakesAt levels unit rows summaryBelow i row summary
    · obtain ⟨summary, htakes⟩ := htakes
      rw [outlineRow_of_takes (hlt hrow) htakes] at hparent ⊢
      exact .inl ⟨row, summary, ⟨i, hrow, htakes⟩, rfl, Option.some.inj hparent⟩
    · have hnot := not_exists.mp htakes
      rw [outlineRow_of_not (hlt hrow) hnot] at hparent ⊢
      refine .inr ⟨⟨row, List.mem_of_getElem? hrow, rfl, hparent⟩, ?_⟩
      rintro ⟨row', summary, ⟨j, hj, htakes'⟩, hsame⟩
      obtain rfl := h.index_eq hj hrow hsame
      obtain rfl := Option.some.inj (hj.symm.trans hrow)
      exact hnot summary htakes'
  · rintro (⟨row, summary, ⟨i, hi, htakes⟩, rfl, rfl⟩ | ⟨⟨row, hrow, rfl, hparent⟩, hnone⟩)
    · have hfinal := happlied i
      rw [hi, Option.map_some, outlineRow_of_takes (hlt hi) htakes] at hfinal
      exact ⟨_, List.mem_of_getElem? hfinal, rfl, rfl⟩
    · obtain ⟨i, hi⟩ := List.mem_iff_getElem?.mp hrow
      have hnot : ∀ summary, ¬TakesAt levels unit rows summaryBelow i row summary :=
        fun summary htakes => hnone ⟨row, summary, ⟨i, hi, htakes⟩, rfl⟩
      have hfinal := happlied i
      rw [hi, Option.map_some, outlineRow_of_not (hlt hi) hnot] at hfinal
      exact ⟨row, List.mem_of_getElem? hfinal, rfl, hparent⟩

end Outlines

namespace Band

variable (text : LabelText) (band : Band)

def units : List Bool := (band.indentRows text).map fun row => text.isUnitText row.label

/-- Some row would take a summary row below it that hangs under that row. -/
def ClosesLoop : Prop :=
  band.summaryBelow = true ∧ ∃ row summary,
    Takes band.outlines (band.units text) (band.indentRows text) true row summary ∧
    TransGen (Parent (band.indentRows text)) summary.row row.row

def InBand (n : ℕ) : Prop := ∃ row ∈ band.indentRows text, row.row = n

theorem hung_indentRows : Hung text band.seed (band.indentRows text)
    (readRows text band.seed band.rows).sectionStack :=
  hung_readRows band.ascending band.seedOutside

theorem ascending_indentRows : Ascending (band.indentRows text) :=
  (band.hung_indentRows text).ascending

theorem parent_dataRows (child parent : ℕ) :
    Parent (band.dataRows text) child parent ↔
      (∃ row summary, Takes band.outlines (band.units text) (band.indentRows text)
        band.summaryBelow row summary ∧ row.row = child ∧ summary.row = parent) ∨
      (Parent (band.indentRows text) child parent ∧ ¬∃ row summary, Takes band.outlines
        (band.units text) (band.indentRows text) band.summaryBelow row summary ∧
        row.row = child) := by
  have hlength : (band.indentRows text).length = band.outlines.length := by
    have hrows := congrArg List.length (rows_readRows text band.seed band.rows)
    simpa [indentRows, outlines] using hrows
  unfold dataRows
  split_ifs with hany
  · exact parent_applied (band.ascending_indentRows text) hlength rfl child parent
  · have hnone : ∀ row summary, ¬Takes band.outlines (band.units text) (band.indentRows text)
        band.summaryBelow row summary := by
      rintro row summary ⟨i, hi, -, -, hlevel, -⟩
      have hindex : i < band.outlines.length := by
        rw [← hlength]
        exact (List.getElem?_eq_some_iff.mp hi).1
      apply hany
      refine List.any_eq_true.mpr ⟨band.outlines[i], List.getElem_mem hindex, ?_⟩
      rw [levelAt, List.getD_eq_getElem?_getD, List.getElem?_eq_getElem hindex,
        Option.getD_some] at hlevel
      rw [decide_eq_true_eq]
      omega
    constructor
    · intro hparent
      exact .inr ⟨hparent, fun ⟨row, summary, htakes, _⟩ => hnone row summary htakes⟩
    · rintro (⟨row, summary, htakes, -⟩ | ⟨hparent, -⟩)
      · exact absurd htakes (hnone row summary)
      · exact hparent

theorem lt_of_parent {child parent : ℕ} (h : Parent (band.indentRows text) child parent)
    (hparent : band.InBand text parent) : parent < child := by
  obtain ⟨row, hrow, rfl, hsome⟩ := h
  obtain ⟨other, hother, rfl⟩ := hparent
  rcases (band.hung_indentRows text).above row hrow _ hsome with ⟨_, -, -, hlt⟩ | ⟨title, htitle, hsame⟩
  · exact hlt
  · exact absurd hsame ((band.hung_indentRows text).outside other hother title htitle)

theorem parent_unique {child parent parent' : ℕ} (h : Parent (band.indentRows text) child parent)
    (h' : Parent (band.indentRows text) child parent') : parent = parent' := by
  obtain ⟨row, hrow, rfl, hsome⟩ := h
  obtain ⟨row', hrow', hsame, hsome'⟩ := h'
  obtain rfl := (band.hung_indentRows text).eq_of_row hrow' hrow hsame
  exact Option.some.inj (hsome.symm.trans hsome')

theorem inBand_of_child {child parent : ℕ} (h : Parent (band.indentRows text) child parent) :
    band.InBand text child := by
  obtain ⟨row, hrow, rfl, -⟩ := h
  exact ⟨row, hrow, rfl⟩

def Up (child parent : ℕ) : Prop :=
  Parent (band.indentRows text) child parent ∧ band.InBand text parent

def Down (child parent : ℕ) : Prop :=
  ∃ row summary, Takes band.outlines (band.units text) (band.indentRows text) true row summary ∧
    row.row = child ∧ summary.row = parent

theorem not_up_of_down {r p : ℕ} (h : band.Down text r p) (b : ℕ) : ¬band.Up text r b := by
  rintro ⟨hparent, hband⟩
  have hlt := band.lt_of_parent text hparent hband
  obtain ⟨row, summary, htakes, rfl, rfl⟩ := h
  have hside := htakes.side (band.ascending_indentRows text)
  obtain ⟨i, hi, _, _, _, _, _, hcloser⟩ := htakes
  obtain ⟨row', hrow', hsame, hsome⟩ := hparent
  obtain rfl := (band.hung_indentRows text).eq_of_row hrow' (List.mem_of_getElem? hi) hsame
  have hbelow := hcloser b hsome
  simp only [if_true] at hside hbelow
  omega

theorem twoWay : TwoWay (band.Up text) (band.Down text) where
  above _ _ h := band.lt_of_parent text h.1 h.2
  below := by
    rintro _ _ ⟨row, summary, htakes, rfl, rfl⟩
    have hside := htakes.side (band.ascending_indentRows text)
    simpa using hside
  one _ _ _ h h' := band.parent_unique text h.1 h'.1
  root _ _ h := band.not_up_of_down text h
  crossing := by
    intro r p hdown a b hup hlt
    by_contra hgt
    have hroot := band.not_up_of_down text hdown
    obtain ⟨row, summary, ⟨i, hi, _, _, _, hscan, _⟩, rfl, -⟩ := hdown
    obtain ⟨⟨child, hchild, rfl, hsome⟩, parent, hparent, rfl⟩ := hup
    have hrow := List.mem_of_getElem? hi
    have hunit : text.isUnitText row.label = false := by
      unfold scanOutline at hscan
      split_ifs at hscan with hskip
      rw [unitAt, units, List.getD_eq_getElem?_getD, List.getElem?_map, hi] at hskip
      exact Bool.eq_false_iff.mpr hskip
    obtain ⟨above, habove, hhangs⟩ := (band.hung_indentRows text).crossing child hchild parent
      hparent hsome row hrow hlt (by omega) hunit
    exact hroot above.row ⟨⟨row, hrow, rfl, hhangs⟩, above, habove, rfl⟩

theorem inBand_of_dataRows {child parent : ℕ} (h : Parent (band.dataRows text) child parent) :
    band.InBand text child := by
  rcases (band.parent_dataRows text child parent).mp h with
    ⟨row, summary, ⟨i, hi, -⟩, rfl, -⟩ | ⟨hparent, -⟩
  · exact ⟨row, List.mem_of_getElem? hi, rfl⟩
  · exact band.inBand_of_child text hparent

theorem cycle_iff_of_below (hbelow : band.summaryBelow = true) (n : ℕ) :
    TransGen (Parent (band.dataRows text)) n n ↔
      TransGen (fun a b => band.Up text a b ∨ band.Down text a b) n n := by
  constructor
  · intro hcycle
    have hband : band.InBand text n := by
      obtain ⟨b, hnb, -⟩ := TransGen.head'_iff.mp hcycle
      exact band.inBand_of_dataRows text hnb
    have hwithin := transGen_within (p := band.InBand text)
        (fun _ _ hab => band.inBand_of_dataRows text hab) hcycle hband
    refine hwithin.lift id fun a b hab => ?_
    obtain ⟨hparent, hb⟩ := hab
    rcases (band.parent_dataRows text a b).mp hparent with htakes | ⟨hup, -⟩
    · rw [hbelow] at htakes
      exact .inr htakes
    · exact .inl ⟨hup, hb⟩
  · intro hcycle
    refine hcycle.lift id fun a b hab => (band.parent_dataRows text a b).mpr ?_
    rw [hbelow]
    rcases hab with hup | hdown
    · refine .inr ⟨hup.1, ?_⟩
      rintro ⟨row, summary, htakes, rfl⟩
      exact band.not_up_of_down text ⟨row, summary, htakes, rfl, rfl⟩ b hup
    · exact .inl hdown

theorem acyclic_dataRows_iff : (∀ n, ¬TransGen (Parent (band.dataRows text)) n n) ↔
    ¬band.ClosesLoop text := by
  cases hbelow : band.summaryBelow with
  | false =>
    refine iff_of_true (fun n hcycle => ?_) fun hloop => ?_
    · have hband : band.InBand text n := by
        obtain ⟨b, hnb, -⟩ := TransGen.head'_iff.mp hcycle
        exact band.inBand_of_dataRows text hnb
      have hwithin := transGen_within (p := band.InBand text)
        (fun _ _ hab => band.inBand_of_dataRows text hab) hcycle hband
      have hstep {a b : ℕ} (hab : Parent (band.dataRows text) a b ∧ band.InBand text b) :
          b < a := by
        obtain ⟨hparent, hb⟩ := hab
        rcases (band.parent_dataRows text a b).mp hparent with
          ⟨row, summary, htakes, rfl, rfl⟩ | ⟨hup, -⟩
        · have hside := htakes.side (band.ascending_indentRows text)
          simpa [hbelow] using hside
        · exact band.lt_of_parent text hup hb
      have hless {a b : ℕ} (hab : TransGen
          (fun a b => Parent (band.dataRows text) a b ∧ band.InBand text b) a b) : b < a := by
        induction hab with
        | single hab => exact hstep hab
        | tail _ hbc ih => exact (hstep hbc).trans ih
      exact Nat.lt_irrefl n (hless hwithin)
    · rw [ClosesLoop, hbelow] at hloop
      cases hloop.1
  | true =>
    simp only [band.cycle_iff_of_below text hbelow]
    rw [acyclic_iff (band.twoWay text)]
    constructor
    · rintro hfree ⟨-, row, summary, htakes, hwalk⟩
      have hrow : band.InBand text row.row := by
        obtain ⟨i, hi, -⟩ := htakes
        exact ⟨row, List.mem_of_getElem? hi, rfl⟩
      apply hfree row.row summary.row ⟨row, summary, htakes, rfl, rfl⟩
      have hwithin := transGen_within (p := band.InBand text)
        (fun _ _ hab => band.inBand_of_child text hab) hwalk hrow
      exact hwithin.to_reflTransGen
    · rintro hfree r p ⟨row, summary, htakes, rfl, rfl⟩ hwalk
      have hside := (band.twoWay text).below _ _ ⟨row, summary, htakes, rfl, rfl⟩
      apply hfree
      refine ⟨hbelow, row, summary, htakes, ?_⟩
      rcases reflTransGen_iff_eq_or_transGen.mp hwalk with hsame | hwalk
      · omega
      · exact hwalk.lift id fun _ _ hup => hup.1

/-- The parents form a forest, unless a row takes a summary row below it that hangs under it. -/
theorem forest_iff : Forest (band.dataRows text) ↔ ¬band.ClosesLoop text := by
  rw [← band.acyclic_dataRows_iff text]
  exact ⟨Forest.acyclic, forest_of_acyclic⟩

end Band

section Sample

def plainLabels : LabelText where
  strip label := label
  casefold label := label
  isUnitText _ := false
  isCheck _ := false
  isUnitText_strip _ := rfl

def assetsBand : Band where
  rows := [⟨2, "Assets", 1, false, 0, 2, .abstract, false⟩, ⟨3, "Cash", 1, false, 0, 2, .fact, false⟩,
    ⟨4, "Total assets", 1, false, 0, 1, .fact, false⟩]
  seed := none
  summaryBelow := true
  ascending := by decide
  seedOutside := by simp

/-- The title hangs under its total and the total under the title. -/
theorem assets_parents_loop :
    (assetsBand.dataRows plainLabels).map (fun row => (row.row, row.parentRow)) =
      [(2, some 4), (3, some 2), (4, some 2)] ∧
    ¬Forest (assetsBand.dataRows plainLabels) := by
  have hparents : (assetsBand.dataRows plainLabels).map (fun row => (row.row, row.parentRow)) =
      [(2, some 4), (3, some 2), (4, some 2)] := by decide +kernel
  refine ⟨hparents, fun hforest => ?_⟩
  have hedge {child parent : ℕ} (h : (child, some parent) ∈
      (assetsBand.dataRows plainLabels).map fun row => (row.row, row.parentRow)) :
      Parent (assetsBand.dataRows plainLabels) child parent := by
    obtain ⟨row, hrow, hpair⟩ := List.mem_map.mp h
    exact ⟨row, hrow, (Prod.mk.inj hpair).1, (Prod.mk.inj hpair).2⟩
  rw [hparents] at hedge
  apply hforest.acyclic 2
  exact .tail (.single (@hedge 2 4 (by decide))) (hedge (by decide))

end Sample

end FinanceContext.Rows
