import FinanceContext.GraphStream
import FinanceContext.RangeNodes

namespace FinanceContext

open ComponentLabels Csr Dictionaries GraphIndex

section Stream

variable (text : GraphText) (sources : GraphSources)

def flagOf (edge : CellEdge) : EdgeFlag :=
  match viewNode text edge.target with
  | some _ => .structural
  | none => if isPeriodChain text edge then .chain else .plain

/-- The state of the pass is what the list of enriched edges says so far. -/
structure Carries (enriched : List CellEdge) (st : GraphStream) : Prop where
  kinds : st.kinds = kindCounts enriched
  classes : (st.classes, st.seenClass) = enriched.foldl addClass ([], [])
  danglingIds : st.danglingIds = FinanceContext.danglingIds enriched
  danglingSeen : ∀ id, id ∈ st.danglingSeen ↔ id ∈ st.danglingIds
  truncatedIds : st.truncatedIds = FinanceContext.truncatedIds enriched
  truncatedSeen : ∀ id, id ∈ st.truncatedSeen ↔ id ∈ st.truncatedIds
  lagGroups : st.lagGroups = lagsBySource enriched
  rangeUsers : st.rangeUsers = FinanceContext.rangeUsers text enriched
  packed : st.packed = pack (namedEdges (flagOf text) enriched [])
  nEdges : st.nEdges = enriched.length
  written : st.written = enriched

theorem pack_append (edges more : List ((String × String) × EdgeFlag)) :
    pack (edges ++ more) = more.foldl (fun packed e => packed.add e.1.1 e.1.2 e.2) (pack edges) :=
  List.foldl_append

section Seen

variable {id : String} {ids seen : List String} {p q : Prop} [Decidable p] [Decidable q]
  (hseen : ∀ id, id ∈ seen ↔ id ∈ ids)

include hseen

theorem addId_of_seen : (if p ∧ q ∧ id ∉ seen then ids ++ [id] else ids) =
    if p ∧ q then addId ids id else ids := by
  unfold addId
  by_cases hid : id ∈ ids
  · have hknown : id ∈ seen := (hseen id).mpr hid
    simp [hid, hknown]
  · have hnew : id ∉ seen := mt (hseen id).mp hid
    simp [hid, hnew]

theorem mem_seen_addId (other : String) :
    other ∈ (if p ∧ q ∧ id ∉ seen then id :: seen else seen) ↔
      other ∈ if p ∧ q ∧ id ∉ seen then ids ++ [id] else ids := by
  split_ifs
  · rw [List.mem_cons, List.mem_append, List.mem_singleton, hseen]
    exact or_comm
  · exact hseen other

end Seen

theorem step_users (st : GraphStream) (edge : CellEdge) :
    (st.step text sources edge).rangeUsers = st.rangeUsers ++ rangeUsers text [edge] := by
  unfold GraphStream.step rangeUsers
  dsimp only
  cases hnode : viewNode text edge.target with
  | none => simp [hnode]
  | some node => by_cases hsource : edge.source = "" <;> simp [hnode, hsource]

theorem step_packed (st : GraphStream) (edge : CellEdge) :
    (st.step text sources edge).packed =
      if Usable edge then
        st.packed.add edge.source edge.target
          (flagOf text (enrichEdge text sources.periods sources.usage edge))
      else st.packed := by
  unfold GraphStream.step flagOf isPeriodChain
  dsimp only
  rw [enrichEdge_source, enrichEdge_target]
  unfold enrichEdge
  cases viewNode text edge.target <;> rfl

variable {text}

theorem Carries.step {enriched : List CellEdge} {st : GraphStream} (h : Carries text enriched st)
    (edge : CellEdge) :
    Carries text (enriched ++ [enrichEdge text sources.periods sources.usage edge])
      (st.step text sources edge) := by
  let next := enrichEdge text sources.periods sources.usage edge
  have hsource : next.source = edge.source := enrichEdge_source text _ _ edge
  have htarget : next.target = edge.target := enrichEdge_target text _ _ edge
  have hreason : next.danglingReason = edge.danglingReason := rfl
  constructor
  · change countKey st.kinds (countedKind edge) = kindCounts (enriched ++ [next])
    unfold kindCounts
    rw [h.kinds, List.map_append, List.foldl_append]
    rfl
  · rw [List.foldl_append, ← h.classes]
    change _ = addClass (st.classes, st.seenClass) next
    unfold GraphStream.step addClass
    dsimp only
    rw [htarget, hreason]
    split_ifs <;> rfl
  · change _ = FinanceContext.danglingIds (enriched ++ [next])
    unfold FinanceContext.danglingIds
    rw [List.foldl_append, ← FinanceContext.danglingIds, ← h.danglingIds]
    exact addId_of_seen h.danglingSeen
  · exact mem_seen_addId h.danglingSeen
  · change _ = FinanceContext.truncatedIds (enriched ++ [next])
    unfold FinanceContext.truncatedIds
    rw [List.foldl_append, ← FinanceContext.truncatedIds, ← h.truncatedIds]
    exact addId_of_seen h.truncatedSeen
  · exact mem_seen_addId h.truncatedSeen
  · change (if edge.source = "" then st.lagGroups else addLag st.lagGroups edge.source _) =
      lagsBySource (enriched ++ [next])
    unfold lagsBySource
    rw [List.foldl_append, ← lagsBySource, ← h.lagGroups]
    rfl
  · have husers : FinanceContext.rangeUsers text [next] = FinanceContext.rangeUsers text [edge] :=
      rangeUsers_enriched text sources.periods sources.usage [edge]
    rw [step_users, h.rangeUsers, ← husers]
    exact List.filterMap_append.symm
  · rw [step_packed, h.packed]
    unfold namedEdges
    simp only [List.filter_append, List.map_append, List.map_nil, List.append_nil]
    rw [pack_append]
    by_cases husable : Usable edge
    · have hnext : Usable next := husable
      have hone : [next].filter Usable = [next] := by simp [hnext]
      rw [if_pos husable, hone]
      rfl
    · have hnext : ¬Usable next := husable
      have hone : [next].filter Usable = [] := by simp [hnext]
      rw [if_neg husable, hone]
      rfl
  · change st.nEdges + 1 = _
    rw [h.nEdges, List.length_append, List.length_singleton]
  · change st.written ++ [next] = _
    rw [h.written]

theorem carries_rows {enriched : List CellEdge} {st : GraphStream} (h : Carries text enriched st)
    (edges : List CellEdge) :
    Carries text (enriched ++ edges.map (enrichEdge text sources.periods sources.usage))
      (edges.foldl (GraphStream.step text sources) st) := by
  induction edges generalizing enriched st with
  | nil => simpa using h
  | cons edge edges ih =>
    have hrest := ih (h.step sources edge)
    rwa [List.append_assoc, List.singleton_append] at hrest

theorem carries_start : Carries text [] {} := by
  constructor
  all_goals first | rfl | exact fun _ => Iff.rfl

theorem carries_groups (groups : List (List CellEdge)) :
    Carries text (groups.flatten.map (enrichEdge text sources.periods sources.usage))
      (groups.foldl (fun st group => group.foldl (GraphStream.step text sources) st) {}) := by
  rw [← List.foldl_flatten]
  exact carries_rows sources carries_start groups.flatten

variable (text) (components : Components)

/-- Every usable edge whose target looks like a range has a range as its target. -/
def RangesParse (edges : List CellEdge) : Prop :=
  ∀ edge ∈ edges, Usable edge → isRangeNode edge.target = true →
    (viewNode text edge.target).isSome

variable {text}

theorem flagOf_enriched {edges : List CellEdge} (hranges : RangesParse text edges) :
    ∀ edge ∈ edges.map (enrichEdge text sources.periods sources.usage), Usable edge →
      flagOf text edge = if isRangeNode edge.target then .structural
        else if isPeriodChain text edge then .chain else .plain := by
  intro edge hedge husable
  obtain ⟨first, hfirst, rfl⟩ := List.mem_map.mp hedge
  have hview := hranges first hfirst husable
  unfold flagOf
  rw [enrichEdge_target]
  cases hnode : viewNode text first.target with
  | none =>
    have hcell : isRangeNode first.target = false := by
      by_contra hrange
      have hsome := hview (Bool.eq_true_of_not_eq_false hrange)
      rw [hnode] at hsome
      cases hsome
    simp [hcell]
  | some node =>
    have hrange : isRangeNode first.target = true := by
      by_contra hcell
      have hnone : viewNode text first.target = none :=
        parseRangeNode_of_not (Bool.eq_false_of_not_eq_true hcell)
      rw [hnode] at hnone
      cases hnone
    simp [hrange]

theorem pack_links (enriched : List CellEdge) (links : List (String × String)) :
    links.foldl (fun packed link => packed.add link.1 link.2 .structural)
        (pack (namedEdges (flagOf text) enriched [])) =
      pack (namedEdges (flagOf text) enriched links) := by
  have happend : namedEdges (flagOf text) enriched links =
      namedEdges (flagOf text) enriched [] ++ links.map fun link => (link, .structural) := by
    unfold namedEdges
    rw [List.map_nil, List.append_nil]
  rw [happend, pack_append, List.foldl_map]

/-- The pass over row groups writes the edges and the document of the pass over a list. -/
theorem graph_stream_agrees (groups : List (List CellEdge))
    (hranges : RangesParse text groups.flatten) :
    graphFromParquet components text sources groups =
      graphInMemory components text sources groups.flatten := by
  have hst : Carries text (groups.flatten.map (enrichEdge text sources.periods sources.usage))
      (groups.foldl (fun st group => group.foldl (GraphStream.step text sources) st) {}) :=
    carries_groups sources groups
  unfold graphFromParquet graphInMemory
  generalize groups.foldl (fun st group => group.foldl (GraphStream.step text sources) st) {} = st
    at hst
  generalize henriched : groups.flatten.map (enrichEdge text sources.periods sources.usage) =
    enriched at hst
  have hflag := flagOf_enriched sources hranges
  rw [henriched] at hflag
  let users := rangeUsers text enriched
  let ranges := if users = [] then none else some (sources.hops text, users)
  have hcycles := cyclesPacked_eq_classifyCycles text components hflag ranges
    (memberChain text sources.periods)
  have hextra : (ranges.map fun found =>
      hopFlagsOf found.2 found.1 (memberChain text sources.periods)) =
      if users = [] then none
      else some (hopFlagsOf users (sources.hops text) (memberChain text sources.periods)) := by
    by_cases husers : users = [] <;> simp [ranges, husers]
  have hlinks : rangeLinks ranges =
      if users = [] then [] else ((sources.hops text).structural (nodesOf users)).1 := by
    by_cases husers : users = [] <;> simp [ranges, husers, rangeLinks]
  rw [hextra, hlinks] at hcycles
  have hclasses : st.classes = (enriched.foldl addClass ([], [])).1 :=
    congrArg Prod.fst hst.classes
  dsimp only
  rw [hst.rangeUsers, hst.packed, pack_links, hcycles, hst.lagGroups, hst.kinds, hclasses,
    hst.truncatedIds, hst.danglingIds, hst.nEdges, hst.written]

def yearSources : GraphSources where
  jobId := "job"
  layout := ⟨[]⟩
  formulas := [("S!C1", ⟨some "=SUM(B:B)+C2", none, none, []⟩), ("S!C2", ⟨some "=C1", none, none, []⟩)]
  edges := [⟨⟨"S!C1", some "S!B:B"⟩, "range", false⟩, ⟨⟨"S!C2", some "S!C1"⟩, "ref", false⟩]
  indexRows := []
  circularIds := none
  nodeCount := 3
  iterate := true
  usage := yearUsage

theorem graph_stream_agrees_years :
    graphFromParquet firstMutual yearText yearSources [yearEdges.take 1, [], yearEdges.drop 1] =
      graphInMemory firstMutual yearText yearSources yearEdges :=
  graph_stream_agrees yearSources firstMutual [yearEdges.take 1, [], yearEdges.drop 1]
    (by unfold RangesParse; decide +kernel)

end Stream

end FinanceContext
