import FinanceContext.KeyedSets
import FinanceContext.RangeTargets

/-!
The rows a row reads and the rows that read it. A large range is expanded into its rows, or
kept as one node with the rows that read it.
-/

namespace FinanceContext.RowAdjacency

open Csr Dictionaries

abbrev Row := String × ℕ

def rowKeyRef (row : Row) : String := row.1 ++ "!" ++ toString row.2

/-- `cell_ref_row`, which takes an id apart the way `parse_node_id` does. -/
def cellRefRow (table : CharTable) (ref : String) : Option Row :=
  (parseNodeId table ref).map fun (sheet, _, row) => (sheet, row)

/-- The large ranges that rows read, and the rows that read them. -/
structure RangeReads where
  byRow : List (Row × List String)
  nodes : List (String × RangeNode)
  readers : List (String × List String)

namespace RangeReads

def empty : RangeReads := ⟨[], [], []⟩

def add (reads : RangeReads) (source : Row) (node : RangeNode) : RangeReads where
  byRow := insertOnce source node.nodeId reads.byRow
  nodes :=
    if (get node.nodeId reads.nodes).isSome then reads.nodes
    else set node.nodeId node reads.nodes
  readers := insertOnce node.nodeId (rowKeyRef source) reads.readers

def forRow (reads : RangeReads) (row : Row) : List String := (get row reads.byRow).getD []

end RangeReads

/-- What `row_adjacency` has found so far. -/
structure Adjacency where
  precedents : List (Row × List String)
  dependents : List (Row × List String)
  reads : Option RangeReads

def kept (keep : Option (List Row)) (row : Row) : Bool := keep.all (·.contains row)

def Adjacency.link (keep : Option (List Row)) (source target : Row) (found : Adjacency) :
    Adjacency :=
  { found with
    precedents :=
      if kept keep source then insertOnce source (rowKeyRef target) found.precedents
      else found.precedents
    dependents :=
      if kept keep target then insertOnce target (rowKeyRef source) found.dependents
      else found.dependents }

def Adjacency.linkAll (keep : Option (List Row)) (pairs : List (Row × Row)) (found : Adjacency) :
    Adjacency := pairs.foldl (fun f p => f.link keep p.1 p.2) found

section Edges

variable (table : CharTable) (ex : Expansion)

def targets (edge : Csr.Edge) : List String :=
  match edge.target with
  | none => []
  | some target =>
    if target = "" then []
    else
      let body := match rsplitBang target.toList with
        | some (_, body) => body
        | none => target.toList
      if edge.kind = "range" ∧ edge.unresolved = false ∧ ':' ∈ body then
        match ex.expandRange target with
        | none => [target]
        | some (cells, _) => cells
      else [target]

def readNode (edge : Csr.Edge) : Option RangeNode :=
  if edge.kind = "range" ∧ edge.unresolved = false then ex.rangeNodeFor (edge.target.getD "")
  else none

/-- The body of the loop of `row_adjacency`. -/
def visit (keep : Option (List Row)) (found : Adjacency) (edge : Csr.Edge) : Adjacency :=
  if edge.named then found
  else
    match cellRefRow table edge.source with
    | none => found
    | some source =>
      match found.reads, readNode ex edge with
      | some reads, some node => { found with reads := some (reads.add source node) }
      | _, _ =>
        if keep = some [] then found
        else
          (targets ex edge).foldl (fun found ref =>
            match cellRefRow table ref with
            | none => found
            | some target => if source = target then found else found.link keep source target)
            found

/-- `_neighbor_lists`, which takes the last row first. -/
def neighborLists (limit : ℤ) (found : List (Row × List String)) : List (Row × List String) :=
  found.reverse.map fun e => (e.1, if 0 < limit then e.2.take limit.toNat else e.2)

def rowAdjacency (limit : ℤ) (ranges : Option RangeReads) (rows : Option (List Row))
    (edges : List Csr.Edge) : Adjacency :=
  let found := edges.foldl (visit table ex rows) ⟨[], [], ranges⟩
  { found with
    precedents := neighborLists limit found.precedents
    dependents := neighborLists limit found.dependents }

def memberRows (node : RangeNode) : List Row := (ex.memberCells node).filterMap (cellRefRow table)

def links (ranged : Bool) (edge : Csr.Edge) : List (Row × Row) :=
  if edge.named then []
  else
    match cellRefRow table edge.source with
    | none => []
    | some source =>
      if ranged && (readNode ex edge).isSome then []
      else (((targets ex edge).filterMap (cellRefRow table)).filter (source ≠ ·)).map (source, ·)

def nodeRead (edge : Csr.Edge) : Option (Row × RangeNode) :=
  if edge.named then none
  else do
    let source ← cellRefRow table edge.source
    let node ← readNode ex edge
    pure (source, node)

end Edges

section Folds

variable {table : CharTable} {ex : Expansion} {keep : Option (List Row)}

def precedentEntries (keep : Option (List Row)) (pairs : List (Row × Row)) : List (Row × String) :=
  (pairs.map fun p => (p.1, rowKeyRef p.2)).filter fun e => kept keep e.1

def dependentEntries (keep : Option (List Row)) (pairs : List (Row × Row)) : List (Row × String) :=
  (pairs.map fun p => (p.2, rowKeyRef p.1)).filter fun e => kept keep e.1

theorem link_collected (as bs : List (Row × String)) (reads : Option RangeReads)
    (source target : Row) :
    Adjacency.link keep source target ⟨collected as, collected bs, reads⟩ =
      ⟨collected (as ++ precedentEntries keep [(source, target)]),
        collected (bs ++ dependentEntries keep [(source, target)]), reads⟩ := by
  have hentry (row : Row) (ref : String) (es : List (Row × String)) :
      (if kept keep row then insertOnce row ref (collected es) else collected es) =
        collected (es ++ [(row, ref)].filter fun e => kept keep e.1) := by
    by_cases hrow : kept keep row = true
    · have hfilter : [(row, ref)].filter (fun e => kept keep e.1) = [(row, ref)] := by simp [hrow]
      rw [if_pos hrow, hfilter, collected_concat]
    · have hfilter : [(row, ref)].filter (fun e => kept keep e.1) = [] := by simp [hrow]
      rw [if_neg hrow, hfilter, List.append_nil]
  rw [Adjacency.link, hentry, hentry]
  rfl

theorem linkAll_collected (pairs : List (Row × Row)) (as bs : List (Row × String))
    (reads : Option RangeReads) :
    Adjacency.linkAll keep pairs ⟨collected as, collected bs, reads⟩ =
      ⟨collected (as ++ precedentEntries keep pairs),
        collected (bs ++ dependentEntries keep pairs), reads⟩ := by
  induction pairs generalizing as bs with
  | nil => simp [precedentEntries, dependentEntries, Adjacency.linkAll]
  | cons p pairs ih =>
    have hstep := ih (as ++ precedentEntries keep [p]) (bs ++ dependentEntries keep [p])
    rw [List.append_assoc, List.append_assoc] at hstep
    simp only [precedentEntries, dependentEntries, ← List.filter_append, ← List.map_append]
      at hstep
    exact (congrArg (Adjacency.linkAll keep pairs) (link_collected as bs reads p.1 p.2)).trans hstep

theorem reads_linkAll (pairs : List (Row × Row)) (found : Adjacency) :
    (found.linkAll keep pairs).reads = found.reads := by
  induction pairs generalizing found with
  | nil => rfl
  | cons p pairs ih => exact ih (found.link keep p.1 p.2)

theorem linkAll_nothing (pairs : List (Row × Row)) (found : Adjacency) :
    found.linkAll (some []) pairs = found := by
  induction pairs with
  | nil => rfl
  | cons p pairs ih => exact ih

theorem foldl_targets (source : Row) (refs : List String) (found : Adjacency) :
    refs.foldl (fun found ref =>
        match cellRefRow table ref with
        | none => found
        | some target => if source = target then found else found.link keep source target) found =
      found.linkAll keep
        (((refs.filterMap (cellRefRow table)).filter (source ≠ ·)).map (source, ·)) := by
  induction refs generalizing found with
  | nil => rfl
  | cons ref refs ih =>
    rw [List.foldl_cons, ih]
    cases htarget : cellRefRow table ref with
    | none => rw [List.filterMap_cons_none htarget]
    | some target =>
      rw [List.filterMap_cons_some htarget]
      by_cases hself : source = target
      · rw [List.filter_cons_of_neg (by simpa using hself)]
        simp [hself]
      · rw [List.filter_cons_of_pos (by simpa using hself)]
        simp [hself, Adjacency.linkAll]

def readsAfter (table : CharTable) (ex : Expansion) (reads : Option RangeReads) (edge : Csr.Edge) :
    Option RangeReads :=
  match reads, nodeRead table ex edge with
  | some reads, some (source, node) => some (reads.add source node)
  | reads, _ => reads

theorem visit_eq (found : Adjacency) (edge : Csr.Edge) :
    visit table ex keep found edge =
      { found.linkAll keep (links table ex found.reads.isSome edge) with
        reads := readsAfter table ex found.reads edge } := by
  have hlinked (source : Row) (refs : List String) :
      (if keep = some [] then found
        else refs.foldl (fun found ref =>
          match cellRefRow table ref with
          | none => found
          | some target => if source = target then found else found.link keep source target)
          found) =
        found.linkAll keep
          (((refs.filterMap (cellRefRow table)).filter (source ≠ ·)).map (source, ·)) := by
    split_ifs with hkeep
    · rw [hkeep, linkAll_nothing]
    · rw [foldl_targets]
  have hsame (pairs : List (Row × Row)) :
      found.linkAll keep pairs = { found.linkAll keep pairs with reads := found.reads } := by
    rw [← reads_linkAll pairs found]
  unfold visit links readsAfter nodeRead
  by_cases hnamed : edge.named = true
  · simp only [if_pos hnamed]
    obtain ⟨pre, dep, _ | reads⟩ := found <;> rfl
  simp only [if_neg hnamed]
  cases cellRefRow table edge.source with
  | none => obtain ⟨pre, dep, _ | reads⟩ := found <;> rfl
  | some source =>
    have hpairs := (hlinked source (targets ex edge)).trans (hsame _)
    cases readNode ex edge with
    | none => obtain ⟨pre, dep, _ | reads⟩ := found <;> exact hpairs
    | some node =>
      obtain ⟨pre, dep, _ | reads⟩ := found
      · exact hpairs
      · rfl

theorem isSome_readsAfter (reads : Option RangeReads) (edge : Csr.Edge) :
    (readsAfter table ex reads edge).isSome = reads.isSome := by
  unfold readsAfter
  cases reads with
  | none => rfl
  | some reads => cases nodeRead table ex edge <;> rfl

theorem foldl_visit (ranges : Option RangeReads) (edges : List Csr.Edge) :
    edges.foldl (visit table ex keep) ⟨[], [], ranges⟩ =
      ⟨collected (precedentEntries keep (edges.flatMap (links table ex ranges.isSome))),
        collected (dependentEntries keep (edges.flatMap (links table ex ranges.isSome))),
        edges.foldl (readsAfter table ex) ranges⟩ := by
  have hsome (es : List Csr.Edge) :
      (es.foldl (readsAfter table ex) ranges).isSome = ranges.isSome := by
    induction es using List.reverseRecOn with
    | nil => rfl
    | append_singleton es edge ih => rw [List.foldl_concat, isSome_readsAfter, ih]
  induction edges using List.reverseRecOn with
  | nil => rfl
  | append_singleton es edge ih =>
    rw [List.foldl_concat, ih, visit_eq, linkAll_collected, hsome, List.foldl_concat]
    simp [precedentEntries, dependentEntries]

end Folds

namespace RangeReads

def recorded (ps : List (Row × RangeNode)) : RangeReads :=
  ps.foldl (fun reads p => reads.add p.1 p.2) empty

theorem recorded_concat (ps : List (Row × RangeNode)) (p : Row × RangeNode) :
    recorded (ps ++ [p]) = (recorded ps).add p.1 p.2 := by
  simp [recorded, List.foldl_append]

theorem byRow_recorded (ps : List (Row × RangeNode)) :
    (recorded ps).byRow = collected (ps.map fun p => (p.1, p.2.nodeId)) := by
  induction ps using List.reverseRecOn with
  | nil => rfl
  | append_singleton ps p ih =>
    rw [recorded_concat, List.map_append, List.map_singleton, collected_concat, ← ih]
    rfl

theorem readers_recorded (ps : List (Row × RangeNode)) :
    (recorded ps).readers = collected (ps.map fun p => (p.2.nodeId, rowKeyRef p.1)) := by
  induction ps using List.reverseRecOn with
  | nil => rfl
  | append_singleton ps p ih =>
    rw [recorded_concat, List.map_append, List.map_singleton, collected_concat, ← ih]
    rfl

theorem get_nodes_recorded (id : String) (ps : List (Row × RangeNode)) :
    get id (recorded ps).nodes = (ps.find? (·.2.nodeId = id)).map Prod.snd := by
  induction ps using List.reverseRecOn with
  | nil => rfl
  | append_singleton ps p ih =>
    rw [recorded_concat, List.find?_append, Option.map_or, ← ih]
    unfold add
    by_cases hid : p.2.nodeId = id
    · subst hid
      cases hold : get p.2.nodeId (recorded ps).nodes with
      | some node => simp [hold]
      | none => simp [get_set]
    · have hnew : (List.find? (fun x => decide (x.2.nodeId = id)) [p]).map Prod.snd = none := by
        simp [hid]
      rw [hnew, Option.or_none]
      dsimp only
      split_ifs
      · rfl
      · rw [get_set, if_neg hid]

theorem nodup_nodes_recorded (ps : List (Row × RangeNode)) :
    ((recorded ps).nodes.map Prod.fst).Nodup := by
  induction ps using List.reverseRecOn with
  | nil => exact List.nodup_nil
  | append_singleton ps p ih =>
    rw [recorded_concat]
    unfold add
    dsimp only
    split_ifs
    · exact ih
    · exact nodup_keys_set ih

end RangeReads

theorem foldl_readsAfter {table : CharTable} {ex : Expansion} (edges : List Csr.Edge) :
    edges.foldl (readsAfter table ex) (some .empty) =
      some (.recorded (edges.filterMap (nodeRead table ex))) := by
  induction edges using List.reverseRecOn with
  | nil => rfl
  | append_singleton es edge ih =>
    rw [List.foldl_concat, ih, List.filterMap_append]
    unfold readsAfter
    cases hread : nodeRead table ex edge with
    | none => simp [hread]
    | some p => simp [hread, RangeReads.recorded_concat]

end FinanceContext.RowAdjacency
