import FinanceContext.RepeatedKeys

namespace FinanceContext.Timelines

open Dictionaries

abbrev Fingerprint := List (String × List Bool)

def flagsCompatible (left right : Fingerprint) : Bool := left = [] || right = [] || left = right

/-- What the signatures of an axis hold of one period. -/
structure PeriodSignature where
  periodKey : String
  kind : ColumnKind
  marker : String
  groupKey : Option String
deriving DecidableEq

def periodSignature (casefold : String → String) (period : AxisPeriod) : PeriodSignature where
  periodKey := period.periodKey
  kind := period.kind
  marker := RepeatedKeys.markerToken casefold period.variant
  groupKey := period.groupKey

abbrev Entry := TimeAxis × Fingerprint

abbrev AxisSignature := Option String × List (ℕ × PeriodSignature)

abbrev ColumnSignature := Option String × List (ℕ × String)

/-- The blocks and axes of a sheet, what its flag cells hold, and which axis derives from which. -/
structure Sheet where
  blocks : List Block
  axes : List TimeAxis
  ids : (axes.map (·.id)).Nodup
  casefold : String → String
  flagBit : ℕ → ℕ → Bool
  derivedAxis : TimeAxis → TimeAxis → Bool

section Signatures

variable (sheet : Sheet)

def axisSignature (axis : TimeAxis) : AxisSignature :=
  (axis.grain, axis.periods.map fun period =>
    (period.col, periodSignature sheet.casefold period))

def columnSignature (axis : TimeAxis) : ColumnSignature :=
  (axis.grain, axis.periods.map fun period => (period.col, period.periodKey))

def hasExplicitMarker (axis : TimeAxis) : Bool :=
  axis.periods.any fun period =>
    period.explicitRole || !(period.variant = none || period.variant = some "")

/-- `owner.get`: the first block that names the axis. -/
def ownerOf (axis : TimeAxis) : Option Block :=
  sheet.blocks.find? fun block => block.axisIds.contains axis.id

def flagFingerprint (axis : TimeAxis) : Fingerprint :=
  match ownerOf sheet axis with
  | none => []
  | some block =>
    (block.rows.filter (·.kind = .flag)).map fun row =>
      (row.label, axis.periods.map fun period => sheet.flagBit row.row period.col)

end Signatures

/-- What becomes of an axis: it derives from a kept one, it is the marked axis of its columns, it
matches a kept axis, or it is kept. -/
inductive Outcome
  | derived (other : TimeAxis)
  | painted (previous : Entry)
  | matched (previous : Entry)
  | kept

structure Sharing where
  buckets : List (AxisSignature × List Entry) := []
  byColumns : List (ColumnSignature × List Entry) := []
  aliases : List (String × String) := []
  kept : List TimeAxis := []

section Tables

variable {K : Type} [DecidableEq K]

def itemsOf (key : K) (table : List (K × List Entry)) : List Entry := (get key table).getD []

def rememberFlags (axisId : String) (fingerprint : Fingerprint) (table : List (K × List Entry)) :
    List (K × List Entry) :=
  table.map fun row => (row.1, row.2.map fun entry =>
    (entry.1, if entry.1.id = axisId ∧ entry.2 = [] then fingerprint else entry.2))

def fillFlags (key : K) (axisId : String) (fingerprint : Fingerprint)
    (table : List (K × List Entry)) : List (K × List Entry) :=
  set key ((itemsOf key table).map fun entry =>
    (entry.1, if entry.1.id = axisId then fingerprint else entry.2)) table

end Tables

section Steps

variable (sheet : Sheet)

def Sharing.outcome (st : Sharing) (axis : TimeAxis) : Outcome :=
  let fingerprint := flagFingerprint sheet axis
  match st.kept.find? fun other => sheet.derivedAxis axis other with
  | some other => .derived other
  | none =>
    let painted :=
      if hasExplicitMarker axis then none
      else (itemsOf (columnSignature axis) st.byColumns).find? fun previous =>
        hasExplicitMarker previous.1 && flagsCompatible previous.2 fingerprint
    match painted with
    | some previous => .painted previous
    | none =>
      match (itemsOf (axisSignature sheet axis) st.buckets).find? fun previous =>
          flagsCompatible previous.2 fingerprint with
      | some previous => .matched previous
      | none => .kept

def Sharing.apply (st : Sharing) (axis : TimeAxis) : Outcome → Sharing
  | .derived other => { st with aliases := set axis.id other.id st.aliases }
  | .painted previous =>
    let fingerprint := flagFingerprint sheet axis
    let st := { st with aliases := set axis.id previous.1.id st.aliases }
    if previous.2 = [] ∧ fingerprint ≠ [] then
      { st with
        byColumns := rememberFlags previous.1.id fingerprint st.byColumns
        buckets := rememberFlags previous.1.id fingerprint st.buckets }
    else st
  | .matched previous =>
    let fingerprint := flagFingerprint sheet axis
    let st := { st with aliases := set axis.id previous.1.id st.aliases }
    if previous.2 = [] ∧ fingerprint ≠ [] then
      { st with buckets :=
          fillFlags (axisSignature sheet axis) previous.1.id fingerprint st.buckets }
    else st
  | .kept =>
    let entry := (axis, flagFingerprint sheet axis)
    { st with
      buckets := push (axisSignature sheet axis) entry st.buckets
      byColumns := push (columnSignature axis) entry st.byColumns
      kept := st.kept ++ [axis] }

def Sharing.step (st : Sharing) (axis : TimeAxis) : Sharing :=
  st.apply sheet axis (st.outcome sheet axis)

def sharing (axes : List TimeAxis) : Sharing := axes.foldl (Sharing.step sheet) {}

def mapIds (aliases : List (String × String)) (ids : List String) : List String :=
  ids.foldl (fun seen id =>
    let mapped := (get id aliases).getD id
    if mapped ∈ seen then seen else seen ++ [mapped]) []

def mapBlock (st : Sharing) (block : Block) : Block :=
  let seen := mapIds st.aliases block.axisIds
  let axis :=
    match seen with
    | [id] =>
      match st.kept.find? (·.id = id) with
      | some axis => some (projectAxis axis)
      | none => block.axis
    | _ => none
  { block with axisIds := seen, axis }

def shareRepeatedAxes : List Block × List TimeAxis :=
  let st := sharing sheet sheet.axes
  if st.aliases = [] then (sheet.blocks, sheet.axes)
  else (sheet.blocks.map (mapBlock st), st.kept)

end Steps

end FinanceContext.Timelines
