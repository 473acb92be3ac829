import FinanceContext.CrashLogic
import FinanceContext.JobMeta

namespace FinanceContext

open CrashLogic

inductive SharedFile where
  | rawCells | rawPresence | rawWorkbook
  | irCells | irEdges | irCellEdges | irCompile
  | layoutJson
  deriving DecidableEq, Repr

inductive SessionFile where
  | graphJson | graphMd | graphIndex | graphEdges
  | contextJson | contextMd | contextRenderer
  deriving DecidableEq, Repr

def SharedFile.stage : SharedFile → Stage
  | layoutJson => .layout
  | _ => .compile

def SessionFile.stage : SessionFile → Stage
  | graphJson | graphMd | graphIndex | graphEdges => .graph
  | contextJson | contextMd | contextRenderer => .publish

/-- A book directory. A file is known by the code that wrote it. -/
@[ext] structure Book (H : Type) where
  source : Bool
  legacy : Bool
  files : SharedFile → Option (Code H)
  stages : Option (Stamp H)

@[ext] structure Dest (H : Type) where
  metaJson : Option (JobMeta H)
  files : SessionFile → Option (Code H)

/-- What one launch can see: the shared book and its own session directory. -/
@[ext] structure Disk (H : Type) where
  book : Book H
  dest : Dest H

inductive Op (H : Type) where
  | unlinkShared (f : SharedFile)
  | unlinkSession (f : SessionFile)
  | unlinkMeta
  | putSource
  | putShared (f : SharedFile) (code : Code H)
  | putSession (f : SessionFile) (code : Code H)
  | updateMeta (mutate : JobMeta H → JobMeta H)
  | putStages (stamp : Stamp H)

variable {H : Type}

def act : Op H → Disk H → Disk H
  | .unlinkShared f, d => { d with book.files := Function.update d.book.files f none }
  | .unlinkSession f, d => { d with dest.files := Function.update d.dest.files f none }
  | .unlinkMeta, d => { d with dest.metaJson := none }
  | .putSource, d => { d with book.source := true }
  | .putShared f code, d => { d with book.files := Function.update d.book.files f (some code) }
  | .putSession f code, d => { d with dest.files := Function.update d.dest.files f (some code) }
  | .updateMeta mutate, d => { d with dest.metaJson := some (mutate (d.dest.metaJson.getD {})) }
  | .putStages st, d => { d with book.stages := some st }

def Book.has (b : Book H) (f : SharedFile) : Bool := (b.files f).isSome

def Dest.has (d : Dest H) (f : SessionFile) : Bool := (d.files f).isSome

def Book.hasSource (b : Book H) : Bool := b.source || b.legacy

def Book.cacheHasBody (b : Book H) : Bool := b.has .layoutJson || b.has .rawWorkbook || b.has .irCells

/-- `ir_is_current`: the three tables and a `compile.json` of this schema. -/
def Book.irIsCurrent [DecidableEq H] (b : Book H) (code : Code H) : Bool :=
  b.has .irCells && b.has .irEdges && b.has .irCellEdges &&
    (b.files .irCompile).any fun c => c.irSchema = code.irSchema

def readyArtifacts : List SessionFile := [.contextJson, .contextMd, .graphJson, .graphMd]

def Dest.ready (d : Dest H) : Bool := readyArtifacts.all d.has

def Dest.hasContext (d : Dest H) : Bool := d.has .contextJson && d.has .contextMd

def Op.sessionOnly : Op H → Bool
  | .unlinkShared _ | .putSource | .putShared _ _ | .putStages _ => false
  | _ => true

def Op.sparesFiles : Op H → Bool
  | .unlinkSession _ | .putSession _ _ => false
  | _ => true

def Op.clears : Op H → Bool
  | .unlinkShared _ | .unlinkSession _ | .unlinkMeta => true
  | _ => false

/-- A write in the session that removes a file or leaves the document no new stamp. -/
def Op.harmless (op : Op H) : Prop :=
  op.sessionOnly = true ∧ op.clears = true ∨
    ∃ mutate, op = .updateMeta mutate ∧ ∀ m, (mutate m).stamp = m.stamp ∨ (mutate m).stamp = .absent

theorem act_book_of_sessionOnly {op : Op H} (h : op.sessionOnly = true) (d : Disk H) :
    (act op d).book = d.book := by
  cases op <;> first | rfl | cases h

theorem act_stages {op : Op H} (h : ∀ st, op ≠ .putStages st) (d : Disk H) :
    (act op d).book.stages = d.book.stages := by
  cases op <;> first | rfl | exact absurd rfl (h _)

theorem shared_of_clears {op : Op H} (h : op.clears = true) {d : Disk H} {f : SharedFile}
    {c : Code H} (hf : (act op d).book.files f = some c) : d.book.files f = some c := by
  cases op <;> simp only [Op.clears, Bool.false_eq_true] at h <;> try exact hf
  simp only [act, Function.update_apply] at hf
  split_ifs at hf
  exact hf

theorem session_of_clears {op : Op H} (h : op.clears = true) {d : Disk H} {f : SessionFile}
    {c : Code H} (hf : (act op d).dest.files f = some c) : d.dest.files f = some c := by
  cases op <;> simp only [Op.clears, Bool.false_eq_true] at h <;> try exact hf
  simp only [act, Function.update_apply] at hf
  split_ifs at hf
  exact hf

theorem files_of_sparesFiles {op : Op H} (h : op.sparesFiles = true) (d : Disk H) :
    (act op d).dest.files = d.dest.files := by
  cases op <;> first | rfl | cases h

theorem meta_of_clears {op : Op H} (h : op.clears = true) {d : Disk H} {m : JobMeta H}
    (hm : (act op d).dest.metaJson = some m) : d.dest.metaJson = some m := by
  cases op <;> simp only [Op.clears, Bool.false_eq_true] at h <;> try exact hm
  cases hm

end FinanceContext
