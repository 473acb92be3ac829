import FinanceContext.Dictionaries
import FinanceContext.RemoteCalls
import Mathlib.Data.Int.Notation
import Mathlib.Tactic.SplitIfs

/-!
The row-group writer over a file system whose calls may fail: the file it publishes, and the
temporary files beside it.
-/

namespace FinanceContext.RowGroupFiles

open Dictionaries RemoteCalls

variable {α β : Type}

abbrev Parquet (α : Type) := List (List α)

structure Disk (α : Type) where
  dest : Option (Parquet α)
  temps : List (ℕ × Parquet α)

/-- `temporary` is `temporary_path`, `replace` is `atomic_replace`. -/
inductive FileOp (α : Type) where
  | temporary
  | copy (name : ℕ) (file : Parquet α)
  | read (name : ℕ)
  | replace (name : ℕ)
  | unlink (name : ℕ)

inductive FileAnswer (α : Type) where
  | ok
  | failed
  | name (name : ℕ)
  | file (file : Parquet α)

def Disk.without (disk : Disk α) (names : List ℕ) : Disk α :=
  { disk with temps := disk.temps.filter fun temp => !decide (temp.1 ∈ names) }

def Disk.publish (disk : Disk α) (name : ℕ) (file : Parquet α) : Disk α :=
  { disk.without [name] with dest := some file }

/-- What the file system may do. A copy that fails may leave any file under its name, and a
replacement that fails may have taken place: its directory is synced last. Where it is `tidy`, a
file is deleted when it is to be, and a temporary file that cannot be made is not there. -/
inductive Respond (tidy : Prop) : FileOp α → Disk α → FileAnswer α → Disk α → Prop
  | temporary {disk : Disk α} {name : ℕ} (h : name ∉ disk.temps.map Prod.fst) :
    Respond tidy .temporary disk (.name name) { disk with temps := disk.temps ++ [(name, [])] }
  | temporaryFailed {disk : Disk α} : Respond tidy .temporary disk .failed disk
  | temporaryLeft {disk : Disk α} {name : ℕ} (huntidy : ¬tidy)
    (h : name ∉ disk.temps.map Prod.fst) :
    Respond tidy .temporary disk .failed { disk with temps := disk.temps ++ [(name, [])] }
  | copy {disk : Disk α} {name : ℕ} {file : Parquet α} :
    Respond tidy (.copy name file) disk .ok { disk with temps := set name file disk.temps }
  | copyFailed {disk : Disk α} {name : ℕ} {file : Parquet α} :
    Respond tidy (.copy name file) disk .failed disk
  | copyStopped {disk : Disk α} {name : ℕ} {file left : Parquet α} :
    Respond tidy (.copy name file) disk .failed { disk with temps := set name left disk.temps }
  | read {disk : Disk α} {name : ℕ} {file : Parquet α} (h : get name disk.temps = some file) :
    Respond tidy (.read name) disk (.file file) disk
  | readFailed {disk : Disk α} {name : ℕ} : Respond tidy (.read name) disk .failed disk
  | replace {disk : Disk α} {name : ℕ} {file : Parquet α} (h : get name disk.temps = some file) :
    Respond tidy (.replace name) disk .ok (disk.publish name file)
  | replaceFailed {disk : Disk α} {name : ℕ} : Respond tidy (.replace name) disk .failed disk
  | replaceUnsynced {disk : Disk α} {name : ℕ} {file : Parquet α}
    (h : get name disk.temps = some file) :
    Respond tidy (.replace name) disk .failed (disk.publish name file)
  | unlink {disk : Disk α} {name : ℕ} : Respond tidy (.unlink name) disk .ok (disk.without [name])
  | unlinkFailed {disk : Disk α} {name : ℕ} (huntidy : ¬tidy) :
    Respond tidy (.unlink name) disk .failed disk

/-- `RowGroupWriter`; a part is a temporary file. -/
structure Writer (α : Type) where
  rowGroupRows : ℤ
  buffered : ℕ
  chunks : List (List α)
  parts : List ℕ
  streaming : Bool
  closed : Bool

abbrev Run (α β : Type) := ExceptT (Writer α) (Prog (FileOp α) (FileAnswer α)) β

section Code

def answer (op : FileOp α) : Run α (FileAnswer α) :=
  liftM (Prog.ask op : Prog (FileOp α) (FileAnswer α) (FileAnswer α))

variable (writer : Writer α)

def perform (op : FileOp α) : Run α Unit := do
  match ← answer op with
  | .failed => throw writer
  | _ => pure ()

def temporary : Run α ℕ := do
  match ← answer .temporary with
  | .name name => pure name
  | _ => throw writer

/-- `try` with `except BaseException: tmp.unlink(missing_ok=True); raise`. -/
def guarded (name : ℕ) (body : Run α β) : Run α β :=
  tryCatch body fun failed => do
    perform failed (.unlink name)
    throw failed

def writeTableFile (file : Parquet α) : Run α Unit := do
  let tmp ← temporary writer
  perform writer (.unlink tmp)
  guarded tmp do
    perform writer (.copy tmp file)
    perform writer (.replace tmp)

def writeGroup (group : List α) : Run α (Writer α) := do
  let part ← temporary writer
  perform writer (.unlink part)
  guarded part (perform writer (.copy part [group]))
  pure { writer with parts := writer.parts ++ [part] }

def writeGroups (writer : Writer α) : List (List α) → Run α (Writer α)
  | [] => pure writer
  | group :: groups => do
    let writer ← writeGroup writer group
    writeGroups writer groups

def startGroups : Run α (Writer α) :=
  if writer.streaming then pure writer
  else writeGroups { writer with streaming := true, chunks := [], buffered := 0 } writer.chunks

def writeLists (group : List α) : Run α (Writer α) :=
  if writer.closed then throw writer
  else if group = [] then pure writer
  else if !writer.streaming && decide (writer.rowGroupRows ≤ 0 ∨
      (writer.buffered + group.length : ℤ) ≤ writer.rowGroupRows) then
    pure { writer with
      chunks := writer.chunks ++ [group]
      buffered := writer.buffered + group.length }
  else do
    let writer ← startGroups writer
    writeGroup writer group

/-- `_drop_parts`: the writer has no parts while they are deleted. -/
def dropParts (writer : Writer α) : List ℕ → Run α Unit
  | [] => pure ()
  | part :: parts => do
    perform { writer with parts := [] } (.unlink part)
    dropParts writer parts

/-- The loop of `_stitch`, with the file written so far. -/
def copyParts (tmp : ℕ) (file : Parquet α) : List ℕ → Run α Unit
  | [] => pure ()
  | part :: parts => do
    match ← answer (.read part) with
    | .file groups =>
      perform writer (.copy tmp (file ++ groups))
      copyParts tmp (file ++ groups) parts
    | _ => throw writer

def stitch : Run α Unit := do
  let tmp ← temporary writer
  guarded tmp (copyParts writer tmp [] writer.parts)
  guarded tmp (perform writer (.replace tmp))
  dropParts writer writer.parts

def finish : Run α Unit :=
  if !writer.streaming then writeTableFile writer [writer.chunks.flatten]
  else
    match writer.parts with
    | [] => writeTableFile writer [[]]
    | [part] => perform writer (.replace part)
    | _ => stitch writer

/-- The clean-up of `close` and of `_abort_tmp`. -/
def abandoned (body : Run α β) : Run α β :=
  tryCatch body fun failed => do
    dropParts failed failed.parts
    throw { failed with parts := [], closed := true }

def close : Run α Unit :=
  if writer.closed then pure ()
  else abandoned (finish { writer with closed := true })

/-- What the body of the `with` block does; it may raise at any point. -/
inductive Call (α : Type) where
  | writeLists (group : List α)
  | beginRowGroups
  | raise

def runCall : Call α → Run α (Writer α)
  | .writeLists group => writeLists writer group
  | .beginRowGroups => startGroups writer
  | .raise => throw writer

def body (writer : Writer α) : List (Call α) → Run α (Writer α)
  | [] => pure writer
  | call :: calls => do
    let writer ← runCall writer call
    body writer calls

def create (rowGroupRows : ℤ) : Writer α := ⟨rowGroupRows, 0, [], [], false, false⟩

/-- `with RowGroupWriter(path, columns, row_group_rows) as writer` -/
def withWriter (rowGroupRows : ℤ) (calls : List (Call α)) : Run α Unit := do
  let writer ← abandoned (body (create rowGroupRows) calls)
  close writer

def Call.rows : Call α → List α
  | .writeLists group => group
  | .beginRowGroups => []
  | .raise => []

end Code

section Calls

variable {tidy : Prop} {I : Disk α → Prop} {writer : Writer α} {s : Disk α}

/-- A condition on the destination. -/
def OnDest (I : Disk α → Prop) : Prop := ∀ s t : Disk α, s.dest = t.dest → I s → I t

theorem ends_temporary (hI : OnDest I) (hs : I s) : Ends (Respond tidy) I (temporary writer)
    (fun name t => name ∉ s.temps.map Prod.fst ∧ t = { s with temps := s.temps ++ [(name, [])] })
    (fun failed t => tidy → failed = writer ∧ t = s) s := by
  apply Ends.bind
  apply Ends.ask hs
  intro ans t hans
  cases hans with
  | temporary h => exact ⟨hI s _ rfl hs, Ends.pure (hI s _ rfl hs) ⟨h, rfl⟩⟩
  | temporaryFailed => exact ⟨hI s _ rfl hs, Ends.throw (hI s _ rfl hs) fun _ => ⟨rfl, rfl⟩⟩
  | temporaryLeft huntidy h =>
    exact ⟨hI s _ rfl hs, Ends.throw (hI s _ rfl hs) fun htidy => absurd htidy huntidy⟩

theorem ends_unlink (hI : OnDest I) (hs : I s) (name : ℕ) :
    Ends (Respond tidy) I (perform writer (.unlink name)) (fun _ t => t = s.without [name])
      (fun _ _ => ¬tidy) s := by
  apply Ends.bind
  apply Ends.ask hs
  intro ans t hans
  cases hans with
  | unlink => exact ⟨hI s _ rfl hs, Ends.pure (hI s _ rfl hs) rfl⟩
  | unlinkFailed huntidy => exact ⟨hI s _ rfl hs, Ends.throw (hI s _ rfl hs) huntidy⟩

theorem ends_copy (hI : OnDest I) (hs : I s) (name : ℕ) (file : Parquet α) :
    Ends (Respond tidy) I (perform writer (.copy name file))
      (fun _ t => t = { s with temps := set name file s.temps })
      (fun failed t => failed = writer ∧
        (t = s ∨ ∃ left, t = { s with temps := set name left s.temps })) s := by
  apply Ends.bind
  apply Ends.ask hs
  intro ans t hans
  cases hans with
  | copy => exact ⟨hI s _ rfl hs, Ends.pure (hI s _ rfl hs) rfl⟩
  | copyFailed => exact ⟨hI s _ rfl hs, Ends.throw (hI s _ rfl hs) ⟨rfl, .inl rfl⟩⟩
  | copyStopped => exact ⟨hI s _ rfl hs, Ends.throw (hI s _ rfl hs) ⟨rfl, .inr ⟨_, rfl⟩⟩⟩

theorem ends_replace (hI : OnDest I) (hs : I s) {name : ℕ} {file : Parquet α}
    (hfile : get name s.temps = some file) (hpublish : I (s.publish name file)) :
    Ends (Respond tidy) I (perform writer (.replace name)) (fun _ t => t = s.publish name file)
      (fun failed t => failed = writer ∧ (t = s ∨ t = s.publish name file)) s := by
  apply Ends.bind
  apply Ends.ask hs
  intro ans t hans
  cases hans with
  | replace h =>
    obtain rfl := Option.some.inj (h.symm.trans hfile)
    exact ⟨hpublish, Ends.pure hpublish rfl⟩
  | replaceFailed => exact ⟨hI s _ rfl hs, Ends.throw (hI s _ rfl hs) ⟨rfl, .inl rfl⟩⟩
  | replaceUnsynced h =>
    obtain rfl := Option.some.inj (h.symm.trans hfile)
    exact ⟨hpublish, Ends.throw hpublish ⟨rfl, .inr rfl⟩⟩

theorem ends_guarded {body : Run α β} {Q : β → Disk α → Prop} {E : Writer α → Disk α → Prop}
    {name : ℕ} (hI : OnDest I) (h : Ends (Respond tidy) I body Q
      (fun failed t => tidy → E failed (t.without [name])) s) :
    Ends (Respond tidy) I (guarded name body) Q (fun failed t => tidy → E failed t) s := by
  apply Ends.tryCatch
  apply Ends.mono h (fun _ _ _ hQ => hQ)
  intro failed t ht hE
  apply Ends.bind
  apply Ends.mono (ends_unlink hI ht name)
  · rintro _ t' ht' rfl
    exact Ends.throw ht' hE
  · intro _ _ _ huntidy htidy
    exact absurd htidy huntidy

theorem ends_dropParts (hI : OnDest I) (names : List ℕ) (hs : I s) :
    Ends (Respond tidy) I (dropParts writer names) (fun _ t => t = s.without names)
      (fun _ _ => ¬tidy) s := by
  induction names generalizing s with
  | nil =>
    refine Ends.pure hs ?_
    rw [Disk.without]
    simp
  | cons name names ih =>
    apply Ends.bind
    apply Ends.mono (ends_unlink hI hs name)
    · rintro _ t ht rfl
      apply Ends.mono (ih ht)
      · rintro _ t' _ rfl
        simp [Disk.without, List.filter_filter, Bool.and_comm]
      · intro _ _ _ huntidy
        exact huntidy
    · intro _ _ _ huntidy
      exact huntidy

end Calls

section Fresh

variable {tidy : Prop} {I : Disk α → Prop} {writer : Writer α} {s : Disk α} {name : ℕ}

theorem without_of_notMem (h : name ∉ s.temps.map Prod.fst) : s.without [name] = s := by
  have hkept : s.temps.filter (fun temp => !decide (temp.1 ∈ [name])) = s.temps := by
    refine List.filter_eq_self.mpr fun temp htemp => ?_
    have hne : temp.1 ≠ name := fun heq => h (heq ▸ List.mem_map_of_mem htemp)
    simp [hne]
  rw [Disk.without, hkept]

theorem without_fresh (h : name ∉ s.temps.map Prod.fst) (file : Parquet α) :
    ({ s with temps := s.temps ++ [(name, file)] } : Disk α).without [name] = s := by
  have hkept : s.temps.filter (fun temp => !decide (temp.1 ∈ [name])) = s.temps :=
    congrArg Disk.temps (without_of_notMem h)
  have hdropped : [(name, file)].filter (fun temp => !decide (temp.1 ∈ [name])) = [] := by simp
  rw [Disk.without, List.filter_append, hkept, hdropped, List.append_nil]

theorem without_set (h : name ∉ s.temps.map Prod.fst) (file : Parquet α) :
    ({ s with temps := set name file s.temps } : Disk α).without [name] = s := by
  rw [set_of_notMem file h]
  exact without_fresh h file

theorem ends_fresh {f : ℕ → Run α β} {Q : β → Disk α → Prop} {E : Writer α → Disk α → Prop}
    (hI : OnDest I) (hs : I s) (hE : E writer s) (hf : ∀ name, name ∉ s.temps.map Prod.fst →
      Ends (Respond tidy) I (f name) Q (fun failed t => tidy → E failed t) s) :
    Ends (Respond tidy) I (temporary writer >>= fun name => perform writer (.unlink name) >>=
      fun _ => f name) Q (fun failed t => tidy → E failed t) s := by
  apply Ends.bind
  apply Ends.mono (ends_temporary hI hs)
  · rintro name t ht ⟨hname, rfl⟩
    apply Ends.bind
    apply Ends.mono (ends_unlink hI ht name)
    · rintro _ t' - rfl
      rw [without_fresh hname]
      exact hf name hname
    · intro _ _ _ huntidy htidy
      exact absurd htidy huntidy
  · intro failed t _ hfailed htidy
    obtain ⟨rfl, rfl⟩ := hfailed htidy
    exact hE

theorem ends_guarded_copy (hI : OnDest I) (hs : I s) (hname : name ∉ s.temps.map Prod.fst)
    (file : Parquet α) : Ends (Respond tidy) I (guarded name (perform writer (.copy name file)))
      (fun _ t => t = { s with temps := s.temps ++ [(name, file)] })
      (fun failed t => tidy → failed = writer ∧ t = s) s := by
  apply ends_guarded hI
  apply Ends.mono (ends_copy hI hs name file)
  · rintro _ t - rfl
    rw [set_of_notMem file hname]
  · rintro failed t - ⟨rfl, rfl | ⟨left, rfl⟩⟩ -
    · exact ⟨rfl, without_of_notMem hname⟩
    · exact ⟨rfl, without_set hname left⟩

end Fresh

section Parts

variable {tidy : Prop} {I : Disk α → Prop} {writer : Writer α} {s : Disk α} {old : Option (Parquet α)}
  {temps : List (ℕ × Parquet α)} {parts : List (ℕ × List α)}

/-- The disk has the old destination and, after the files it had, the parts of the writer. -/
structure Kept (old : Option (Parquet α)) (temps : List (ℕ × Parquet α))
    (parts : List (ℕ × List α)) (disk : Disk α) : Prop where
  dest : disk.dest = old
  temps : disk.temps = temps ++ parts.map fun part => (part.1, [part.2])
  nodup : (disk.temps.map Prod.fst).Nodup

/-- Without the parts of the writer, the disk has the files it had. -/
def Owes (temps : List (ℕ × Parquet α)) (writer : Writer α) (disk : Disk α) : Prop :=
  (disk.without writer.parts).temps = temps

theorem Kept.owes (h : Kept old temps parts s) (hparts : writer.parts = parts.map Prod.fst) :
    Owes temps writer s := by
  have hnodup := h.nodup
  rw [h.temps, List.map_append, List.nodup_append] at hnodup
  obtain ⟨-, -, hapart⟩ := hnodup
  have hkeys : (parts.map fun part => (part.1, [part.2])).map Prod.fst = parts.map Prod.fst := by
    rw [List.map_map]
    rfl
  rw [Owes, Disk.without, h.temps, List.filter_append, hparts]
  have hold : temps.filter (fun temp => !decide (temp.1 ∈ parts.map Prod.fst)) = temps := by
    refine List.filter_eq_self.mpr fun temp htemp => ?_
    have hnot : temp.1 ∉ parts.map Prod.fst := fun hmem =>
      hapart _ (List.mem_map_of_mem htemp) _ (hkeys ▸ hmem) rfl
    simpa using hnot
  have hnew : (parts.map fun part => (part.1, [part.2])).filter
      (fun temp => !decide (temp.1 ∈ parts.map Prod.fst)) = [] := by
    refine List.filter_eq_nil_iff.mpr fun temp htemp => ?_
    have hmem : temp.1 ∈ parts.map Prod.fst := hkeys ▸ List.mem_map_of_mem htemp
    simpa using hmem
  rw [hold, hnew, List.append_nil]

theorem ends_writeGroup (hI : OnDest I) (hs : I s) (h : Kept old temps parts s)
    (group : List α) : Ends (Respond tidy) I (writeGroup writer group)
      (fun next t => ∃ part, next = { writer with parts := writer.parts ++ [part] } ∧
        Kept old temps (parts ++ [(part, group)]) t)
      (fun failed t => tidy → failed = writer ∧ t = s) s := by
  apply ends_fresh hI hs ⟨rfl, rfl⟩
  intro part hpart
  apply Ends.bind
  apply Ends.mono (ends_guarded_copy hI hs hpart [group])
  · rintro _ t ht rfl
    refine Ends.pure ht ⟨part, rfl, h.dest, ?_, ?_⟩
    · rw [h.temps]
      simp
    · rw [List.map_append]
      refine List.nodup_append.mpr ⟨h.nodup, List.nodup_singleton part, ?_⟩
      intro a ha b hb heq
      obtain rfl : b = part := by simpa using hb
      exact hpart (heq ▸ ha)
  · intro failed t _ hE
    exact hE

end Parts

section Body

variable {tidy : Prop} {I : Disk α → Prop} {P : List α → Prop} {old : Option (Parquet α)}
  {temps : List (ℕ × Parquet α)} {writer : Writer α} {parts : List (ℕ × List α)} {s : Disk α}
  {written : List α}

/-- Between two calls of the body: the rows written are in the parts, or wait in memory before
there is a part. -/
structure Filed (P : List α → Prop) (old : Option (Parquet α)) (temps : List (ℕ × Parquet α))
    (writer : Writer α) (parts : List (ℕ × List α)) (disk : Disk α) (written : List α) : Prop where
  kept : Kept old temps parts disk
  names : writer.parts = parts.map Prod.fst
  rows : (parts.map Prod.snd).flatten ++ writer.chunks.flatten = written
  groups : ∀ part ∈ parts, P part.2
  chunks : ∀ chunk ∈ writer.chunks, P chunk
  fits : ∀ group : List α, writer.rowGroupRows ≤ 0 ∨
    (group.length : ℤ) ≤ writer.rowGroupRows → P group
  opened : writer.closed = false
  streamed : writer.streaming = true → writer.chunks = []
  buffered : writer.streaming = false → parts = [] ∧
    writer.buffered = writer.chunks.flatten.length ∧
      (writer.rowGroupRows ≤ 0 ∨ (writer.buffered : ℤ) ≤ writer.rowGroupRows)

def Between (P : List α → Prop) (old : Option (Parquet α)) (temps : List (ℕ × Parquet α))
    (writer : Writer α) (disk : Disk α) (written : List α) : Prop :=
  ∃ parts, Filed P old temps writer parts disk written

theorem Filed.owes (h : Filed P old temps writer parts s written) : Owes temps writer s :=
  h.kept.owes h.names

theorem Filed.group (h : Filed P old temps writer parts s written)
    (hstream : writer.streaming = true) {group : List α} (hgroup : P group) {part : ℕ}
    {t : Disk α} (hkept : Kept old temps (parts ++ [(part, group)]) t) :
    Filed P old temps { writer with parts := writer.parts ++ [part] } (parts ++ [(part, group)]) t
      (written ++ group) where
  kept := hkept
  names := by rw [h.names, List.map_append]; rfl
  rows := by
    have hrows := h.rows
    rw [h.streamed hstream, List.flatten_nil, List.append_nil] at hrows
    simp [h.streamed hstream, hrows]
  groups := by
    intro other hother
    rcases List.mem_append.mp hother with hold | hnew
    · exact h.groups other hold
    · rw [List.mem_singleton.mp hnew]
      exact hgroup
  chunks := h.chunks
  fits := h.fits
  opened := h.opened
  streamed := h.streamed
  buffered := by
    intro hfalse
    rw [hstream] at hfalse
    cases hfalse

theorem ends_writeGroup_between (hI : OnDest I) (hs : I s)
    (h : Filed P old temps writer parts s written) (hstream : writer.streaming = true)
    {group : List α} (hgroup : P group) : Ends (Respond tidy) I (writeGroup writer group)
      (fun next t => Between P old temps next t (written ++ group) ∧ next.streaming = true)
      (fun failed t => tidy → Owes temps failed t) s := by
  apply Ends.mono (ends_writeGroup hI hs h.kept group)
  · rintro next t - ⟨part, rfl, hkept⟩
    exact ⟨⟨_, h.group hstream hgroup hkept⟩, hstream⟩
  · intro failed t _ hfailed htidy
    obtain ⟨rfl, rfl⟩ := hfailed htidy
    exact h.owes

theorem ends_writeGroups (hI : OnDest I) (hs : I s) (groups : List (List α))
    (hgroups : ∀ group ∈ groups, P group) (h : Filed P old temps writer parts s written)
    (hstream : writer.streaming = true) : Ends (Respond tidy) I (writeGroups writer groups)
      (fun next t => Between P old temps next t (written ++ groups.flatten) ∧
        next.streaming = true)
      (fun failed t => tidy → Owes temps failed t) s := by
  induction groups generalizing writer parts s written with
  | nil =>
    refine Ends.pure hs ⟨⟨parts, ?_⟩, hstream⟩
    rwa [List.flatten_nil, List.append_nil]
  | cons group groups ih =>
    apply Ends.bind
    apply Ends.mono (ends_writeGroup_between hI hs h hstream (hgroups group List.mem_cons_self))
    · rintro next t ht ⟨⟨parts', hnext⟩, hstream'⟩
      have hrest := ih ht (fun other hother => hgroups other (List.mem_cons_of_mem _ hother)) hnext
        hstream'
      rwa [List.append_assoc] at hrest
    · intro failed t _ hE
      exact hE

theorem ends_startGroups (hI : OnDest I) (hs : I s)
    (h : Filed P old temps writer parts s written) : Ends (Respond tidy) I (startGroups writer)
      (fun next t => Between P old temps next t written ∧ next.streaming = true)
      (fun failed t => tidy → Owes temps failed t) s := by
  rw [startGroups]
  split_ifs with hstream
  · exact Ends.pure hs ⟨⟨parts, h⟩, hstream⟩
  · obtain ⟨rfl, -, -⟩ := h.buffered (by simpa using hstream)
    have hempty : Filed P old temps { writer with streaming := true, chunks := [], buffered := 0 }
        [] s [] :=
      ⟨h.kept, h.names, rfl, h.groups, by simp, h.fits, h.opened, fun _ => rfl,
        fun hfalse => by cases hfalse⟩
    have hrows : writer.chunks.flatten = written := h.rows
    rw [← hrows]
    exact ends_writeGroups hI hs writer.chunks h.chunks hempty rfl

theorem ends_writeLists (hI : OnDest I) (hs : I s)
    (h : Filed P old temps writer parts s written) {group : List α} (hgroup : P group) :
    Ends (Respond tidy) I (writeLists writer group)
      (fun next t => Between P old temps next t (written ++ group))
      (fun failed t => tidy → Owes temps failed t) s := by
  rw [writeLists, if_neg (by simp [h.opened])]
  split_ifs with hempty hwait
  · refine Ends.pure hs ⟨parts, ?_⟩
    rwa [hempty, List.append_nil]
  · obtain ⟨hfalse, hroom⟩ := Bool.and_eq_true_iff.mp hwait
    have hstream : writer.streaming = false := by simpa using hfalse
    obtain ⟨hparts, hbuffered, -⟩ := h.buffered hstream
    refine Ends.pure hs ⟨parts, h.kept, h.names, ?_, h.groups, ?_, h.fits, h.opened, ?_, ?_⟩
    · rw [← h.rows]
      simp
    · intro chunk hchunk
      rcases List.mem_append.mp hchunk with hold | hnew
      · exact h.chunks chunk hold
      · rw [List.mem_singleton.mp hnew]
        exact hgroup
    · intro htrue
      rw [hstream] at htrue
      cases htrue
    · intro _
      refine ⟨hparts, ?_, ?_⟩
      · simp [hbuffered]
      · simpa using hroom
  · apply Ends.bind
    apply Ends.mono (ends_startGroups hI hs h)
    · rintro next t ht ⟨⟨parts', hnext⟩, hstream⟩
      apply Ends.mono (ends_writeGroup_between hI ht hnext hstream hgroup)
      · intro next' t' _ hbetween
        exact hbetween.1
      · intro failed t' _ hE
        exact hE
    · intro failed t _ hE
      exact hE

theorem ends_body (hI : OnDest I) (hs : I s) (calls : List (Call α))
    (hcalls : ∀ call ∈ calls, P call.rows) (h : Filed P old temps writer parts s written) :
    Ends (Respond tidy) I (body writer calls)
      (fun next t => Between P old temps next t (written ++ calls.flatMap Call.rows))
      (fun failed t => tidy → Owes temps failed t) s := by
  induction calls generalizing writer parts s written with
  | nil =>
    refine Ends.pure hs ⟨parts, ?_⟩
    rwa [List.flatMap_nil, List.append_nil]
  | cons call calls ih =>
    apply Ends.bind
    have hcall : Ends (Respond tidy) I (runCall writer call)
        (fun next t => Between P old temps next t (written ++ call.rows))
        (fun failed t => tidy → Owes temps failed t) s := by
      cases call with
      | writeLists group => exact ends_writeLists hI hs h (hcalls _ List.mem_cons_self)
      | beginRowGroups =>
        apply Ends.mono (ends_startGroups hI hs h)
        · rintro next t - ⟨hbetween, -⟩
          rwa [Call.rows, List.append_nil]
        · intro failed t _ hE
          exact hE
      | raise => exact Ends.throw hs fun _ => h.owes
    apply Ends.mono hcall
    · rintro next t ht ⟨parts', hnext⟩
      have hrest := ih ht (fun other hother => hcalls other (List.mem_cons_of_mem _ hother)) hnext
      rwa [List.append_assoc, ← List.flatMap_cons] at hrest
    · intro failed t _ hE
      exact hE

end Body

section Publishing

variable {tidy : Prop} {I : Disk α → Prop} {writer : Writer α} {s : Disk α} {name : ℕ}

def Disk.with (disk : Disk α) (name : ℕ) (file : Parquet α) : Disk α :=
  { disk with temps := disk.temps ++ [(name, file)] }

theorem get_with (h : name ∉ s.temps.map Prod.fst) (file : Parquet α) :
    get name (s.with name file).temps = some file := by
  have hnone : get name s.temps = none := by
    by_contra hsome
    exact h ((mem_keys_iff _ _).mpr hsome)
  rw [Disk.with, get_append, hnone, get_cons, if_pos rfl, Option.none_or]

theorem set_concat (temps : List (ℕ × Parquet α)) (h : name ∉ temps.map Prod.fst)
    (file file' : Parquet α) :
    Dictionaries.set name file' (temps ++ [(name, file)]) = temps ++ [(name, file')] := by
  induction temps with
  | nil => simp [Dictionaries.set]
  | cons temp temps ih =>
    obtain ⟨hne, hrest⟩ := not_or.mp (mt List.mem_cons.mpr h)
    rw [List.cons_append, Dictionaries.set, if_neg (Ne.symm hne), ih hrest, List.cons_append]

theorem set_with (h : name ∉ s.temps.map Prod.fst) (file file' : Parquet α) :
    ({ s.with name file with
        temps := Dictionaries.set name file' (s.with name file).temps } : Disk α) =
      s.with name file' := by
  rw [Disk.with, set_concat s.temps h]
  rfl

theorem without_with (h : name ∉ s.temps.map Prod.fst) (file : Parquet α) :
    (s.with name file).without [name] = s := without_fresh h file

theorem temps_without (h : name ∉ s.temps.map Prod.fst) :
    (s.without [name]).temps = s.temps := congrArg Disk.temps (without_of_notMem h)

theorem publish_with (h : name ∉ s.temps.map Prod.fst) (file : Parquet α) :
    (s.with name file).publish name file = { s with dest := some file } := by
  rw [Disk.publish, without_with h]

theorem ends_guarded_replace (hI : OnDest I) (hs : I s) (hname : name ∉ s.temps.map Prod.fst)
    {file : Parquet α} (hfile : I { s with dest := some file }) :
    Ends (Respond tidy) I (guarded name (perform writer (.replace name)))
      (fun _ t => t = { s with dest := some file })
      (fun failed t => tidy → failed = writer ∧ t.temps = s.temps) (s.with name file) := by
  apply ends_guarded hI
  have hpublish : I ((s.with name file).publish name file) := by
    rwa [publish_with hname]
  apply Ends.mono (ends_replace hI (hI s (s.with name file) rfl hs) (get_with hname file) hpublish)
  · rintro _ t - rfl
    exact publish_with hname file
  · rintro failed t - ⟨rfl, rfl | rfl⟩ -
    · rw [without_with hname]
      exact ⟨rfl, rfl⟩
    · rw [publish_with hname]
      exact ⟨rfl, temps_without hname⟩

theorem ends_writeTableFile (hI : OnDest I) (hs : I s) {file : Parquet α}
    (hfile : I { s with dest := some file }) : Ends (Respond tidy) I (writeTableFile writer file)
      (fun _ t => t = { s with dest := some file })
      (fun failed t => tidy → failed = writer ∧ t.temps = s.temps) s := by
  apply ends_fresh hI hs ⟨rfl, rfl⟩
  intro tmp htmp
  have hpublish : I ((s.with tmp file).publish tmp file) := by
    rwa [publish_with htmp]
  apply ends_guarded hI
  apply Ends.bind
  apply Ends.mono (ends_copy hI hs tmp file)
  · rintro _ t ht rfl
    rw [set_of_notMem file htmp]
    have hwith : I (s.with tmp file) := hI s _ rfl hs
    apply Ends.mono (ends_replace hI hwith (get_with htmp file) hpublish)
    · rintro _ t' - rfl
      exact publish_with htmp file
    · rintro failed t' - ⟨rfl, rfl | rfl⟩ -
      · exact ⟨rfl, congrArg Disk.temps (without_with htmp file)⟩
      · rw [publish_with htmp]
        exact ⟨rfl, temps_without htmp⟩
  · rintro failed t - ⟨rfl, rfl | ⟨left, rfl⟩⟩ -
    · exact ⟨rfl, temps_without htmp⟩
    · exact ⟨rfl, congrArg Disk.temps (without_set htmp left)⟩

theorem ends_copyParts (hI : OnDest I) (hs : I s) (hname : name ∉ s.temps.map Prod.fst)
    (parts : List (ℕ × List α)) (hparts : ∀ part ∈ parts, get part.1 s.temps = some [part.2])
    (file : Parquet α) :
    Ends (Respond tidy) I (copyParts writer name file (parts.map Prod.fst))
      (fun _ t => t = s.with name (file ++ parts.map Prod.snd))
      (fun failed t => failed = writer ∧ ∃ left, t = s.with name left) (s.with name file) := by
  have hwith (file : Parquet α) : I (s.with name file) := hI s _ rfl hs
  induction parts generalizing file with
  | nil => exact Ends.pure (hwith file) (by rw [List.map_nil, List.append_nil])
  | cons part parts ih =>
    have hpart : get part.1 (s.with name file).temps = some [part.2] := by
      rw [Disk.with, get_append, hparts part List.mem_cons_self, Option.some_or]
    apply Ends.bind
    apply Ends.ask (hwith file)
    intro ans t hans
    cases hans with
    | readFailed => exact ⟨hwith file, Ends.throw (hwith file) ⟨rfl, file, rfl⟩⟩
    | read h =>
      obtain rfl := Option.some.inj (h.symm.trans hpart)
      refine ⟨hwith file, ?_⟩
      apply Ends.bind
      apply Ends.mono (ends_copy hI (hwith file) name (file ++ [part.2]))
      · rintro _ t ht rfl
        rw [set_with hname]
        have hrest := ih (fun other hother => hparts other (List.mem_cons_of_mem _ hother))
          (file ++ [part.2])
        rwa [List.append_assoc] at hrest
      · rintro failed t - ⟨rfl, rfl | ⟨left, rfl⟩⟩
        · exact ⟨rfl, file, rfl⟩
        · exact ⟨rfl, left, set_with hname file left⟩

theorem ends_guarded_copyParts (hI : OnDest I) (hs : I s) (hname : name ∉ s.temps.map Prod.fst)
    (parts : List (ℕ × List α)) (hparts : ∀ part ∈ parts, get part.1 s.temps = some [part.2]) :
    Ends (Respond tidy) I (guarded name (copyParts writer name [] (parts.map Prod.fst)))
      (fun _ t => t = s.with name (parts.map Prod.snd))
      (fun failed t => tidy → failed = writer ∧ t = s) (s.with name []) := by
  apply ends_guarded hI
  apply Ends.mono (ends_copyParts hI hs hname parts hparts [])
  · intro _ t _ ht
    exact ht
  · rintro failed t - ⟨rfl, left, rfl⟩ -
    exact ⟨rfl, without_with hname left⟩

/-- `_stitch`: the parts become the row groups of one file. -/
theorem ends_stitch (hI : OnDest I) (hs : I s) {old : Option (Parquet α)}
    {temps : List (ℕ × Parquet α)} {parts : List (ℕ × List α)} (h : Kept old temps parts s)
    (hnames : writer.parts = parts.map Prod.fst)
    (hfile : I { s with dest := some (parts.map Prod.snd) }) :
    Ends (Respond tidy) I (stitch writer)
      (fun _ t => t.dest = some (parts.map Prod.snd) ∧ t.temps = temps)
      (fun failed t => tidy → Owes temps failed t) s := by
  have howes : Owes temps writer s := h.owes hnames
  have hleft {t : Disk α} (ht : t.temps = s.temps) : (t.without writer.parts).temps = temps := by
    rw [Disk.without, ht]
    exact howes
  have hgot : ∀ part ∈ parts, get part.1 s.temps = some [part.2] := by
    intro part hpart
    apply get_of_mem h.nodup
    rw [h.temps]
    exact List.mem_append_right _ (List.mem_map_of_mem hpart)
  apply Ends.bind
  apply Ends.mono (ends_temporary hI hs)
  · rintro tmp t - ⟨htmp, rfl⟩
    rw [hnames]
    apply Ends.bind
    apply Ends.mono (ends_guarded_copyParts hI hs htmp parts hgot)
    · rintro _ t - rfl
      apply Ends.bind
      apply Ends.mono (ends_guarded_replace hI hs htmp hfile)
      · rintro _ t ht rfl
        rw [← hnames]
        apply Ends.mono (ends_dropParts hI writer.parts ht)
        · rintro _ t - rfl
          exact ⟨rfl, hleft rfl⟩
        · intro _ _ _ huntidy htidy
          exact absurd htidy huntidy
      · intro failed t _ hfailed htidy
        obtain ⟨rfl, ht⟩ := hfailed htidy
        exact hleft ht
    · intro failed t _ hfailed htidy
      obtain ⟨rfl, rfl⟩ := hfailed htidy
      exact howes
  · intro failed t _ hfailed htidy
    obtain ⟨rfl, rfl⟩ := hfailed htidy
    exact howes

end Publishing

section Closing

variable {tidy : Prop} {I : Disk α → Prop} {P : List α → Prop} {old : Option (Parquet α)}
  {temps : List (ℕ × Parquet α)} {writer : Writer α} {parts : List (ℕ × List α)} {s : Disk α}
  {written : List α}

/-- The destination holds the rows, in row groups that are all right. -/
def Published (P : List α → Prop) (rows : List α) (disk : Disk α) : Prop :=
  ∃ file, disk.dest = some file ∧ file.flatten = rows ∧ ∀ group ∈ file, P group

/-- The destination is the old one, or it is published. -/
def Whole (P : List α → Prop) (old : Option (Parquet α)) (rows : List α) (disk : Disk α) : Prop :=
  disk.dest = old ∨ Published P rows disk

theorem onDest_whole (rows : List α) : OnDest (Whole P old rows) := by
  intro s t hdest h
  rwa [Whole, Published, ← hdest]

theorem Kept.published {part : ℕ × List α} (h : Kept old temps [part] s)
    (hparts : writer.parts = [part.1]) :
    (s.publish part.1 [part.2]).temps = temps ∧ Owes temps writer (s.publish part.1 [part.2]) := by
  have howes : (s.without writer.parts).temps = temps := h.owes hparts
  rw [hparts] at howes
  refine ⟨howes, ?_⟩
  rw [Owes, hparts, ← howes]
  simp [Disk.publish, Disk.without, List.filter_filter]

theorem ends_finish (h : Between P old temps writer s written) (closed : Bool) :
    Ends (Respond tidy) (Whole P old written) (finish { writer with closed })
      (fun _ t => Published P written t ∧ t.temps = temps)
      (fun failed t => tidy → Owes temps failed t) s := by
  obtain ⟨parts, h⟩ := h
  have hI : OnDest (Whole P old written) := onDest_whole written
  have hs : Whole P old written s := .inl h.kept.dest
  have hempty : P [] := h.fits [] (by rw [List.length_nil]; omega)
  have hdone {file : Parquet α} (hrows : file.flatten = written) (hfile : ∀ group ∈ file, P group) :
      Published P written { s with dest := some file } := ⟨file, rfl, hrows, hfile⟩
  have hchunks : ({ writer with closed } : Writer α).chunks = writer.chunks := rfl
  have hstreaming : ({ writer with closed } : Writer α).streaming = writer.streaming := rfl
  have hnames : ({ writer with closed } : Writer α).parts = parts.map Prod.fst := h.names
  generalize ({ writer with closed } : Writer α) = last at hchunks hstreaming hnames ⊢
  have howes : Owes temps last s := h.kept.owes hnames
  -- a table that is written whole, with no part beside it
  have hwhole {file : Parquet α} (hparts : parts = []) (hrows : file.flatten = written)
      (hfile : ∀ group ∈ file, P group) : Ends (Respond tidy) (Whole P old written)
        (writeTableFile last file) (fun _ t => Published P written t ∧ t.temps = temps)
        (fun failed t => tidy → Owes temps failed t) s := by
    have htemps : s.temps = temps := by
      rw [h.kept.temps, hparts, List.map_nil, List.append_nil]
    apply Ends.mono (ends_writeTableFile hI hs (.inr (hdone hrows hfile)))
    · rintro _ t - rfl
      exact ⟨hdone hrows hfile, htemps⟩
    · intro failed t _ hfailed htidy
      obtain ⟨rfl, ht⟩ := hfailed htidy
      rwa [Owes, Disk.without, ht]
  rw [finish, hchunks, hstreaming]
  cases hstream : writer.streaming with
  | false =>
    obtain ⟨hparts, hbuffered, hroom⟩ := h.buffered hstream
    have hgroup : P writer.chunks.flatten := h.fits _ (hbuffered ▸ hroom)
    have hrows : [writer.chunks.flatten].flatten = written := by
      rw [← h.rows, hparts]
      simp
    exact hwhole hparts hrows (by simpa using hgroup)
  | true =>
    have hwritten : (parts.map Prod.snd).flatten = written := by
      rw [← h.rows, h.streamed hstream, List.flatten_nil, List.append_nil]
    have hfile : ∀ group ∈ parts.map Prod.snd, P group := by
      intro group hgroup
      obtain ⟨part, hpart, rfl⟩ := List.mem_map.mp hgroup
      exact h.groups part hpart
    rcases parts with _ | ⟨part, _ | ⟨next, rest⟩⟩
    · rw [hnames]
      refine hwhole rfl hwritten fun group hgroup => ?_
      rwa [List.mem_singleton.mp hgroup]
    · obtain ⟨hone, hagain⟩ := h.kept.published hnames
      have hpublished : Published P written (s.publish part.1 [part.2]) :=
        ⟨_, rfl, hwritten, hfile⟩
      have hgot : get part.1 s.temps = some [part.2] := by
        apply get_of_mem h.kept.nodup
        rw [h.kept.temps]
        simp
      rw [hnames]
      apply Ends.mono (ends_replace hI hs hgot (.inr hpublished))
      · rintro _ t - rfl
        exact ⟨hpublished, hone⟩
      · rintro failed t - ⟨rfl, rfl | rfl⟩ -
        · exact howes
        · exact hagain
    · rw [hnames]
      apply Ends.mono (ends_stitch hI hs h.kept hnames (.inr (hdone hwritten hfile)))
      · rintro _ t - ⟨hdest, htemps⟩
        exact ⟨⟨_, hdest, hwritten, hfile⟩, htemps⟩
      · intro failed t _ hE
        exact hE

theorem ends_abandoned (hI : OnDest I) {Q : β → Disk α → Prop} {body : Run α β}
    (h : Ends (Respond tidy) I body Q (fun failed t => tidy → Owes temps failed t) s) :
    Ends (Respond tidy) I (abandoned body) Q (fun _ t => tidy → t.temps = temps) s := by
  apply Ends.tryCatch
  apply Ends.mono h (fun _ _ _ hQ => hQ)
  intro failed t ht howes
  apply Ends.bind
  apply Ends.mono (ends_dropParts hI failed.parts ht)
  · rintro _ t' ht' rfl
    exact Ends.throw ht' howes
  · intro _ _ _ huntidy htidy
    exact absurd htidy huntidy

theorem ends_close (h : Between P old temps writer s written) :
    Ends (Respond tidy) (Whole P old written) (close writer)
      (fun _ t => Published P written t ∧ t.temps = temps) (fun _ t => tidy → t.temps = temps) s := by
  obtain ⟨parts, hfiled⟩ := h
  rw [close, if_neg (by simp [hfiled.opened])]
  exact ends_abandoned (onDest_whole written) (ends_finish ⟨parts, hfiled⟩ true)

theorem filed_create {n : ℤ} (hP : ∀ group : List α, n ≤ 0 ∨ (group.length : ℤ) ≤ n → P group)
    (hnodup : (s.temps.map Prod.fst).Nodup) :
    Filed P s.dest s.temps (create n) [] s [] where
  kept := ⟨rfl, by simp, hnodup⟩
  names := rfl
  rows := rfl
  groups := by simp
  chunks := by simp [create]
  fits := hP
  opened := rfl
  streamed := by simp [create]
  buffered := fun _ => ⟨rfl, rfl, by simp only [create]; omega⟩

end Closing

/-- Where the row groups have a size and no call writes more than it, none is larger. -/
def Sized (n : ℤ) (calls : List (Call α)) (group : List α) : Prop :=
  0 < n → (∀ call ∈ calls, (call.rows.length : ℤ) ≤ n) → (group.length : ℤ) ≤ n

/-- Wherever the writer is stopped, the destination is the old file or all the rows; where the
block is left, by a return or, on a tidy file system, by an error, no temporary file is left. -/
theorem row_groups_or_nothing (tidy : Prop) (n : ℤ) (calls : List (Call α)) (disk : Disk α)
    (hnodup : (disk.temps.map Prod.fst).Nodup) :
    Ends (Respond tidy) (Whole (Sized n calls) disk.dest (calls.flatMap Call.rows))
      (withWriter n calls)
      (fun _ t => Published (Sized n calls) (calls.flatMap Call.rows) t ∧ t.temps = disk.temps)
      (fun _ t => tidy → t.temps = disk.temps) disk := by
  have hI : OnDest (Whole (Sized n calls) disk.dest (calls.flatMap Call.rows)) :=
    onDest_whole _
  have hfits : ∀ group : List α, n ≤ 0 ∨ (group.length : ℤ) ≤ n → Sized n calls group := by
    intro group hgroup hpos _
    omega
  have hcalls : ∀ call ∈ calls, Sized n calls call.rows := by
    intro call hcall _ hall
    exact hall call hcall
  apply Ends.bind
  apply Ends.mono (ends_abandoned hI (ends_body hI (.inl rfl) calls hcalls
    (filed_create hfits hnodup)))
  · intro writer t _ hbetween
    exact ends_close hbetween
  · intro failed t _ htemps
    exact htemps

theorem row_groups_or_nothing_sample :
    let calls : List (Call ℕ) := [.writeLists [7, 8], .beginRowGroups, .writeLists [9]]
    Ends (Respond True) (Whole (Sized 2 calls) none [7, 8, 9]) (withWriter 2 calls)
      (fun _ t => Published (Sized 2 calls) [7, 8, 9] t ∧ t.temps = [(3, [])])
      (fun _ t => True → t.temps = [(3, [])]) ⟨none, [(3, [])]⟩ :=
  row_groups_or_nothing True 2 [.writeLists [7, 8], .beginRowGroups, .writeLists [9]]
    ⟨none, [(3, [])]⟩ (by decide)

end FinanceContext.RowGroupFiles
