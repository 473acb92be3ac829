import FinanceContext.NodeCodecs
import FinanceContext.RemoteCalls

namespace FinanceContext

open RemoteCalls

/-- The most recent put of an object: stopped on the way, completed, or completed and found to
have the size of the local file. -/
inductive LastPut where
  | began
  | completed (bytes : List UInt8)
  | checked (bytes : List UInt8)

/-- The objects under a book's keys. `marker` is the list in `_complete.json`; `lastPut` is
what happened to each object, which the store does not record. -/
structure Mirror where
  marker : Option (List String)
  objects : String → Option (List UInt8)
  lastPut : String → Option LastPut

namespace Mirror

def empty : Mirror := ⟨none, fun _ => none, fun _ => none⟩

/-- The last put of the key was checked, and its bytes are there. -/
def Checked (m : Mirror) (key : String) : Prop :=
  ∃ bytes, m.lastPut key = some (.checked bytes) ∧ m.objects key = some bytes

/-- Every key of the marker names a checked object. -/
def Sound (m : Mirror) : Prop := ∀ keys, m.marker = some keys → ∀ key ∈ keys, m.Checked key

end Mirror

inductive StoreOp where
  | put (relative : String)
  | checkSize (relative : String)
  | putMarker (keys : List String)
  | checkMarker
  | readMarker

/-- `failed` carries the HTTP status, where the error names one. -/
inductive StoreAnswer where
  | ok
  | keys (keys : List String)
  | failed (status : Option ℕ)

/-- `_SHARED` and `_SESSION`. -/
def sharedNames : List String :=
  ["source/source.xlsx", "raw/cells.parquet", "raw/cell_presence.parquet", "raw/workbook.json",
    "ir/cells.parquet", "ir/edges.parquet", "ir/cell_edges.parquet", "ir/compile.json",
    "layout/layout.json"]

def sessionNames : List String :=
  ["graph/index.parquet", "graph/edges.parquet", "context/context.json", "context/context.md",
    "graph/graph.json", "graph/graph.md", "meta/meta.json"]

def exportWarning : String := "minio export failed"

structure Bucket where
  table : CharTable
  minioPrefix : String
  jobId : String

namespace Bucket

variable (bucket : Bucket)

def objectKey (relative : String) : String :=
  let slash (text : List Char) := stripChars (· = '/') text
  let tail := (stripChars bucket.table.space relative.toList).dropWhile (· = '/')
  let head := "books/" ++ bucket.jobId ++ "/" ++ String.ofList tail
  let cleaned := slash (stripChars bucket.table.space bucket.minioPrefix.toList)
  if cleaned.isEmpty then head else String.ofList cleaned ++ "/" ++ head

theorem objectKey_ne_marker (hspace : ∀ ch ∈ "_complete.json".toList, bucket.table.space ch = false)
    {relative : String} (h : relative ∈ sharedNames ++ sessionNames) :
    bucket.objectKey relative ≠ bucket.objectKey "_complete.json" := by
  intro heq
  have hmarker : (stripChars bucket.table.space "_complete.json".toList).dropWhile (· = '/') =
      "_complete.json".toList := by
    rw [stripChars_eq_self.mpr]
    · decide
    · constructor
      · exact fun ch hch => hspace ch (List.mem_of_mem_head? hch)
      · exact fun ch hch => hspace ch (List.mem_of_mem_getLast? hch)
  have htail : (stripChars bucket.table.space relative.toList).dropWhile (· = '/') =
      "_complete.json".toList := by
    rw [← hmarker]
    unfold objectKey at heq
    dsimp only at heq
    split_ifs at heq <;> simpa [String.ext_iff] using heq
  have hsub := (List.dropWhile_sublist (· = '/')).trans
    (stripChars_sublist bucket.table.space relative.toList)
  rw [htail] at hsub
  have hnone : ∀ name ∈ sharedNames ++ sessionNames,
      ¬"_complete.json".toList.Sublist name.toList := by decide
  exact hnone relative h hsub

/-- What the store does with an operation. A put that fails can leave anything under its key;
a failed put of the marker was made or was not. -/
inductive Respond (files : String → Option (List UInt8)) :
    StoreOp → Mirror → StoreAnswer → Mirror → Prop
  | put {m : Mirror} {relative : String} {bytes : List UInt8} (h : files relative = some bytes) :
    Respond files (.put relative) m .ok
      { m with
        objects := Function.update m.objects (bucket.objectKey relative) (some bytes)
        lastPut := Function.update m.lastPut (bucket.objectKey relative) (some (.completed bytes)) }
  | putFailed {m : Mirror} {relative : String} (left : Option (List UInt8)) (status : Option ℕ) :
    Respond files (.put relative) m (.failed status)
      { m with
        objects := Function.update m.objects (bucket.objectKey relative) left
        lastPut := Function.update m.lastPut (bucket.objectKey relative) (some .began) }
  | checkSize {m : Mirror} {relative : String} {stored bytes : List UInt8}
    (hstored : m.objects (bucket.objectKey relative) = some stored)
    (hlocal : files relative = some bytes) (hsize : stored.length = bytes.length) :
    Respond files (.checkSize relative) m .ok
      { m with
        lastPut := Function.update m.lastPut (bucket.objectKey relative)
          (match m.lastPut (bucket.objectKey relative) with
          | some (.completed put) => some (.checked put)
          | last => last) }
  | checkSizeFailed {m : Mirror} {relative : String} (status : Option ℕ) :
    Respond files (.checkSize relative) m (.failed status) m
  | putMarker {m : Mirror} {keys : List String} :
    Respond files (.putMarker keys) m .ok { m with marker := some keys }
  | putMarkerFailed {m : Mirror} {keys : List String} (made : Bool) (status : Option ℕ) :
    Respond files (.putMarker keys) m (.failed status)
      (if made then { m with marker := some keys } else m)
  | checkMarker {m : Mirror} : Respond files .checkMarker m .ok m
  | checkMarkerFailed {m : Mirror} (status : Option ℕ) :
    Respond files .checkMarker m (.failed status) m
  | readMarker {m : Mirror} {keys : List String} (h : m.marker = some keys) :
    Respond files .readMarker m (.keys keys) m
  | readMarkerFailed {m : Mirror} (status : Option ℕ) :
    Respond files .readMarker m (.failed status) m

def goodStore (files : String → Option (List UInt8)) (op : StoreOp) (m : Mirror) :
    StoreAnswer × Mirror :=
  match op with
  | .put relative =>
    let key := bucket.objectKey relative
    match files relative with
    | some bytes =>
      (.ok,
        { m with
          objects := Function.update m.objects key (some bytes)
          lastPut := Function.update m.lastPut key (some (.completed bytes)) })
    | none =>
      (.failed none,
        { m with
          objects := Function.update m.objects key (m.objects key)
          lastPut := Function.update m.lastPut key (some .began) })
  | .checkSize relative =>
    let key := bucket.objectKey relative
    match m.objects key, files relative with
    | some stored, some bytes =>
      if stored.length = bytes.length then
        (.ok,
          { m with
            lastPut := Function.update m.lastPut key
              (match m.lastPut key with
              | some (.completed put) => some (.checked put)
              | last => last) })
      else (.failed none, m)
    | _, _ => (.failed none, m)
  | .putMarker keys => (.ok, { m with marker := some keys })
  | .checkMarker => (.ok, m)
  | .readMarker =>
    match m.marker with
    | some keys => (.keys keys, m)
    | none => (.failed (some 404), m)

theorem respond_goodStore (files : String → Option (List UInt8)) (op : StoreOp) (m : Mirror) :
    bucket.Respond files op m (bucket.goodStore files op m).1 (bucket.goodStore files op m).2 := by
  cases op with
  | put relative =>
    cases hlocal : files relative with
    | some bytes =>
      simp only [goodStore, hlocal]
      exact .put hlocal
    | none =>
      simp only [goodStore, hlocal]
      exact .putFailed (m.objects (bucket.objectKey relative)) none
  | checkSize relative =>
    cases hstored : m.objects (bucket.objectKey relative) with
    | none =>
      simp only [goodStore, hstored]
      exact .checkSizeFailed none
    | some stored =>
      cases hlocal : files relative with
      | none =>
        simp only [goodStore, hstored, hlocal]
        exact .checkSizeFailed none
      | some bytes =>
        simp only [goodStore, hstored, hlocal]
        split_ifs with hsize
        · exact .checkSize hstored hlocal hsize
        · exact .checkSizeFailed none
  | putMarker keys => exact .putMarker
  | checkMarker => exact .checkMarker
  | readMarker =>
    cases hmarker : m.marker with
    | some keys =>
      simp only [goodStore, hmarker]
      exact .readMarker hmarker
    | none =>
      simp only [goodStore, hmarker]
      exact .readMarkerFailed (some 404)

abbrev Remote := ExceptT (Option ℕ) (Prog StoreOp StoreAnswer)

def answer (op : StoreOp) : Remote StoreAnswer := liftM (Prog.ask op : Prog StoreOp StoreAnswer StoreAnswer)

def perform (op : StoreOp) : Remote Unit := do
  match ← answer op with
  | .failed status => throw status
  | _ => pure ()

def putAndCheck (relative : String) : Remote Unit := do
  perform (.put relative)
  perform (.checkSize relative)

def putMarker (keys : List String) : Remote Unit := do
  perform (.putMarker keys)
  perform .checkMarker

/-- The loop of `_export_body`. -/
def copyAll (files : String → Option (List UInt8)) (uploaded : List String) :
    List String → Remote (List String)
  | [] => pure uploaded
  | relative :: rest =>
    if (files relative).isNone then throw none
    else do
      putAndCheck relative
      copyAll files (uploaded ++ [bucket.objectKey relative]) rest

/-- `_export_body`: the warning, or nothing to report. -/
def exportBody (files : String → Option (List UInt8)) : Remote (Option String) :=
  tryCatch
    (do
      putMarker []
      let uploaded ← bucket.copyAll files [] (sharedNames ++ sessionNames)
      putMarker uploaded
      pure none)
    fun status => do
      if status ≠ some 403 then
        tryCatch (putMarker []) fun _ => pure ()
      pure (some exportWarning)

def markPublishedKey (relative : String) (present : Bool) : Remote Bool := do
  match ← answer .readMarker with
  | .keys keys =>
    let wanted := bucket.objectKey relative
    let updated :=
      if present then (if keys.contains wanted then keys else keys ++ [wanted])
      else keys.filter (· ≠ wanted)
    if updated = keys then pure true
    else
      tryCatch (do putMarker updated; pure true) fun _ => pure false
  | _ => pure false

def republishBody (relative : String) : Remote Unit := do
  if !(← bucket.markPublishedKey relative false) then throw none
  putAndCheck relative
  if !(← bucket.markPublishedKey relative true) then throw none

end Bucket

/-- One call that holds the publish lock, with the local files as they stand while it runs. -/
inductive PublishCall where
  | exportBook (files : String → Option (List UInt8))
  | republish (files : String → Option (List UInt8)) (relative : String)
    (published : relative ∈ sharedNames ++ sessionNames)

namespace PublishCall

def files : PublishCall → String → Option (List UInt8)
  | exportBook files => files
  | republish files _ _ => files

/-- The calls on the store; `none` for a call that raised. -/
def prog (bucket : Bucket) : PublishCall → Prog StoreOp StoreAnswer (Option (Option String))
  | exportBook files => do
    let result ← (bucket.exportBody files).run
    pure result.toOption
  | republish _ relative _ => do
    let result ← (bucket.republishBody relative).run
    pure (result.toOption.map fun _ => none)

end PublishCall

end FinanceContext
