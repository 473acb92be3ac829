import FinanceContext.JobMeta
import FinanceContext.StoredJson

namespace FinanceContext

open Dictionaries JsonStream

section Fields

def given (fields : List (String × Option Json)) : List (String × Json) :=
  fields.filterMap fun field => field.2.map fun value => (field.1, value)

theorem mem_given {fields : List (String × Option Json)} {key : String} {value : Json} :
    (key, value) ∈ given fields ↔ (key, some value) ∈ fields := by
  simp only [given, List.mem_filterMap, Option.map_eq_some_iff, Prod.mk.injEq]
  constructor
  · rintro ⟨⟨found, stored⟩, hmem, _, rfl, rfl, rfl⟩
    exact hmem
  · intro h
    exact ⟨(key, some value), h, value, rfl, rfl, rfl⟩

theorem keys_given (fields : List (String × Option Json)) :
    ((given fields).map Prod.fst).Sublist (fields.map Prod.fst) := by
  induction fields with
  | nil => exact .slnil
  | cons field fields ih =>
    obtain ⟨key, value⟩ := field
    cases value with
    | none => exact ih.cons key
    | some value => exact ih.cons_cons key

theorem get_given {fields : List (String × Option Json)} (hkeys : (fields.map Prod.fst).Nodup)
    {key : String} {value : Option Json} (h : (key, value) ∈ fields) :
    get key (given fields) = value := by
  have hgiven : ((given fields).map Prod.fst).Nodup := hkeys.sublist (keys_given fields)
  cases value with
  | some value => exact get_of_mem hgiven (mem_given.mpr h)
  | none =>
    apply Option.eq_none_iff_forall_not_mem.mpr
    intro value hvalue
    have hstored : (key, some value) ∈ fields := mem_given.mp (mem_of_get hvalue)
    cases List.inj_on_of_nodup_map hkeys h hstored rfl

theorem distinctFields_given {fields : List (String × Option Json)}
    (h : ∀ field ∈ fields, ∀ value, field.2 = some value → Distinct value) :
    DistinctFields (given fields) := by
  apply distinctFields_iff.mpr
  intro field hfield
  exact h _ (mem_given.mp hfield) field.2 rfl

end Fields

def Stage.text : Stage → String
  | compile => "compile"
  | layout => "layout"
  | graph => "graph"
  | publish => "publish"

def Stage.ofText (text : String) : Option Stage := stageOrder.find? (·.text = text)

theorem Stage.ofText_text (stage : Stage) : ofText stage.text = some stage := by
  cases stage <;> rfl

def JobStatus.ofText (text : String) : Option JobStatus :=
  [queued, running, succeeded, degraded, needsInput, failed].find? (statusText · = text)

theorem JobStatus.ofText_text (status : JobStatus) : ofText (statusText status) = some status := by
  cases status <;> rfl

def asText : Json → Option String
  | .str text => some text
  | _ => none

def numberJson (n : ℕ) : Json := .int n

def asNumber : Json → Option ℕ
  | .int (.ofNat n) => some n
  | _ => none

def asTexts : Json → Option (List String)
  | .array items => some (items.filterMap asText)
  | _ => none

def stageFields (hashes : StageMap (Option String)) : List (String × Option Json) :=
  Stage.stageOrder.map fun stage => (stage.text, (hashes stage).map Json.str)

def asStages : Json → Option (StageMap (Option String))
  | .object fields => some fun stage => (get stage.text fields).bind asText
  | _ => none

theorem keys_stageFields (hashes : StageMap (Option String)) :
    ((stageFields hashes).map Prod.fst).Nodup := by
  have hinjective : Function.Injective Stage.text :=
    Function.Injective.of_comp (f := Stage.ofText) fun s t h => by
      simpa only [Function.comp_apply, Stage.ofText_text, Option.some_inj] using h
  rw [stageFields, List.map_map]
  apply List.Nodup.map hinjective
  decide

theorem asStages_stageFields (hashes : StageMap (Option String)) :
    asStages (.object (given (stageFields hashes))) = some hashes := by
  rw [asStages, Option.some_inj]
  funext stage
  rw [get_given (keys_stageFields hashes)
    (List.mem_map_of_mem stage.mem_stageOrder)]
  cases hashes stage <;> rfl

section Values

variable {α : Type}

theorem bind_map_of_read {write : α → Json} {read : Json → Option α}
    (h : ∀ a, read (write a) = some a) (value : Option α) :
    (value.map write).bind read = value := by
  cases value with
  | none => rfl
  | some a => exact h a

theorem asTexts_array (texts : List String) : asTexts (.array (texts.map .str)) = some texts := by
  have hread : (texts.map Json.str).filterMap asText = texts := by
    rw [List.filterMap_map]
    exact List.filterMap_some
  rw [asTexts, hread]

end Values

/-- The keys of `meta.json`; the combined fingerprint is written as the hashes it digests. -/
def metaFields (m : JobMeta String) : List (String × Option Json) :=
  [("job_id", m.jobId.map .str),
    ("status", m.status.map fun status => .str (statusText status)),
    ("stage", m.stage.map .str),
    ("source_filename", m.sourceFilename.map .str),
    ("content_sha256", m.contentSha256.map .str),
    ("warnings", some (.array (m.warnings.map .str))),
    ("error", m.error.map .str),
    ("detail", m.detail.map .str),
    ("generation", m.generation.map numberJson),
    ("publisher", m.stamp.publisher.map fun hashes =>
      .object (given (stageFields fun stage => some (hashes stage)))),
    ("stages", m.stamp.stages.map fun hashes => .object (given (stageFields hashes))),
    ("rebuild_from", m.rebuildFrom.map fun stage => .str stage.text),
    ("shared_cache_busy_retries", m.busyRetries.map numberJson)]

theorem keys_metaFields (m : JobMeta String) : ((metaFields m).map Prod.fst).Nodup := by
  have hkeys : (metaFields m).map Prod.fst = ["job_id", "status", "stage", "source_filename",
    "content_sha256", "warnings", "error", "detail", "generation", "publisher", "stages",
    "rebuild_from", "shared_cache_busy_retries"] := rfl
  rw [hkeys]
  decide

theorem distinct_map {α : Type} {write : α → Json} (h : ∀ a, Distinct (write a)) (value : Option α) :
    ∀ json, value.map write = some json → Distinct json := by
  intro json hjson
  obtain ⟨a, -, rfl⟩ := Option.map_eq_some_iff.mp hjson
  exact h a

theorem distinctItems_texts (texts : List String) : DistinctItems (texts.map .str) := by
  induction texts with
  | nil => trivial
  | cons text texts ih => exact ⟨trivial, ih⟩

theorem distinct_stageFields (hashes : StageMap (Option String)) :
    Distinct (.object (given (stageFields hashes))) := by
  refine ⟨(keys_stageFields hashes).sublist (keys_given _), distinctFields_given ?_⟩
  simp only [stageFields, List.forall_mem_map]
  intro stage _
  have hscalar (text : String) : Distinct (.str text) := trivial
  exact distinct_map hscalar (hashes stage)

theorem distinct_metaFields (m : JobMeta String) : Distinct (.object (given (metaFields m))) := by
  refine ⟨(keys_metaFields m).sublist (keys_given _), distinctFields_given ?_⟩
  have hscalar {α : Type} {write : α → Json} (value : Option α) (h : ∀ a, Distinct (write a)) :
      ∀ json, value.map write = some json → Distinct json := distinct_map h value
  have hwarnings : ∀ json, some (Json.array (m.warnings.map .str)) = some json → Distinct json := by
    intro json hjson
    obtain rfl := Option.some.inj hjson
    exact distinctItems_texts m.warnings
  simp only [metaFields, List.forall_mem_cons]
  refine ⟨hscalar _ ?_, hscalar _ ?_, hscalar _ ?_, hscalar _ ?_, hscalar _ ?_, hwarnings,
    hscalar _ ?_, hscalar _ ?_, hscalar _ ?_, hscalar _ fun _ => distinct_stageFields _,
    hscalar _ distinct_stageFields, hscalar _ ?_, hscalar _ ?_, List.forall_mem_nil _⟩
  all_goals exact fun _ => trivial

def allStages (hashes : StageMap (Option String)) : Option (StageMap String) :=
  if Stage.stageOrder.all fun stage => (hashes stage).isSome then
    some fun stage => (hashes stage).getD ""
  else none

theorem allStages_some (hashes : StageMap String) :
    allStages (fun stage => some (hashes stage)) = some hashes := rfl

def readStamp (publisher : Option (StageMap String)) (stages : Option (StageMap (Option String))) :
    Stamp String :=
  match publisher with
  | some hashes => .complete hashes
  | none => ⟨none, stages, by simp⟩

theorem readStamp_eq (stamp : Stamp String) : readStamp stamp.publisher stamp.stages = stamp := by
  cases h : stamp.publisher with
  | none => exact Stamp.ext h.symm rfl
  | some hashes => exact Stamp.ext h.symm (stamp.agree hashes h).symm

def readMeta (fields : List (String × Json)) : JobMeta String where
  jobId := (get "job_id" fields).bind asText
  status := (get "status" fields).bind fun value => (asText value).bind JobStatus.ofText
  stage := (get "stage" fields).bind asText
  sourceFilename := (get "source_filename" fields).bind asText
  contentSha256 := (get "content_sha256" fields).bind asText
  warnings := ((get "warnings" fields).bind asTexts).getD []
  error := (get "error" fields).bind asText
  detail := (get "detail" fields).bind asText
  generation := (get "generation" fields).bind asNumber
  stamp := readStamp ((get "publisher" fields).bind fun value => (asStages value).bind allStages)
    ((get "stages" fields).bind asStages)
  rebuildFrom := (get "rebuild_from" fields).bind fun value => (asText value).bind Stage.ofText
  busyRetries := (get "shared_cache_busy_retries" fields).bind asNumber

theorem readMeta_metaFields (m : JobMeta String) : readMeta (given (metaFields m)) = m := by
  have hread {α : Type} {write : α → Json} {read : Json → Option α} {key : String}
      (value : Option α) (h : ∀ a, read (write a) = some a)
      (hmem : (key, value.map write) ∈ metaFields m) :
      (get key (given (metaFields m))).bind read = value := by
    rw [get_given (keys_metaFields m) hmem]
    exact bind_map_of_read h value
  have hwarnings : ((get "warnings" (given (metaFields m))).bind asTexts).getD [] =
      m.warnings := by
    have hmem : ("warnings", some (Json.array (m.warnings.map .str))) ∈ metaFields m := by
      simp [metaFields]
    rw [get_given (keys_metaFields m) hmem, Option.bind_some, asTexts_array]
    rfl
  have htext (text : String) : asText (.str text) = some text := rfl
  have hnumber (n : ℕ) : asNumber (numberJson n) = some n := rfl
  have hstatus (status : JobStatus) :
      (asText (.str (statusText status))).bind JobStatus.ofText = some status :=
    JobStatus.ofText_text status
  have hstage (stage : Stage) : (asText (.str stage.text)).bind Stage.ofText = some stage :=
    stage.ofText_text
  have hpublisher (hashes : StageMap String) :
      (asStages (.object (given (stageFields fun stage => some (hashes stage))))).bind allStages =
        some hashes := by
    rw [asStages_stageFields]
    exact allStages_some hashes
  have hstamp : readStamp
      ((get "publisher" (given (metaFields m))).bind fun value => (asStages value).bind allStages)
      ((get "stages" (given (metaFields m))).bind asStages) = m.stamp := by
    rw [hread m.stamp.publisher hpublisher (by simp [metaFields]),
      hread m.stamp.stages asStages_stageFields (by simp [metaFields]), readStamp_eq]
  rw [readMeta, hwarnings, hstamp, hread m.jobId htext (by simp [metaFields]),
    hread m.status hstatus (by simp [metaFields]), hread m.stage htext (by simp [metaFields]),
    hread m.sourceFilename htext (by simp [metaFields]),
    hread m.contentSha256 htext (by simp [metaFields]),
    hread m.error htext (by simp [metaFields]), hread m.detail htext (by simp [metaFields]),
    hread m.generation hnumber (by simp [metaFields]),
    hread m.rebuildFrom hstage (by simp [metaFields]),
    hread m.busyRetries hnumber (by simp [metaFields])]

def metaDocument (m : JobMeta String) : Document := ⟨given (metaFields m), distinct_metaFields m⟩

def metaCodec : DocumentCodec (JobMeta String) Char where
  print m := printDocument (metaDocument m)
  parse text := (parseDocument text).map fun d => readMeta d.fields
  parse_print m := by
    rw [parseDocument_print, Option.map_some]
    exact congrArg some (readMeta_metaFields m)

end FinanceContext
