import FinanceContext.Addresses
import FinanceContext.PipeRows
import FinanceContext.Worklists
import Mathlib.Data.List.Sort
import Mathlib.Data.String.Basic

/-!
The files hashed into the layout stage: its directory, and the package files its import statements
lead to, as `publisher.py` resolves them.
-/

namespace FinanceContext.Publisher

open Worklists

/-- An import statement; the module of a `from` is empty where it is only dots. -/
inductive ImportNode where
  | modules (names : List (List String))
  | members (level : ℕ) (module : List String) (names : List String)

/-- An import statement of a file, and whether it runs when the file is loaded: one in the body of
a function does not. -/
structure Statement where
  node : ImportNode
  runs : Bool

/-- The Python files below the package, by the parts of their path without the suffix. -/
structure Package where
  files : List (List String × List Char)
  nodup : (files.map Prod.fst).Nodup
  nonempty : ∀ file ∈ files, file.1 ≠ []
  parts : ∀ file ∈ files, ∀ part ∈ file.1, '/' ∉ part.toList ∧ '\x00' ∉ part.toList
  sources : ∀ file ∈ files, '\x00' ∉ file.2

namespace Package

variable (package : Package)

def paths : List (List String) := package.files.map Prod.fst

def isFile (path : List String) : Bool := path ∈ package.paths

def source (path : List String) : List Char :=
  ((package.files.find? (·.1 = path)).map Prod.snd).getD []

end Package

def posix (path : List String) : List Char :=
  ['/'].intercalate (path.map String.toList) ++ ['.', 'p', 'y']

def prefixName : String := "finance_context"

def stageDirs : List (String × List String) :=
  [("compile", ["excel", "formulas"]), ("layout", ["layout"]), ("graph", ["graph"]),
    ("publish", ["context", "render"])]

def stageOf (path : List String) : Option String :=
  if path = ["models", "context"] then some "publish"
  else
    match path with
    | top :: _ :: _ => (stageDirs.find? fun stage => top ∈ stage.2).map Prod.fst
    | _ => none

section Sources

variable (parse : List Char → List Statement) (package : Package)

def sources : List (List String) :=
  (package.paths.filter fun path => "__pycache__" ∉ path).insertionSort
    fun a b => String.ofList (posix a) ≤ String.ofList (posix b)

def layoutBucket : List (List String) := (sources package).filter (stageOf · = some "layout")

def moduleFile (name : List String) : Option (List String) :=
  match name with
  | [] => none
  | top :: rel =>
    if top ≠ prefixName then none
    else
      let file := if rel = [] then ["__init__"] else rel
      if package.isFile file then some file
      else if rel = [] then none
      else if package.isFile (rel ++ ["__init__"]) then some (rel ++ ["__init__"]) else none

def importFromModules (path : List String) (level : ℕ) (module : List String) :
    List (List String) :=
  if level = 0 then (if module = [] then [] else [module])
  else
    let parts := path.dropLast
    let drop := level - 1
    if drop > parts.length then []
    else [prefixName :: (parts.take (parts.length - drop) ++ module)]

def modulesOf (path : List String) : ImportNode → List (List String)
  | .modules names => names
  | .members level module _ => importFromModules path level module

def filesOf (name : List String) : List (List String) :=
  match moduleFile package name with
  | none => []
  | some candidate =>
    candidate :: (List.range' 1 (name.length - 1)).filterMap fun index =>
      (moduleFile package (name.take index)).filter fun parent => parent.getLast? = some "__init__"

/-- `_imported_package_files`; `parse` gives the import statements of a source, none where it
cannot be parsed. -/
def importedPackageFiles (path : List String) : List (List String) :=
  (parse (package.source path)).flatMap fun statement =>
    (modulesOf path statement.node).flatMap (filesOf package)

/-- `_include_layout_imports`. -/
def layoutFiles : List (List String) :=
  ((Worklist.run (layoutBucket package) (importedPackageFiles parse package)
    package.paths.length).seen (layoutBucket package)).insertionSort
    fun a b => String.ofList (posix a) ≤ String.ofList (posix b)

/-- What `_hash_files` hands to the digest. -/
def hashInput (files : List (List String)) : List Char :=
  files.flatMap fun path => posix path ++ '\x00' :: (package.source path ++ ['\x00'])

variable {parse package}

theorem isFile_iff {path : List String} : package.isFile path = true ↔ path ∈ package.paths :=
  decide_eq_true_iff

theorem isFile_of_moduleFile {name file : List String} (h : moduleFile package name = some file) :
    file ∈ package.paths := by
  unfold moduleFile at h
  split at h
  · cases h
  · dsimp only at h
    split_ifs at h with htop hinit hfile hroot hpackage
    all_goals
      rw [← Option.some.inj h]
      apply isFile_iff.mp
      assumption

theorem mem_paths_of_filesOf {name file : List String} (h : file ∈ filesOf package name) :
    file ∈ package.paths := by
  unfold filesOf at h
  cases hmodule : moduleFile package name with
  | none =>
    rw [hmodule] at h
    cases h
  | some candidate =>
    rw [hmodule] at h
    rcases List.mem_cons.mp h with rfl | h
    · exact isFile_of_moduleFile hmodule
    · obtain ⟨index, -, hparent⟩ := List.mem_filterMap.mp h
      exact isFile_of_moduleFile (Option.filter_eq_some_iff.mp hparent).1

theorem mem_paths_of_imported {path file : List String}
    (h : file ∈ importedPackageFiles parse package path) : file ∈ package.paths := by
  obtain ⟨statement, -, h⟩ := List.mem_flatMap.mp h
  obtain ⟨name, -, h⟩ := List.mem_flatMap.mp h
  exact mem_paths_of_filesOf h

theorem perm_sources : (sources package).Perm
    (package.paths.filter fun path => "__pycache__" ∉ path) :=
  List.perm_insertionSort _ _

theorem mem_paths_of_bucket {path : List String} (h : path ∈ layoutBucket package) :
    path ∈ package.paths :=
  List.mem_of_mem_filter (perm_sources.mem_iff.mp (List.mem_of_mem_filter h))

theorem nodup_bucket : (layoutBucket package).Nodup :=
  (perm_sources.nodup_iff.mpr (package.nodup.filter _)).filter _

theorem mem_layoutFiles {path : List String} :
    path ∈ layoutFiles parse package ↔ ∃ start ∈ layoutBucket package,
      Relation.ReflTransGen (fun a b => b ∈ importedPackageFiles parse package a) start path := by
  unfold layoutFiles
  rw [(List.perm_insertionSort _ _).mem_iff]
  apply Worklist.mem_seen_run nodup_bucket
  · exact fun node hnode => mem_paths_of_bucket hnode
  · exact fun node other hother => mem_paths_of_imported hother

theorem mem_paths_of_layoutFiles {path : List String} (h : path ∈ layoutFiles parse package) :
    path ∈ package.paths := by
  obtain ⟨start, hstart, hpath⟩ := mem_layoutFiles.mp h
  rcases Relation.ReflTransGen.cases_tail hpath with rfl | ⟨before, -, hedge⟩
  · exact mem_paths_of_bucket hstart
  · exact mem_paths_of_imported hedge

section Hashing

theorem exists_file {path : List String} (h : path ∈ package.paths) :
    ∃ file ∈ package.files, file.1 = path := by
  obtain ⟨file, hfile, rfl⟩ := List.mem_map.mp h
  exact ⟨file, hfile, rfl⟩

theorem zero_notMem_posix {path : List String} (h : path ∈ package.paths) : '\x00' ∉ posix path := by
  obtain ⟨file, hfile, rfl⟩ := exists_file h
  intro hzero
  unfold posix at hzero
  rcases List.mem_append.mp hzero with hzero | hzero
  · obtain ⟨part, hpart, hzero⟩ := (PipeRows.mem_intercalate (by decide) _).mp hzero
    obtain ⟨name, hname, rfl⟩ := List.mem_map.mp hpart
    exact (package.parts file hfile name hname).2 hzero
  · exact absurd hzero (by decide)

theorem zero_notMem_source (path : List String) : '\x00' ∉ package.source path := by
  unfold Package.source
  cases hfile : package.files.find? (·.1 = path) with
  | none => exact List.not_mem_nil
  | some file => exact package.sources file (List.mem_of_find?_eq_some hfile)

theorem posix_inj {other : Package} {path path' : List String} (h : path ∈ package.paths)
    (h' : path' ∈ other.paths) (heq : posix path = posix path') : path = path' := by
  have hparts {tree : Package} {path : List String} (h : path ∈ tree.paths) :
      (['/'].intercalate (path.map String.toList)).splitOn '/' = path.map String.toList := by
    obtain ⟨file, hfile, rfl⟩ := exists_file h
    apply List.splitOn_intercalate
    · intro part hpart
      obtain ⟨name, hname, rfl⟩ := List.mem_map.mp hpart
      exact (tree.parts file hfile name hname).1
    · simpa using tree.nonempty file hfile
  have hjoined := List.append_cancel_right heq
  have hlists : path.map String.toList = path'.map String.toList := by
    rw [← hparts h, ← hparts h', hjoined]
  exact List.map_injective_iff.mpr (fun _ _ => String.toList_inj.mp) hlists

theorem hashInput_inj {other : Package} {files files' : List (List String)}
    (hfiles : ∀ path ∈ files, path ∈ package.paths) (hfiles' : ∀ path ∈ files', path ∈ other.paths)
    (h : hashInput package files = hashInput other files') :
    files.map (fun path => (posix path, package.source path)) =
      files'.map fun path => (posix path, other.source path) := by
  induction files generalizing files' with
  | nil =>
    cases files' with
    | nil => rfl
    | cons path files' => simp [hashInput, posix] at h
  | cons path files ih =>
    cases files' with
    | nil => simp [hashInput, posix] at h
    | cons path' files' =>
      unfold hashInput at h
      rw [List.flatMap_cons, List.flatMap_cons] at h
      simp only [List.append_assoc, List.cons_append] at h
      obtain ⟨hposix, h⟩ := append_sep_inj (zero_notMem_posix (hfiles path List.mem_cons_self))
        (zero_notMem_posix (hfiles' path' List.mem_cons_self)) h
      obtain ⟨hsource, h⟩ := append_sep_inj (zero_notMem_source path) (zero_notMem_source path') h
      have hrest := ih (fun other hother => hfiles other (List.mem_cons_of_mem _ hother))
        (fun other hother => hfiles' other (List.mem_cons_of_mem _ hother)) h
      rw [List.map_cons, List.map_cons, hposix, hsource, hrest]

theorem hashInput_ne {other : Package} {path : List String}
    (h : path ∈ layoutFiles parse package) (hedit : other.source path ≠ package.source path) :
    hashInput package (layoutFiles parse package) ≠ hashInput other (layoutFiles parse other) := by
  intro heq
  have hmaps := hashInput_inj (fun _ hp => mem_paths_of_layoutFiles hp)
    (fun _ hp => mem_paths_of_layoutFiles hp) heq
  have hmem := List.mem_map_of_mem (f := fun path => (posix path, package.source path)) h
  rw [hmaps] at hmem
  obtain ⟨path', hpath', hpair⟩ := List.mem_map.mp hmem
  obtain ⟨hposix, hsource⟩ := Prod.mk.inj hpair
  have hsame := posix_inj (mem_paths_of_layoutFiles h) (mem_paths_of_layoutFiles hpath') hposix.symm
  rw [hsame] at hedit
  exact hedit (hsource.trans (by rw [hsame]))

end Hashing

end Sources

end FinanceContext.Publisher
