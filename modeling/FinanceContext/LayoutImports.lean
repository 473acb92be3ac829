import FinanceContext.LayoutSources
import Mathlib.Data.List.Infix

namespace FinanceContext.Publisher

section Loading

variable (parse : List Char → List Statement) (package : Package)

/-- The file loaded for a name below the package: a directory with an `__init__` goes before a
module of its name, and a directory without one loads nothing. -/
def loadedFile (rel : List String) : Option (List String) :=
  if package.isFile (rel ++ ["__init__"]) then some (rel ++ ["__init__"])
  else if package.isFile rel then some rel else none

def plainModule (rel : List String) : Bool :=
  package.isFile rel && !package.isFile (rel ++ ["__init__"])

/-- The files loaded by importing a name: those of the packages around it from the outside in,
and its own. -/
def loadedBy (rel : List String) : List (List String) :=
  rel.inits.filterMap fun name =>
    if name.inits.dropLast.any (plainModule package) then none else loadedFile package name

def belowPackage : List String → Option (List String)
  | top :: rel => if top = prefixName then some rel else none
  | [] => none

/-- The package an import statement takes its members from; dots count from the package of the
file. -/
def memberBase (path : List String) (level : ℕ) (module : List String) : Option (List String) :=
  if level = 0 then belowPackage module
  else if level ≤ path.dropLast.length + 1 then
    some (path.dropLast.take (path.dropLast.length + 1 - level) ++ module)
  else none

/-- The files loaded by a statement. A member that is a module of the package is loaded. -/
def loadedByNode (path : List String) : ImportNode → List (List String)
  | .modules names => (names.filterMap belowPackage).flatMap (loadedBy package)
  | .members level module names =>
    match memberBase path level module with
    | none => []
    | some base =>
      loadedBy package base ++ names.flatMap fun name => loadedBy package (base ++ [name])

def loads (path : List String) : List (List String) :=
  ((parse (package.source path)).filter (·.runs)).flatMap (loadedByNode package path ·.node)

def moduleName (path : List String) : List String :=
  if path.getLast? = some "__init__" then path.dropLast else path

/-- The files loaded by importing the modules of the layout stage. -/
inductive Loaded : List String → Prop
  | stage {start path : List String} : start ∈ layoutBucket package →
      path ∈ loadedBy package (moduleName start) → Loaded path
  | step {path other : List String} : Loaded path → other ∈ loads parse package path → Loaded other

/-- The hash of the layout stage covers what importing it loads. -/
def Covers : Prop := ∀ path, Loaded parse package path → path ∈ layoutFiles parse package

def namedModules (path : List String) : ImportNode → List (List String)
  | .modules names => names.filterMap belowPackage
  | .members level module _ => (memberBase path level module).toList

/-- An import statement anywhere in a file leads to the file of the module it names and, where
there is one, to the `__init__` of the packages around it. -/
inductive Leads (path target : List String) : Prop
  | own {statement : Statement} {rel : List String} :
      statement ∈ parse (package.source path) → rel ∈ namedModules path statement.node →
      moduleFile package (prefixName :: rel) = some target → Leads path target
  | around {statement : Statement} {rel outer : List String} :
      statement ∈ parse (package.source path) → rel ∈ namedModules path statement.node →
      moduleFile package (prefixName :: rel) ≠ none → outer <+: rel → outer ≠ rel →
      moduleFile package (prefixName :: outer) = some target →
      target.getLast? = some "__init__" → Leads path target

/-- The loads of a form that is not looked at. -/
inductive Unseen : List String → Prop
  /-- A package around the stage. -/
  | outside {start path : List String} : start ∈ layoutBucket package →
      path ∈ loadedBy package (moduleName start) → path ∉ layoutBucket package → Unseen path
  /-- A member that is a module. -/
  | member {path base : List String} {statement : Statement} {level : ℕ} {module : List String}
      {names : List String} {name : String} {target : List String} : Loaded parse package path →
      statement ∈ parse (package.source path) → statement.runs = true →
      statement.node = .members level module names → memberBase path level module = some base →
      name ∈ names → target ∈ loadedBy package (base ++ [name]) →
      loadedFile package (base ++ [name]) = some target → Unseen target
  /-- A package around a module without a file. -/
  | fileless {path rel target : List String} {statement : Statement} : Loaded parse package path →
      statement ∈ parse (package.source path) → statement.runs = true →
      rel ∈ namedModules path statement.node → moduleFile package (prefixName :: rel) = none →
      target ∈ loadedBy package rel → Unseen target
  /-- A file with the name of a package, or one below which a name goes on. -/
  | twin {path rel name target : List String} {statement : Statement} : Loaded parse package path →
      statement ∈ parse (package.source path) → statement.runs = true →
      rel ∈ namedModules path statement.node → name <+: rel → package.isFile name = true →
      package.isFile (name ++ ["__init__"]) = true ∨ name ≠ rel →
      target ∈ loadedBy package rel → loadedFile package name = some target → Unseen target

/-- A chain of imports from the stage that all lead on. -/
def Followed (path : List String) : Prop :=
  ∃ start ∈ layoutBucket package, Relation.ReflTransGen (Leads parse package) start path

variable {parse package}

section Following

theorem belowPackage_eq_some {name rel : List String} :
    belowPackage name = some rel ↔ name = prefixName :: rel := by
  unfold belowPackage
  split
  · rename_i top rest
    split
    · rename_i htop
      rw [htop, Option.some.injEq, List.cons.injEq]
      exact (and_iff_right rfl).symm
    · rename_i htop
      refine iff_of_false nofun fun h => htop (List.cons.inj h).1
  · exact iff_of_false nofun nofun

theorem mem_modulesOf (path : List String) (node : ImportNode) {rel : List String} :
    prefixName :: rel ∈ modulesOf path node ↔ rel ∈ namedModules path node := by
  cases node with
  | modules names =>
    change prefixName :: rel ∈ names ↔ rel ∈ names.filterMap belowPackage
    rw [List.mem_filterMap]
    constructor
    · exact fun h => ⟨_, h, belowPackage_eq_some.mpr rfl⟩
    · rintro ⟨name, hname, hrel⟩
      rwa [belowPackage_eq_some.mp hrel] at hname
  | members level module names =>
    change prefixName :: rel ∈ importFromModules path level module ↔
      rel ∈ (memberBase path level module).toList
    rw [Option.mem_toList]
    unfold importFromModules memberBase
    by_cases hlevel : level = 0
    · rw [if_pos hlevel, if_pos hlevel]
      split
      · rename_i hmodule
        rw [hmodule]
        exact iff_of_false nofun nofun
      · rw [List.mem_singleton, belowPackage_eq_some]
        exact eq_comm
    · rw [if_neg hlevel, if_neg hlevel]
      dsimp only
      by_cases hdeep : level ≤ path.dropLast.length + 1
      · have htake : path.dropLast.length - (level - 1) = path.dropLast.length + 1 - level := by omega
        rw [if_neg (by omega), if_pos hdeep, htake, List.mem_singleton,
          Option.some.injEq, List.cons.injEq]
        exact (and_iff_right rfl).trans eq_comm
      · rw [if_pos (by omega), if_neg hdeep]
        exact iff_of_false nofun nofun

theorem mem_filesOf {rel target : List String} :
    target ∈ filesOf package (prefixName :: rel) ↔
      moduleFile package (prefixName :: rel) = some target ∨
        (moduleFile package (prefixName :: rel) ≠ none ∧ ∃ outer, outer <+: rel ∧ outer ≠ rel ∧
          moduleFile package (prefixName :: outer) = some target ∧
          target.getLast? = some "__init__") := by
  unfold filesOf
  cases hmodule : moduleFile package (prefixName :: rel) with
  | none => simp
  | some candidate =>
    have hparents : (∃ index, (1 ≤ index ∧ index < (prefixName :: rel).length) ∧
        moduleFile package ((prefixName :: rel).take index) = some target) ↔
        ∃ outer, outer <+: rel ∧ outer ≠ rel ∧
          moduleFile package (prefixName :: outer) = some target := by
      constructor
      · rintro ⟨index, ⟨hone, hlt⟩, hfile⟩
        obtain ⟨k, rfl⟩ := Nat.exists_eq_add_of_le' hone
        refine ⟨rel.take k, List.take_prefix k rel, ?_, hfile⟩
        intro hsame
        have hlength := congrArg List.length hsame
        rw [List.length_take] at hlength
        rw [List.length_cons] at hlt
        omega
      · rintro ⟨outer, ⟨rest, rfl⟩, hne, hfile⟩
        have hrest : rest ≠ [] := by
          rintro rfl
          exact hne (List.append_nil _).symm
        have hpositive := List.length_pos_of_ne_nil hrest
        refine ⟨outer.length + 1, ⟨by omega, ?_⟩, ?_⟩
        · rw [List.length_cons, List.length_append]
          omega
        · rw [List.take_succ_cons, List.take_left]
          exact hfile
    have hrange (index : ℕ) : index ∈ List.range' 1 ((prefixName :: rel).length - 1) ↔
        1 ≤ index ∧ index < (prefixName :: rel).length := by
      rw [List.mem_range'_1, List.length_cons]
      omega
    dsimp only
    rw [List.mem_cons, List.mem_filterMap, Option.some.injEq, eq_comm]
    apply or_congr_right
    simp only [hrange, Option.filter_eq_some_iff, decide_eq_true_eq]
    constructor
    · rintro ⟨index, hindex, hfile, hlast⟩
      obtain ⟨outer, houter, hne, hfile⟩ := hparents.mp ⟨index, hindex, hfile⟩
      exact ⟨nofun, outer, houter, hne, hfile, hlast⟩
    · rintro ⟨-, outer, houter, hne, hfile, hlast⟩
      obtain ⟨index, hindex, hfile⟩ := hparents.mpr ⟨outer, houter, hne, hfile⟩
      exact ⟨index, hindex, hfile, hlast⟩

theorem exists_below {name target : List String} (h : target ∈ filesOf package name) :
    ∃ rel, name = prefixName :: rel := by
  unfold filesOf moduleFile at h
  cases name with
  | nil => cases h
  | cons top rel =>
    by_cases htop : top = prefixName
    · exact ⟨rel, by rw [htop]⟩
    · dsimp only at h
      rw [if_pos htop] at h
      cases h

theorem mem_importedPackageFiles {path target : List String} :
    target ∈ importedPackageFiles parse package path ↔ Leads parse package path target := by
  unfold importedPackageFiles
  simp only [List.mem_flatMap]
  constructor
  · rintro ⟨statement, hstatement, name, hname, htarget⟩
    obtain ⟨rel, rfl⟩ := exists_below htarget
    have hrel := (mem_modulesOf path statement.node).mp hname
    rcases mem_filesOf.mp htarget with hown | ⟨hfile, outer, houter, hne, htarget, hlast⟩
    · exact .own hstatement hrel hown
    · exact .around hstatement hrel hfile houter hne htarget hlast
  · intro h
    cases h with
    | own hstatement hrel hown =>
      exact ⟨_, hstatement, _, (mem_modulesOf path _).mpr hrel, mem_filesOf.mpr (Or.inl hown)⟩
    | around hstatement hrel hfile houter hne htarget hlast =>
      exact ⟨_, hstatement, _, (mem_modulesOf path _).mpr hrel,
        mem_filesOf.mpr (Or.inr ⟨hfile, _, houter, hne, htarget, hlast⟩)⟩

theorem followed_iff {path : List String} :
    path ∈ layoutFiles parse package ↔ Followed parse package path := by
  rw [mem_layoutFiles]
  simp only [mem_importedPackageFiles]
  rfl

end Following

section Covering

theorem mem_loads {path target : List String} :
    target ∈ loads parse package path ↔ ∃ statement ∈ parse (package.source path),
      statement.runs = true ∧ target ∈ loadedByNode package path statement.node := by
  unfold loads
  rw [List.mem_flatMap]
  simp only [List.mem_filter, and_assoc]

theorem mem_loadedByNode_of_named {path rel target : List String} {node : ImportNode}
    (hrel : rel ∈ namedModules path node) (h : target ∈ loadedBy package rel) :
    target ∈ loadedByNode package path node := by
  cases node with
  | modules names => exact List.mem_flatMap.mpr ⟨rel, hrel, h⟩
  | members level module names =>
    have hbase : memberBase path level module = some rel := Option.mem_toList.mp hrel
    unfold loadedByNode
    dsimp only
    rw [hbase]
    exact List.mem_append_left _ h

theorem Unseen.loaded {path : List String} (h : Unseen parse package path) :
    Loaded parse package path := by
  cases h with
  | outside hstart hpath _ => exact .stage hstart hpath
  | @member path base statement level module names name _ hloaded hstatement hruns hnode hbase hname
      htarget _ =>
    apply hloaded.step
    apply mem_loads.mpr
    refine ⟨statement, hstatement, hruns, ?_⟩
    unfold loadedByNode
    rw [hnode]
    dsimp only
    rw [hbase]
    exact List.mem_append_right _ (List.mem_flatMap.mpr ⟨name, hname, htarget⟩)
  | fileless hloaded hstatement hruns hrel _ htarget =>
    exact hloaded.step (mem_loads.mpr ⟨_, hstatement, hruns, mem_loadedByNode_of_named hrel htarget⟩)
  | twin hloaded hstatement hruns hrel _ _ _ htarget _ =>
    exact hloaded.step (mem_loads.mpr ⟨_, hstatement, hruns, mem_loadedByNode_of_named hrel htarget⟩)

theorem mem_loadedBy {rel target : List String} :
    target ∈ loadedBy package rel ↔ ∃ name, name <+: rel ∧
      name.inits.dropLast.any (plainModule package) = false ∧
      loadedFile package name = some target := by
  unfold loadedBy
  simp only [List.mem_filterMap, List.mem_inits]
  constructor
  · rintro ⟨name, hname, hfile⟩
    split_ifs at hfile with hplain
    exact ⟨name, hname, by simpa using hplain, hfile⟩
  · rintro ⟨name, hname, hplain, hfile⟩
    exact ⟨name, hname, by rwa [hplain, if_neg (by decide)]⟩

theorem not_isFile_nil : package.isFile [] = false := by
  by_contra h
  obtain ⟨file, hfile, hnil⟩ := exists_file (isFile_iff.mp (by simpa using h))
  exact package.nonempty file hfile hnil

theorem moduleFile_of_loadedFile {name target : List String}
    (h : loadedFile package name = some target)
    (htwin : ¬(package.isFile name = true ∧ package.isFile (name ++ ["__init__"]) = true)) :
    moduleFile package (prefixName :: name) = some target := by
  have hown : target = name ++ ["__init__"] ∧ package.isFile (name ++ ["__init__"]) = true ∨
      target = name ∧ package.isFile name = true := by
    unfold loadedFile at h
    split_ifs at h with hinit hname
    · exact Or.inl ⟨(Option.some.inj h).symm, hinit⟩
    · exact Or.inr ⟨(Option.some.inj h).symm, hname⟩
  unfold moduleFile
  by_cases hroot : name = []
  · subst hroot
    rcases hown with ⟨rfl, hinit⟩ | ⟨-, hname⟩
    · rw [List.nil_append] at hinit
      simp [hinit]
    · rw [not_isFile_nil] at hname
      cases hname
  · rcases hown with ⟨rfl, hinit⟩ | ⟨rfl, hname⟩
    · have hname : package.isFile name = false :=
        Bool.eq_false_iff.mpr fun hname => htwin ⟨hname, hinit⟩
      simp [hroot, hname, hinit]
    · simp [hroot, hname]

theorem leads_or_unseen_named {path rel target : List String} {statement : Statement}
    (hloaded : Loaded parse package path) (hstatement : statement ∈ parse (package.source path))
    (hruns : statement.runs = true) (hrel : rel ∈ namedModules path statement.node)
    (h : target ∈ loadedBy package rel) :
    Leads parse package path target ∨ Unseen parse package target := by
  by_cases hfile : moduleFile package (prefixName :: rel) = none
  · exact Or.inr (.fileless hloaded hstatement hruns hrel hfile h)
  · obtain ⟨name, hname, hplain, htarget⟩ := mem_loadedBy.mp h
    by_cases htwin : package.isFile name = true ∧
        (package.isFile (name ++ ["__init__"]) = true ∨ name ≠ rel)
    · exact Or.inr (.twin hloaded hstatement hruns hrel hname htwin.1 htwin.2 h htarget)
    · left
      have hmodule := moduleFile_of_loadedFile htarget fun htwins =>
        htwin ⟨htwins.1, Or.inl htwins.2⟩
      by_cases hsame : name = rel
      · rw [hsame] at hmodule
        exact .own hstatement hrel hmodule
      · have hnone : ¬package.isFile name = true := fun hown => htwin ⟨hown, Or.inr hsame⟩
        have hinit : target = name ++ ["__init__"] := by
          unfold loadedFile at htarget
          split_ifs at htarget
          exact (Option.some.inj htarget).symm
        refine .around hstatement hrel hfile hname hsame hmodule ?_
        rw [hinit, List.getLast?_concat]

theorem leads_or_unseen {path other : List String} (hloaded : Loaded parse package path)
    (h : other ∈ loads parse package path) :
    Leads parse package path other ∨ Unseen parse package other := by
  obtain ⟨statement, hstatement, hruns, h⟩ := mem_loads.mp h
  cases hnode : statement.node with
  | modules names =>
    rw [hnode] at h
    obtain ⟨rel, hrel, h⟩ := List.mem_flatMap.mp h
    exact leads_or_unseen_named hloaded hstatement hruns (hnode ▸ hrel) h
  | members level module names =>
    rw [hnode] at h
    unfold loadedByNode at h
    cases hbase : memberBase path level module with
    | none =>
      dsimp only at h
      rw [hbase] at h
      cases h
    | some base =>
      have hrel : base ∈ namedModules path statement.node := by
        rw [hnode]
        exact Option.mem_toList.mpr hbase
      dsimp only at h
      rw [hbase] at h
      rcases List.mem_append.mp h with h | h
      · exact leads_or_unseen_named hloaded hstatement hruns hrel h
      · obtain ⟨name, hname, h⟩ := List.mem_flatMap.mp h
        obtain ⟨outer, houter, hplain, hfile⟩ := mem_loadedBy.mp h
        rcases List.prefix_concat_iff.mp houter with rfl | houter
        · exact Or.inr (.member hloaded hstatement hruns hnode hbase hname h hfile)
        · exact leads_or_unseen_named hloaded hstatement hruns hrel
            (mem_loadedBy.mpr ⟨outer, houter, hplain, hfile⟩)

theorem covers_iff :
    Covers parse package ↔ ∀ path, Unseen parse package path → Followed parse package path := by
  constructor
  · intro h path hunseen
    exact followed_iff.mp (h path hunseen.loaded)
  · intro h path hloaded
    apply followed_iff.mpr
    induction hloaded with
    | @stage start path hstart hpath =>
      by_cases hbucket : path ∈ layoutBucket package
      · exact ⟨path, hbucket, .refl⟩
      · exact h path (.outside hstart hpath hbucket)
    | step hloaded hother ih =>
      rcases leads_or_unseen hloaded hother with hleads | hunseen
      · obtain ⟨start, hstart, hchain⟩ := ih
        exact ⟨start, hstart, hchain.tail hleads⟩
      · exact h _ hunseen

/-- The hash of the layout stage covers what the stage loads exactly where every load of an unseen
form is also reached by imports that lead on; and another text of a hashed file is another input
of the digest. -/
theorem layoutFiles_cover :
    (Covers parse package ↔
        ∀ path, Unseen parse package path → Followed parse package path) ∧
      ∀ path ∈ layoutFiles parse package, ∀ other : Package,
        other.source path ≠ package.source path →
        hashInput package (layoutFiles parse package) ≠
          hashInput other (layoutFiles parse other) :=
  ⟨covers_iff, fun _ hpath _ hedit => hashInput_ne hpath hedit⟩

end Covering

end Loading

section Samples

/-- `from finance_context.context import measure` and `from finance_context.context.measure import
unit_caption`, by one letter each. -/
def sampleParse : List Char → List Statement
  | ['p'] => [⟨.members 0 ["finance_context", "context"] ["measure"], true⟩]
  | ['m'] => [⟨.members 0 ["finance_context", "context", "measure"] ["unit_caption"], true⟩]
  | _ => []

def samplePaths : List (List String) :=
  [["__init__"], ["layout", "units"], ["context", "__init__"], ["context", "measure"]]

def samplePackage (units measure : Char) (hunits : units ≠ '\x00') (hmeasure : measure ≠ '\x00') :
    Package where
  files := [(["__init__"], []), (["layout", "units"], [units]), (["context", "__init__"], []),
    (["context", "measure"], [measure])]
  nodup := (by decide : samplePaths.Nodup)
  nonempty file hfile := (by decide : ∀ path ∈ samplePaths, path ≠ []) _ (List.mem_map_of_mem hfile)
  parts file hfile := (by decide : ∀ path ∈ samplePaths, ∀ part ∈ path,
    '/' ∉ part.toList ∧ '\x00' ∉ part.toList) _ (List.mem_map_of_mem hfile)
  sources := by simp [hunits.symm, hmeasure.symm]

/-- A sub-module that is named as a member is loaded and is not hashed. -/
theorem layoutFiles_miss_member :
    ¬Covers sampleParse (samplePackage 'p' 'x' (by decide) (by decide)) := by
  intro h
  have hstart : ["layout", "units"] ∈ layoutBucket (samplePackage 'p' 'x' (by decide) (by decide)) := by
    decide +kernel
  have hunits : Loaded sampleParse (samplePackage 'p' 'x' (by decide) (by decide))
      ["layout", "units"] := .stage hstart (by decide +kernel)
  have hmeasure : Loaded sampleParse (samplePackage 'p' 'x' (by decide) (by decide))
      ["context", "measure"] := hunits.step (by decide +kernel)
  have hhashed := h ["context", "measure"] hmeasure
  have hmissing : ["context", "measure"] ∉
      layoutFiles sampleParse (samplePackage 'p' 'x' (by decide) (by decide)) := by decide +kernel
  exact hmissing hhashed

/-- A module that is named itself is hashed, and its edit shows. -/
theorem layoutFiles_cover_measure :
    hashInput (samplePackage 'm' 'x' (by decide) (by decide))
        (layoutFiles sampleParse (samplePackage 'm' 'x' (by decide) (by decide))) ≠
      hashInput (samplePackage 'm' 'y' (by decide) (by decide))
        (layoutFiles sampleParse (samplePackage 'm' 'y' (by decide) (by decide))) :=
  layoutFiles_cover.2 ["context", "measure"] (by decide +kernel)
    (samplePackage 'm' 'y' (by decide) (by decide)) (by decide +kernel)

end Samples

end FinanceContext.Publisher
