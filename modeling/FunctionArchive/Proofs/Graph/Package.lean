import FunctionArchive.Proofs.Disk.Followed
import FunctionArchive.Proofs.Graph.Policy

/-!
# What is shipped of a package

The files of a package that are shipped are told by their paths alone (`packageFiles_exact`): all
regular files below its directory, seen through links, but for what is installed inside the package
and what is left out. Only names below the directory are looked at, so it does not matter where the
package itself is installed or what its directory is called.
-/

set_option autoImplicit false

namespace FunctionArchive

open FunctionArchive.Path (IsName Proper)

namespace Exclusion

variable {texts quirks : List String} {sourceMaps : Bool} {own rules : Exclusion}
  {front : List String} {name : String}

/-- Why a file of this name is left out, in a directory to which the names in front of it lead from
the package: it is never worth shipping, or one of these texts describes its name or its path. -/
inductive LeavesOut (texts : List String) (sourceMaps : Bool) (front : List String)
    (name : String) : Prop
  | junk (listed : name ∈ junkNames)
  | declarations {ending : String} (listed : ending ∈ declarationEndings)
      (ends : ending.toList <:+ name.toList)
  | sourceMap (unwanted : sourceMaps = false) (ends : ".map".toList <:+ name.toList)
  | described {text : String} {pattern : Glob.Pattern} (given : text ∈ texts)
      (read : Glob.Pattern.read text = .ok pattern)
      (fits : pattern.matches name = true ∨
        pattern.matches ("/".intercalate (front ++ [name])) = true)

theorem endsWith_iff {text ending : String} :
    endsWith text ending = true ↔ ending.toList <:+ text.toList := List.isSuffixOf_iff_suffix

theorem isJunk_iff : isJunk name sourceMaps = true ↔ name ∈ junkNames ∨
    (∃ ending ∈ declarationEndings, ending.toList <:+ name.toList) ∨
      sourceMaps = false ∧ ".map".toList <:+ name.toList := by
  simp only [isJunk, Bool.or_eq_true, Bool.and_eq_true, Bool.not_eq_true', List.contains_iff_mem,
    List.any_eq_true, endsWith_iff, or_assoc]

theorem fileName?_last (isName : IsName name) :
    (⟨false, front ++ [name]⟩ : Path).fileName? = some name := by
  rw [Path.fileName?, Path.trimEnd_concat _ _ isName.notRedundant]
  simp [isName.2.1, isName.2.2]

/-- A pattern sees the name of a file and its path in the package. -/
theorem fits_iff (isName : IsName name) {pattern : Glob.Pattern} :
    Fits pattern ⟨false, front ++ [name]⟩ ↔ pattern.matches name = true ∨
      pattern.matches ("/".intercalate (front ++ [name])) = true := by
  simp [Fits, fileName?_last isName, Path.text]

/-- What rules leave out that are made from a configured list and one for the package. -/
theorem excludes_iff_leavesOut (made : make texts sourceMaps = .ok own)
    (extended : own.withPatterns quirks = .ok rules) (isName : IsName name) :
    rules.excludes ⟨false, front ++ [name]⟩ = true ↔
      LeavesOut (texts ++ quirks) sourceMaps front name := by
  obtain ⟨read, maps⟩ := make_ok made
  rw [excludes_withPatterns extended, excludes_iff, maps, fileName?_last isName, Option.getD_some,
    isJunk_iff]
  constructor
  · rintro (((junk | ⟨ending, listed, ends⟩ | ⟨unwanted, ends⟩) | ⟨pattern, member, fits⟩) |
      ⟨text, given, pattern, isRead, fits⟩)
    · exact .junk junk
    · exact .declarations listed ends
    · exact .sourceMap unwanted ends
    · obtain ⟨text, given, isRead⟩ := (mem_of_readPatterns read).mp member
      exact .described (List.mem_append_left _ given) isRead ((fits_iff isName).mp fits)
    · exact .described (List.mem_append_right _ given) isRead ((fits_iff isName).mp fits)
  · intro out
    cases out with
    | junk listed => exact .inl (.inl (.inl listed))
    | declarations listed ends => exact .inl (.inl (.inr (.inl ⟨_, listed, ends⟩)))
    | sourceMap unwanted ends => exact .inl (.inl (.inr (.inr ⟨unwanted, ends⟩)))
    | described given isRead fits =>
        have fits := (fits_iff isName).mpr fits
        rcases List.mem_append.mp given with given | given
        · exact .inl (.inr ⟨_, (mem_of_readPatterns read).mpr ⟨_, given, isRead⟩, fits⟩)
        · exact .inr ⟨_, given, _, isRead, fits⟩

end Exclusion

namespace GraphPolicy

open Resolution (packagesName)

variable {d : Disk} {root : Path} {configured quirks : List String} {sourceMaps : Bool}
  {own rules : Exclusion}

theorem packageFiles_run {found : List (List String)} (exclusion : Exclusion)
    (walked : d.filesBelow (· == packagesName) root = .ok found) (known : Manifests) :
    ((packageFiles exclusion root) d).run known =
      (.ok ((found.filter fun names => !exclusion.excludes ⟨false, names⟩).map root.inside),
        known) := by
  simp only [packageFiles, Query.ask, walked]
  rfl

/-- Names lead to a file past no installed package if none of them is that of a directory of
packages. -/
theorem leadsToFile_iff {names : List String} :
    d.LeadsToFile (· == packagesName) root names ↔ names ≠ [] ∧ Proper names ∧
      packagesName ∉ names ∧ d.isFile (root.inside names) = true := by
  have passes : Disk.Passes (· == packagesName) names ↔ Proper names ∧ packagesName ∉ names := by
    constructor
    · rintro ⟨proper, kept⟩
      exact ⟨proper, fun member => by simpa using kept _ member⟩
    · rintro ⟨proper, outside⟩
      exact ⟨proper, fun name member => beq_false_of_ne fun same => outside (same ▸ member)⟩
  constructor
  · rintro ⟨below, through, isFile⟩
    exact ⟨below, (passes.mp through).1, (passes.mp through).2, isFile⟩
  · rintro ⟨below, proper, outside, isFile⟩
    exact ⟨below, passes.mpr ⟨proper, outside⟩, isFile⟩

/-- Of a package whose links can be followed and lead nowhere back, exactly those files are shipped,
each once, that lie below its directory, outside of what is installed there, and are not left out by
the rules: the configured ones and those for this package. Further patterns never bring a file
back. -/
theorem packageFiles_exact (tidy : Checksum.Tidy d.root) (directory : d.isDirectory root = true)
    (walkable : d.Walkable (· == packagesName) root)
    (made : Exclusion.make configured sourceMaps = .ok own)
    (extended : own.withPatterns quirks = .ok rules) :
    (∃ files, (∀ known, ((packageFiles rules root) d).run known = (.ok files, known)) ∧
      files.Nodup ∧ ∀ file, file ∈ files ↔ ∃ front name, file = root.inside (front ++ [name]) ∧
        Proper (front ++ [name]) ∧ d.isFile file = true ∧ packagesName ∉ front ++ [name] ∧
        ¬Exclusion.LeavesOut (configured ++ quirks) sourceMaps front name) ∧
    ∀ (less more : Exclusion) (texts : List String), less.withPatterns texts = .ok more →
      ∀ path, less.excludes path = true → more.excludes path = true := by
  constructor
  · obtain ⟨found, walked⟩ := (Disk.filesBelow_ok_iff tidy directory).mpr walkable
    obtain ⟨once, exact⟩ := Disk.filesBelow_exact tidy directory walked
    refine ⟨_, packageFiles_run rules walked, ?_, fun file => ?_⟩
    · exact (once.filter _).map fun _ _ => Path.inside_inj.mp
    · simp only [List.mem_map, List.mem_filter, exact, leadsToFile_iff, Bool.not_eq_true']
      constructor
      · rintro ⟨names, ⟨⟨below, proper, outside, isFile⟩, kept⟩, rfl⟩
        obtain ⟨front, name, rfl⟩ := List.eq_nil_or_concat names |>.resolve_left below
        rw [List.concat_eq_append] at proper outside isFile kept ⊢
        have isName : IsName name := proper name (by simp)
        refine ⟨front, name, rfl, proper, isFile, outside, ?_⟩
        rw [← Exclusion.excludes_iff_leavesOut made extended isName, kept]
        exact Bool.false_ne_true
      · rintro ⟨front, name, rfl, proper, isFile, outside, kept⟩
        have isName : IsName name := proper name (by simp)
        rw [← Exclusion.excludes_iff_leavesOut made extended isName, Bool.not_eq_true] at kept
        exact ⟨front ++ [name], ⟨⟨by simp, proper, outside, isFile⟩, kept⟩, rfl⟩
  · intro less more texts extended path excluded
    exact (Exclusion.excludes_withPatterns extended).mpr (.inl excluded)

namespace NodeModules

open Disk (Node)
open Checksum (Tidy tidy_directory tidy_of_counts)

def file : Node := .file ⟨[], 0o644, 0⟩

/-- What a directory beside the packages holds. -/
def shared : Node := .directory [("util.js", file), ("util.js.map", file)]

/-- A package with a link to that directory. -/
def package : Node := .directory [("README.md", file),
  ("build", .directory [("out.js", file)]), ("index.js", file),
  ("node_modules", .directory [("inner.js", file)]), ("shared", .link "/shared")]

/-- The package is installed under the name of a directory of packages. -/
def disk : Disk where
  root := .directory [("node_modules", .directory [("node_modules", package)]), ("shared", shared)]
  current := .root
  now := 0

def place : Path := .ofNames ["node_modules", "node_modules"]

theorem tidy_file : Tidy file :=
  tidy_of_counts (show Checksum.Item.ofNode? file = some (.file []) from rfl)

theorem tidy_shared : Tidy shared := tidy_directory (by decide) (by decide) (by simp [tidy_file])

theorem tidy_package : Tidy package := by
  have link : Tidy (.link "/shared") :=
    tidy_of_counts (show Checksum.Item.ofNode? (.link "/shared") = some (.link _) from rfl)
  have build : Tidy (.directory [("out.js", file)]) :=
    tidy_directory (by decide) (by decide) (by simp [tidy_file])
  have inner : Tidy (.directory [("inner.js", file)]) :=
    tidy_directory (by decide) (by decide) (by simp [tidy_file])
  exact tidy_directory (by decide) (by decide) (by simp [tidy_file, link, build, inner])

theorem tidy_disk : Tidy disk.root := by
  have packages : Tidy (.directory [("node_modules", package)]) :=
    tidy_directory (by decide) (by decide) (by simp [tidy_package])
  exact tidy_directory (by decide) (by decide) (by simp [packages, tidy_shared])

theorem filesBelow_place : disk.filesBelow (· == packagesName) place =
    .ok [["README.md"], ["build", "out.js"], ["index.js"], ["shared", "util.js"],
      ["shared", "util.js.map"]] := by
  cbv

/-- The rules of the configuration, which leave out what is written for readers. -/
def configuredRules : Exclusion := ⟨[⟨[.anySequence, .char '.', .char 'm', .char 'd']⟩], false⟩

/-- For this package they leave out what is built as well. -/
def packageRules : Exclusion :=
  ⟨configuredRules.patterns ++ [⟨"build/".toList.map .char ++ [.anyComponents]⟩], false⟩

theorem made : Exclusion.make ["*.md"] false = .ok configuredRules := rfl

theorem extended : configuredRules.withPatterns ["build/**"] = .ok packageRules := rfl

theorem isDirectory_place : disk.isDirectory place = true := by cbv

theorem walkable : disk.Walkable (· == packagesName) place :=
  (Disk.filesBelow_ok_iff tidy_disk isDirectory_place).mp ⟨_, filesBelow_place⟩

/-- The files that are shipped of the package. -/
def shipped : List Path := [place.inside ["index.js"], place.inside ["shared", "util.js"]]

theorem run_place (known : Manifests) :
    ((packageFiles packageRules place) disk).run known = (.ok shipped, known) := by
  rw [packageFiles_run packageRules filesBelow_place]
  rfl

end NodeModules

section

open NodeModules

/-- The files of a package that lies among installed packages and is called like their directory. -/
theorem packageFiles_exact_nodeModules :
    Checksum.Tidy disk.root ∧ disk.isDirectory place = true ∧
      disk.Walkable (· == packagesName) place ∧
      Exclusion.make ["*.md"] false = .ok configuredRules ∧
      configuredRules.withPatterns ["build/**"] = .ok packageRules ∧
      (∀ known, ((packageFiles packageRules place) disk).run known = (.ok shipped, known)) ∧
      ∀ file, file ∈ shipped ↔ ∃ front name, file = place.inside (front ++ [name]) ∧
        Proper (front ++ [name]) ∧ disk.isFile file = true ∧ packagesName ∉ front ++ [name] ∧
        ¬Exclusion.LeavesOut ["*.md", "build/**"] false front name := by
  obtain ⟨⟨files, run, -, exact⟩, -⟩ :=
    packageFiles_exact tidy_disk isDirectory_place walkable made extended
  have both := (run (.empty none)).symm.trans (run_place (.empty none))
  have same : files = shipped := Except.ok.inj (Prod.mk.inj both).1
  exact ⟨tidy_disk, isDirectory_place, walkable, made, extended, run_place, same ▸ exact⟩

end

end GraphPolicy

end FunctionArchive
