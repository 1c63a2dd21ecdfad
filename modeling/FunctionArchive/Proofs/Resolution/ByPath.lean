import FunctionArchive.Proofs.Reference
import FunctionArchive.Proofs.Resolution.Candidates
import FunctionArchive.Proofs.Resolution.Crossing

/-!
# What a reference by path means

A reference by path means the first file among the candidates of the path that it spells, and is
missing if there is none (`resolve_byPath`). The path is normalised before it is looked up. So a
reference in the form of a directory, which ends in a slash, a dot or two dots and by itself never
leads to a file (`not_isFile_of_form`), is looked up like one that means a file: it means the
directory that it denotes only if neither that path nor the path with an extension is a file
(`resolve_directoryForm`), and otherwise the file beside the directory (`resolve_besideDirectory`).
-/

set_option autoImplicit false

namespace FunctionArchive

open Path (IsPart)
open Query (Steady Alike SameOutcome)

/-! ## References in the form of a directory -/

namespace Reference

/-- Whether a reference is a lone dot or two dots, or ends in a slash or in one of these behind a
slash. -/
def isDirectoryForm (reference : String) : Bool :=
  reference == "." || reference == ".." ||
    ["/", "/.", "/.."].any fun ending => ending.toList.isSuffixOf reference.toList

/-- What follows the last slash of a text is the last name of its path, unless it is the root. -/
theorem last_ofString {text : String} {front back : List Char}
    (spelled : text.toList = front ++ '/' :: back) (noSlash : '/' ∉ back) :
    Path.ofString text = .root ∨
      (Path.ofString text).names.getLast? = some (String.ofList back) := by
  have one : Path.split back = [String.ofList back] := by
    have spelled : '/' ∉ (String.ofList back).toList := by simpa using noSlash
    simpa using Path.split_noSlash spelled
  have behind (before : List Char) :
      (Path.split (before ++ '/' :: back)).getLast? = some (String.ofList back) := by
    rw [Path.split_append, one, List.getLast?_append]
    rfl
  cases front with
  | nil =>
      cases back with
      | nil => exact .inl (by simp [Path.ofString, spelled, Path.root])
      | cons first rest =>
          refine .inr ?_
          simp [Path.ofString, spelled, one]
  | cons first before =>
      refine .inr ?_
      by_cases slash : first = '/'
      · subst slash
        obtain ⟨second, others, joined⟩ : ∃ second others,
            before ++ '/' :: back = second :: others :=
          List.exists_cons_of_ne_nil (by simp)
        have whole : Path.ofString text = ⟨true, Path.split (before ++ '/' :: back)⟩ := by
          rw [List.cons_append, joined] at spelled
          rw [joined]
          simp [Path.ofString, spelled]
        rw [whole]
        exact behind before
      · have whole : Path.ofString text = ⟨false, Path.split (first :: before ++ '/' :: back)⟩ := by
          rw [← ofString_ofList (by simp) (by simpa using slash), ← spelled, String.ofList_toList]
        rw [whole]
        exact behind (first :: before)

/-- The last name in such a form is blank, a dot or two dots. -/
theorem last_of_directoryForm {reference : String} (form : isDirectoryForm reference = true) :
    Path.ofString reference = .root ∨
      ∃ name, (Path.ofString reference).names.getLast? = some name ∧
        (Path.isRedundant name = true ∨ name = "..") := by
  have endings (back : List Char) (noSlash : '/' ∉ back)
      (noName : Path.isRedundant (String.ofList back) = true ∨ String.ofList back = "..")
      (ends : '/' :: back <:+ reference.toList) : Path.ofString reference = .root ∨
        ∃ name, (Path.ofString reference).names.getLast? = some name ∧
          (Path.isRedundant name = true ∨ name = "..") := by
    obtain ⟨front, spelled⟩ := ends
    rcases last_ofString spelled.symm noSlash with root | last
    · exact .inl root
    · exact .inr ⟨_, last, noName⟩
  simp only [isDirectoryForm, Bool.or_eq_true, beq_iff_eq, List.any_cons, List.any_nil,
    Bool.or_false, List.isSuffixOf_iff_suffix] at form
  rcases form with (rfl | rfl) | slash | dot | dots
  · exact .inr ⟨".", by decide, .inl (by decide)⟩
  · exact .inr ⟨"..", by decide, .inr rfl⟩
  · exact endings [] (by decide) (.inl (by decide)) slash
  · exact endings ['.'] (by decide) (.inl (by decide)) dot
  · exact endings ['.', '.'] (by decide) (.inr (by decide)) dots

end Reference

namespace Resolution

variable {d : Disk} {extensions : List String} {reference : String} {requirer : Path}

/-- A reference in the form of a directory leads to no file by itself. -/
theorem not_isFile_of_form (tree : d.IsTree) {directory : Path}
    (form : Reference.isDirectoryForm reference = true) :
    d.isFile (directory.child reference) = false := by
  unfold Path.child
  rcases Reference.last_of_directoryForm form with root | ⟨name, last, noName⟩
  · obtain ⟨entries, isDirectory⟩ := tree.root
    have found : d.find .root = .ok ⟨[], .directory entries⟩ :=
      Disk.find_of_at? (congrArg some isDirectory) (List.forall_mem_nil _) nofun
    rw [root]
    show d.isFile .root = false
    simp [Disk.isFile, found]
  · suffices last' : (directory.join (Path.ofString reference)).names.getLast? = some name from
      Disk.not_isFile_of_last last' noName
    unfold Path.join
    split
    · exact last
    · have some : (Path.ofString reference).names.isEmpty = false := by
        cases names : (Path.ofString reference).names with
        | nil => simp [names] at last
        | cons first rest => rfl
      split
      · exact last
      · rw [some, if_neg Bool.false_ne_true, List.getLast?_append, last]
        rfl

/-! ## The meaning of a reference by path -/

variable (d) in
/-- The plain path that a reference spells in a script. -/
def spelledIn (reference : String) (requirer : Path) : Path :=
  Path.normalize d.current ((startOf requirer).child reference)

/-- What every run gets that knows nothing but the truth. -/
theorem run_of_answer {known : Manifests} (faithful : known.Faithful d)
    {outcome : Outcome Resolution}
    (answered : (resolve extensions reference requirer).answer d known.boundary = outcome)
    (settled : ∀ reason, outcome ≠ .ok (.optional reason)) :
    (((resolve extensions reference requirer) d).run known).1 = outcome := by
  have alike := (resolve_alike d extensions reference requirer faithful
    (Manifests.faithful_empty known.boundary d) rfl).outcome
  unfold Query.answer at answered
  rw [answered] at alike
  generalize (((resolve extensions reference requirer) d).run known).1 = result at alike ⊢
  cases alike with
  | error fault => rfl
  | ok similar =>
      cases similar with
      | same => rfl
      | tolerated _ reason _ => exact absurd rfl (settled reason)

section

variable {known : Manifests} (tree : d.IsTree) (isReal : d.IsReal requirer)
  (relative : Reference.isRelative reference = true) (faithful : known.Faithful d)

/-- A reference means the first file among some candidates, by its real path, or it is missing. -/
def MeansFirst (d : Disk) (candidates : List Path) (reference : String) (requirer : Path)
    (outcome : Outcome Resolution) : Prop :=
  match candidates.find? d.isFile with
  | some found => ∃ path links, d.realPath found = .ok path ∧
      outcome = .ok (.resolved path none links)
  | none => outcome = .error (.missingDependency reference requirer)

include tree isReal relative faithful

/-- A reference by path means the first file among the candidates of the path, if the manifest can
be read that is consulted when nothing before it is a file. -/
theorem resolve_byPath
    (loads : (fileCandidates extensions (spelledIn d reference requirer)).find? d.isFile = none →
      d.isDirectory (spelledIn d reference requirer) = true →
        d.LoadsManifest (spelledIn d reference requirer)) :
    MeansFirst d (pathCandidates d extensions (spelledIn d reference requirer))
    reference requirer (((resolve extensions reference requirer) d).run known).1 := by
  obtain ⟨here, start, straight⟩ := tree.startOf_real isReal
  have answered : (pathFile extensions (spelledIn d reference requirer)).answer d known.boundary =
      .ok ((pathCandidates d extensions (spelledIn d reference requirer)).find? d.isFile) :=
    pathFile_answer loads
  have notBuiltin := Reference.isBuiltin_of_relative relative
  unfold MeansFirst
  cases first : (pathCandidates d extensions (spelledIn d reference requirer)).find? d.isFile with
  | none =>
      rw [first] at answered
      exact run_of_answer faithful (resolve_stray notBuiltin relative answered) nofun
  | some found =>
      rw [first] at answered
      have rooted : (spelledIn d reference requirer).Rooted := by
        unfold spelledIn
        rw [start]
        have plain := Path.plain_ofNames.mpr straight.proper
        exact ((plain.descends.toRooted.child reference).normalize d.current).descends.toRooted
      obtain ⟨path, links, real, crossed⟩ := exists_links known.boundary tree isReal
        (pathCandidates_rooted rooted (List.mem_of_find?_eq_some first)) (List.find?_some first)
      refine ⟨path, links, real, run_of_answer faithful ?_ nofun⟩
      exact resolve_relative notBuiltin relative answered real crossed

/-- A reference in the form of a directory, which leads to no file by itself, means what the
directory gives that it denotes, by its manifest or its index file, if neither the path of the
directory nor that path with an extension is a file. -/
theorem resolve_directoryForm (form : Reference.isDirectoryForm reference = true)
    (noFile : ∀ path ∈ fileCandidates extensions (spelledIn d reference requirer),
      d.isFile path = false)
    (loads : d.isDirectory (spelledIn d reference requirer) = true →
      d.LoadsManifest (spelledIn d reference requirer)) :
    d.isFile ((startOf requirer).child reference) = false ∧
      MeansFirst d
        (if d.isDirectory (spelledIn d reference requirer) then
          directoryCandidates d extensions (spelledIn d reference requirer) else [])
        reference requirer (((resolve extensions reference requirer) d).run known).1 := by
  refine ⟨not_isFile_of_form tree form, ?_⟩
  have whole : MeansFirst d (pathCandidates d extensions (spelledIn d reference requirer))
      reference requirer (((resolve extensions reference requirer) d).run known).1 :=
    resolve_byPath tree isReal relative faithful fun _ => loads
  have none : (fileCandidates extensions (spelledIn d reference requirer)).find? d.isFile = none :=
    List.find?_eq_none.mpr fun path among => by simp [noFile path among]
  unfold MeansFirst at whole ⊢
  rw [pathCandidates, List.find?_append, none, Option.none_or] at whole
  exact whole

end

/-! ## A directory with and without a file beside it -/

namespace BesideSample

def source : Disk.Node := .file ⟨[], 0o644, 0⟩

/-- A script beside a directory with an index file, and what else is beside it. -/
def beside (entries : List (String × Disk.Node)) : Disk where
  root := .directory (("a.js", source) :: ("lib", .directory [("index.js", source)]) :: entries)
  current := .root
  now := 0

def besideScript : Path := .ofNames ["a.js"]

theorem spelledIn_beside (entries : List (String × Disk.Node)) :
    spelledIn (beside entries) "./lib/" besideScript = .ofNames ["lib"] := by
  show Path.normalize .root ((startOf besideScript).child "./lib/") = _
  cbv

end BesideSample

section Example

open BesideSample

theorem resolve_directoryForm_beside : ∃ links,
    (((resolve [".js"] "./lib/" besideScript) (beside [])).run (.empty none)).1 =
      .ok (.resolved (.ofNames ["lib", "index.js"]) none links) := by
  have spelled := spelledIn_beside []
  have appended : (Path.ofNames ["lib"]).appendToName ".js" = .ofNames ["lib.js"] := by
    cbv
  have index : (Path.ofNames ["lib"]).child "index.js" = .ofNames ["lib", "index.js"] := by
    cbv
  have missing : Manifests.fetch (beside []) ((Path.ofNames ["lib"]).child Manifest.fileName) =
      .ok none := by cbv
  have paths : (beside []).allPaths =
      [.root, besideScript, .ofNames ["lib"], .ofNames ["lib", "index.js"]] := rfl
  have tree : (beside []).IsTree := by
    refine ⟨⟨_, rfl⟩, ?_⟩
    rw [paths]
    simp only [Path.Proper, Path.IsName, Path.IsPart]
    decide
  have there : (beside []).isDirectory (.ofNames ["lib"]) = true := by cbv
  have first : ([.ofNames ["lib", "index.js"]] : List Path).find? (beside []).isFile =
      some (.ofNames ["lib", "index.js"]) := by cbv
  have isReal : (beside []).IsReal besideScript := ⟨besideScript, by cbv⟩
  have noFile : ∀ path ∈ fileCandidates [".js"] (spelledIn (beside []) "./lib/" besideScript),
      (beside []).isFile path = false := by
    rw [spelled, fileCandidates, List.map_singleton, appended]
    simp only [List.forall_mem_cons]
    exact ⟨by cbv, by cbv, List.forall_mem_nil _⟩
  obtain ⟨-, means⟩ := resolve_directoryForm tree isReal (by cbv)
    (Manifests.faithful_empty none (beside [])) (by cbv) noFile
    (by
      rw [spelled]
      exact fun _ => ⟨none, missing⟩)
  have noManifest : (beside []).manifestIn (.ofNames ["lib"]) = none := by
    rw [Disk.manifestIn, missing]
  have candidates : directoryCandidates (beside []) [".js"] (.ofNames ["lib"]) =
      [.ofNames ["lib", "index.js"]] := by
    simp [directoryCandidates, mainCandidates, indexCandidates, noManifest, index]
  rw [spelled, if_pos there, candidates, MeansFirst, first] at means
  obtain ⟨path, links, real, answered⟩ := means
  have isReal : (beside []).realPath (.ofNames ["lib", "index.js"]) =
      .ok (.ofNames ["lib", "index.js"]) := by cbv
  cases isReal.symm.trans real
  exact ⟨links, answered⟩

/-- Beside a file of its name a directory is not what a reference in its form means. -/
theorem resolve_besideDirectory :
    (directoryCandidates (beside [("lib.js", source)]) [".js"]
        (spelledIn (beside [("lib.js", source)]) "./lib/" besideScript)).find?
        (beside [("lib.js", source)]).isFile = some (.ofNames ["lib", "index.js"]) ∧
      (resolve [".js"] "./lib/" besideScript).answer (beside [("lib.js", source)]) none =
        .ok (.resolved (.ofNames ["lib.js"]) none []) := by
  have spelled := spelledIn_beside [("lib.js", source)]
  have appended : (Path.ofNames ["lib"]).appendToName ".js" = .ofNames ["lib.js"] := by
    cbv
  have index : (Path.ofNames ["lib"]).child "index.js" = .ofNames ["lib", "index.js"] := by
    cbv
  have missing : Manifests.fetch (beside [("lib.js", source)])
      ((Path.ofNames ["lib"]).child Manifest.fileName) = .ok none := by cbv
  have noManifest : (beside [("lib.js", source)]).manifestIn (.ofNames ["lib"]) = none := by
    rw [Disk.manifestIn, missing]
  have first : (.ofNames ["lib"] :: [".js"].map (Path.ofNames ["lib"]).appendToName).find?
      (beside [("lib.js", source)]).isFile = some (.ofNames ["lib.js"]) := by
    rw [List.map_singleton, appended]
    cbv
  refine ⟨?_, ?_⟩
  · rw [spelled]
    simp only [directoryCandidates, mainCandidates, indexCandidates, noManifest, Option.bind_none,
      List.nil_append, List.map_singleton]
    rw [show "index" ++ ".js" = "index.js" from rfl, index]
    cbv
  · have stands : (pathFile [".js"] (Path.normalize (beside [("lib.js", source)]).current
        ((startOf besideScript).child "./lib/"))).answer (beside [("lib.js", source)]) none =
          .ok (some (.ofNames ["lib.js"])) := by
      have normalized := spelledIn_beside [("lib.js", source)]
      unfold spelledIn at normalized
      rw [normalized]
      exact Alike.answer_bind (a := some (.ofNames ["lib.js"])) (file_steady _ _ _)
        (congrArg Except.ok first) (.pure rfl) rfl
    exact resolve_relative (by cbv) (by cbv) stands (by cbv) (by cbv)

end Example

end Resolution

end FunctionArchive
