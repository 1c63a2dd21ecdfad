import FunctionArchive.Proofs.Archive.Preservation
import FunctionArchive.Proofs.Graph.Account
import FunctionArchive.Proofs.Graph.SingleReference
import FunctionArchive.Proofs.Reference

/-!
# References to a script's own files

The lists of modules name packages, but they are asked about paths as well: a path passes for a
package by what stands in front of its first slash, which is a dot, two dots or nothing. Entries
that fit none of these leave every path alone (`ModuleFilter.NamesNoPath`), and then each reference
by path leads into the closure, or there is no closure (`Graph.build_followsPaths`). A pattern like
`*` fits them all, and a file of the script itself is left out (`Graph.build_catchAll`).
-/

set_option autoImplicit false

namespace FunctionArchive

open Query (Yields Fails)

/-! ## What paths mean -/

namespace Resolution

variable {extensions : List String} {d : Disk} {limit : Option Path} {reference : String}

/-- A path means a file outside of all packages. -/
theorem resolve_path_yields (relative : Reference.isRelative reference = true) (requirer : Path) :
    Yields d limit (resolve extensions reference requirer) fun meaning =>
      ∃ file links, meaning = .resolved file none links := by
  unfold resolve
  simp only [Reference.isBuiltin_of_relative relative, relative, Bool.false_eq_true, if_false,
    if_true]
  refine .bind (normalized_steady d _).yields fun path _ => ?_
  refine .bind (pathFile_steady d _ _).yields ?_
  rintro (_ | found) -
  · exact .throw _
  · refine .bind (realPath_steady d found).yields fun file _ => ?_
    exact .bind (linksTo_steady d _ _).yields fun links _ => .pure ⟨file, links, rfl⟩

/-- A path is missing, or something is wrong with what it leads to. -/
theorem resolve_path_fails (relative : Reference.isRelative reference = true) (requirer : Path) :
    Fails d limit (resolve extensions reference requirer) fun fault =>
      fault = .missingDependency reference requirer ∨ fault.IsOther := by
  unfold resolve
  simp only [Reference.isBuiltin_of_relative relative, relative, Bool.false_eq_true, if_false,
    if_true]
  refine .bind (normalized_fails _) (normalized_steady d _).yields fun path _ => ?_
  refine .bind ((pathFile_fails _ _).mono fun _ => .inr) (pathFile_steady d _ _).yields ?_
  rintro (_ | found) -
  · exact .throw (.inl rfl)
  · refine .bind ((realPath_fails _).mono fun _ => .inr) (realPath_steady d _).yields
      fun file _ => ?_
    exact .bind ((linksTo_fails _ _).mono fun _ => .inr) (linksTo_steady d _ _).yields
      fun _ _ => .pure _

end Resolution

/-! ## Lists of modules and paths -/

/-- An entry of a list of modules describes no path: as a pattern it fits neither a dot nor two dots
nor nothing, and as a name it is no path and not empty. -/
def ModuleFilter.NamesNoPath (entry : String) : Prop :=
  if isPattern entry then
    ∀ pattern, Glob.Pattern.read entry = .ok pattern →
      ∀ first ∈ [".", "..", ""], pattern.matches first = false
  else Reference.isRelative entry = false ∧ entry ≠ ""

/-- An entry that describes some path leaves out a path. -/
theorem ModuleFilter.namesNoPath_iff {entry : String} :
    NamesNoPath entry ↔
      ∀ reference, Reference.isRelative reference = true → ¬ Lists entry reference := by
  have paths : ∀ first ∈ [".", "..", ""], ∃ reference,
      Reference.isRelative reference = true ∧ Reference.packageName reference = first := by
    intro first among
    simp only [List.mem_cons, List.not_mem_nil, or_false] at among
    rcases among with rfl | rfl | rfl
    · exact ⟨".", by decide, by decide⟩
    · exact ⟨"..", by decide, by decide⟩
    · exact ⟨"/", by decide, by decide⟩
  unfold NamesNoPath Lists
  split
  · constructor
    · rintro noPath reference relative ⟨pattern, read, fits⟩
      cases (noPath pattern read _ (Reference.packageName_of_relative relative)).symm.trans fits
    · intro unlisted pattern read first among
      obtain ⟨reference, relative, rfl⟩ := paths first among
      exact Bool.eq_false_iff.mpr fun fits => unlisted reference relative ⟨pattern, read, fits⟩
  · constructor
    · rintro ⟨noPath, notEmpty⟩ reference relative (rfl | rfl)
      · have dots : ∀ first ∈ [".", "..", ""], first ≠ "" → Reference.isRelative first = true := by
          decide
        have isPath := dots _ (Reference.packageName_of_relative relative) notEmpty
        cases noPath.symm.trans isPath
      · cases noPath.symm.trans relative
    · intro unlisted
      refine ⟨Bool.eq_false_iff.mpr fun relative => unlisted entry relative (.inr rfl), ?_⟩
      rintro rfl
      obtain ⟨reference, relative, nameless⟩ := paths "" (by decide)
      exact unlisted reference relative (.inl nameless.symm)

namespace GraphPolicy

variable {s : Settings} {config : FunctionConfig} {policy : GraphPolicy} {reference : String}

/-- The policy without its lists of modules. -/
def withoutLists (policy : GraphPolicy) : GraphPolicy :=
  { policy with external := ⟨[], []⟩, ignored := ⟨[], []⟩ }

/-- What is left out is what some entry of some list says. -/
theorem skips_iff (made : ofSettings s config = .ok policy) :
    policy.Skips reference ↔
      ∃ entry ∈ config.externalModules ++ config.ignoredModules,
        ModuleFilter.Lists entry reference := by
  obtain ⟨external, ignored, -, -⟩ := ofSettings_ok_iff.mp made
  rw [Skips, ModuleFilter.covers_iff external, ModuleFilter.covers_iff ignored]
  simp only [List.mem_append, or_and_right, exists_or]

/-- A reference that is not left out is followed as if there were no lists. -/
theorem follow_withoutLists (looked : ¬ policy.Skips reference) (requirer : Path)
    (declared : Bool) :
    policy.follow reference requirer declared =
      policy.withoutLists.follow reference requirer declared := by
  obtain ⟨notExternal, notIgnored⟩ := not_skips_iff.mp looked
  have nothing : (⟨[], []⟩ : ModuleFilter).covers reference = false := rfl
  unfold follow
  simp only [notExternal, notIgnored, withoutLists, nothing]

end GraphPolicy

namespace Graph

variable {policy : GraphPolicy} {d : Disk} {entry start : Path}

/-- The lists of modules leave every path alone exactly if no entry describes a path. Each reference
by path in a file of a closure that they leave alone is followed as if there were no lists: it leads
to a file of the closure, or it is missing and there is no closure. -/
theorem build_followsPaths {s : Settings} {config : FunctionConfig} {known : Manifests}
    (made : GraphPolicy.ofSettings s config = .ok policy) (faithful : known.Faithful d)
    (real : d.realPath entry = .ok start) :
    ((∀ reference, Reference.isRelative reference = true → ¬ policy.Skips reference) ↔
      ∀ listed ∈ config.externalModules ++ config.ignoredModules, ModuleFilter.NamesNoPath listed) ∧
    ∀ script reference, policy.InClosure d known.boundary start (.file script) →
      .static reference ∈ d.referencesIn script → Reference.isRelative reference = true →
      ¬ policy.Skips reference →
        policy.follow reference script false = policy.withoutLists.follow reference script false ∧
        ((∃ file links, (Resolution.resolve policy.extensions reference script).answer d
              known.boundary = .ok (.resolved file none links) ∧
            ∀ g, (((build policy entry) d).run known).1 = .ok g → file ∈ g.files) ∨
          ∃ fault, (Resolution.resolve policy.extensions reference script).answer d
              known.boundary = .error fault ∧
            (fault = .missingDependency reference script ∨ fault.IsOther) ∧
            ∃ failure, (((build policy entry) d).run known).1 = .error failure) := by
  constructor
  · simp only [GraphPolicy.skips_iff made, ModuleFilter.namesNoPath_iff, not_exists, not_and]
    exact ⟨fun unlisted listed member reference relative =>
      unlisted reference relative listed member,
      fun noPaths reference relative listed member => noPaths listed member reference relative⟩
  intro script reference inside found relative looked
  refine ⟨GraphPolicy.follow_withoutLists looked script false, ?_⟩
  have notBuiltin := Reference.isBuiltin_of_relative relative
  obtain ⟨notExternal, notIgnored⟩ := GraphPolicy.not_skips_iff.mp looked
  have empty := Manifests.faithful_empty known.boundary d
  cases answered :
    (Resolution.resolve policy.extensions reference script).answer d known.boundary with
  | ok meaning =>
      obtain ⟨file, links, rfl⟩ :=
        (Resolution.resolve_path_yields relative script empty rfl).value meaning answered
      refine .inl ⟨file, links, rfl, fun g built => ?_⟩
      obtain ⟨start', real', closed⟩ := (build_yields entry faithful rfl).value g built
      cases real.symm.trans real'
      have follows : policy.Follows d known.boundary ⟨reference, script⟩ file none links :=
        ⟨notBuiltin, notExternal, notIgnored, answered⟩
      exact (closed.files file).mpr (.inl (.leadsTo (.refers inside found) follows))
  | error fault =>
      refine .inr ⟨fault, rfl, Resolution.resolve_path_fails relative script empty rfl fault
        answered, ?_⟩
      cases built : (((build policy entry) d).run known).1 with
      | error failure => exact ⟨failure, rfl⟩
      | ok g =>
          obtain ⟨start', real', inOrder⟩ := (build_ok_iff faithful).mp ⟨g, built⟩
          cases real.symm.trans real'
          exact absurd ((inOrder _ inside).references reference found)
            (GraphPolicy.not_answerable notBuiltin notExternal notIgnored answered)

/-! ### Packages by a pattern -/

/-- Nothing is left out but packages that a pattern describes. -/
def patternPolicy (tokens : List Glob.Token) : GraphPolicy :=
  { plainPolicy with external := ⟨[], [⟨tokens⟩]⟩ }

theorem answer_pairOfFiles (tokens : List Glob.Token) :
    (Resolution.resolve (patternPolicy tokens).extensions "./b.json" (.ofNames ["a.js"])).answer
      pairOfFiles none = .ok (.resolved (.ofNames ["b.json"]) none []) :=
  congrArg Prod.fst (resolve_pairOfFiles (.empty none))

/-- The script of the pair has a closure, whatever the pattern says about its reference. -/
theorem build_patternPolicy (tokens : List Glob.Token) :
    ∃ g, (((build (patternPolicy tokens) (.ofNames ["a.js"])) pairOfFiles).run (.empty none)).1 =
      .ok g := by
  refine build_single realPath_pairOfFiles
    (fun _ => ⟨_, read_pairOfFiles, .inl ⟨_, scan_referringSource⟩⟩)
    referencesIn_pairOfFiles (.resolved (answer_pairOfFiles tokens)) ?_
  intro file package links follows
  cases (answer_pairOfFiles tokens).symm.trans follows.resolved
  exact ⟨by decide, rfl⟩

/-- A pattern of packages leaves alone what a script itself refers to. -/
theorem build_followsPaths_pairOfFiles :
    ∃ policy g, GraphPolicy.ofSettings Packing.plainSettings { externalModules := ["q*"] } =
        .ok policy ∧
      (((build policy (.ofNames ["a.js"])) pairOfFiles).run (.empty none)).1 = .ok g ∧
      .ofNames ["b.json"] ∈ g.files := by
  have made : GraphPolicy.ofSettings Packing.plainSettings { externalModules := ["q*"] } =
      .ok (patternPolicy [.char 'q', .anySequence]) := rfl
  have noPath : ModuleFilter.NamesNoPath "q*" := by
    have isPattern : ModuleFilter.isPattern "q*" = true := by decide
    have fitsNone : ∀ first ∈ [".", "..", ""],
        Glob.Pattern.matches ⟨[.char 'q', .anySequence]⟩ first = false := by decide
    rw [ModuleFilter.NamesNoPath, if_pos isPattern]
    rintro pattern read
    cases read
    exact fitsNone
  obtain ⟨g, built⟩ := build_patternPolicy [.char 'q', .anySequence]
  obtain ⟨alone, follows⟩ :=
    build_followsPaths made (Manifests.faithful_empty none pairOfFiles) realPath_pairOfFiles
  have relative : Reference.isRelative "./b.json" = true := by decide
  have looked := alone.mpr (fun listed member => List.mem_singleton.mp member ▸ noPath) _ relative
  have found : .static "./b.json" ∈ pairOfFiles.referencesIn (.ofNames ["a.js"]) := by
    rw [referencesIn_pairOfFiles]
    exact List.mem_singleton_self _
  refine ⟨_, g, made, built, ?_⟩
  rcases (follows _ _ .start found relative looked).2 with
    ⟨file, links, answered, there⟩ | ⟨fault, failed, -⟩
  · cases (answer_pairOfFiles _).symm.trans answered
    exact there g built
  · cases (answer_pairOfFiles _).symm.trans failed

/-- A pattern that describes every text leaves out a file of the script itself. -/
theorem build_catchAll :
    ∃ policy g, GraphPolicy.ofSettings Packing.plainSettings { externalModules := ["*"] } =
        .ok policy ∧
      .static "./b.json" ∈ pairOfFiles.referencesIn (.ofNames ["a.js"]) ∧
      Reference.isRelative "./b.json" = true ∧ policy.Skips "./b.json" ∧
      (Resolution.resolve policy.extensions "./b.json" (.ofNames ["a.js"])).answer
        pairOfFiles none =
        .ok (.resolved (.ofNames ["b.json"]) none []) ∧
      (((build policy (.ofNames ["a.js"])) pairOfFiles).run (.empty none)).1 = .ok g ∧
      .ofNames ["b.json"] ∉ g.files ∧ "." ∈ g.external := by
  have found : .static "./b.json" ∈ pairOfFiles.referencesIn (.ofNames ["a.js"]) := by
    rw [referencesIn_pairOfFiles]
    exact List.mem_singleton_self _
  have covered : (patternPolicy [.anySequence]).external.covers "./b.json" = true := by decide
  have leadsNowhere (file : Path) (package : Option Path) (links : List Link) :
      ¬ (patternPolicy [.anySequence]).Follows pairOfFiles none ⟨"./b.json", .ofNames ["a.js"]⟩ file
        package links := fun follows => by
    cases covered.symm.trans follows.notExternal
  have pieces {piece : Piece}
      (inside : (patternPolicy [.anySequence]).InClosure pairOfFiles none
        (.ofNames ["a.js"]) piece) :
      piece = .file (.ofNames ["a.js"]) ∨ piece = .request ⟨"./b.json", .ofNames ["a.js"]⟩ := by
    rcases inClosure_single referencesIn_pairOfFiles
      (fun file package links follows => (leadsNowhere _ _ _ follows).elim) inside with
      isScript | isRequest | ⟨file, package, links, follows, -⟩
    · exact .inl isScript
    · exact .inr isRequest
    · exact (leadsNowhere _ _ _ follows).elim
  obtain ⟨g, built⟩ := build_patternPolicy [.anySequence]
  obtain ⟨start, real', closed⟩ :=
    (build_yields (.ofNames ["a.js"]) (Manifests.faithful_empty none pairOfFiles) rfl).value g built
  cases realPath_pairOfFiles.symm.trans real'
  refine ⟨_, g, rfl, found, by decide, .inl covered, answer_pairOfFiles _, built, fun there => ?_,
    (closed.external ".").mpr ⟨_, .refers .start found, ⟨by decide, covered⟩, by decide⟩⟩
  rcases (closed.files _).mp there with inside | ⟨root, inside, -⟩
  · rcases pieces inside with isScript | isRequest
    · exact absurd (Piece.file.inj isScript) (by decide)
    · cases isRequest
  · rcases pieces inside with isScript | isRequest
    · cases isScript
    · cases isRequest

end Graph

end FunctionArchive
