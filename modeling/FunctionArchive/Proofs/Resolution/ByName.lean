import FunctionArchive.Proofs.Manifest.Boundary
import FunctionArchive.Proofs.Resolution.Crossing
import FunctionArchive.Proofs.Resolution.Hits

/-!
# What a reference by name means

The deepest hit above a script settles what a reference by name means, and the first file among its
candidates is what it means. If there is no hit, the nearest manifest says whether the package may
be missing. So much holds if every manifest can be read that is consulted (`resolve_byName`); one
that is a link to itself is not malformed, but it ends the resolution (`resolve_selfLinked`).
-/

set_option autoImplicit false

namespace FunctionArchive

open Query (Steady Alike)

/-! ## What may be missing -/

/-- A package that the scripts of a manifest may do without: it is listed as optional or as an
optional peer, or the package of the manifest is known to do without it. -/
def Manifest.MayLack (m : Manifest) (package : String) : Prop :=
  m.isOptional package = true ∨ m.isPeerOptional package = true ∨
    ∃ name, m.name = some name ∧ Package.mayLack name m.version package = true

theorem Manifest.Respells.mayLack_iff {m m' : Manifest} (respells : m.Respells m')
    (package : String) : m.MayLack package ↔ m'.MayLack package := by
  obtain ⟨matched, -⟩ := respells
  rw [Manifest.Matches] at matched
  rw [matched]
  exact Iff.rfl

/-- The nearest manifest at or above a directory, as far as the limit. -/
def Disk.nearestManifest (d : Disk) (limit : Option Path) (directory : Path) : Option Manifest :=
  (Manifests.searched limit directory.ancestors).findSome? d.manifestIn

/-- A search upwards finds the nearest manifest, if the manifests can be read until then. -/
theorem Manifests.Faithful.findIn_nearest {known : Manifests} {d : Disk} {directories : List Path}
    (faithful : known.Faithful d)
    (loads : ∀ front directory rest,
      searched known.boundary directories = front ++ directory :: rest →
      (∀ other ∈ front, d.manifestIn other = none) → d.LoadsManifest directory) :
    Query.SameOutcome (Option.Rel Manifest.Respells) (((findIn directories) d).run known).1
      (.ok ((searched known.boundary directories).findSome? d.manifestIn)) := by
  induction directories generalizing known with
  | nil => exact .ok .none
  | cons directory rest ih =>
      obtain ⟨outcome, learns, kept⟩ := faithful.run_load directory
      rw [(loads [] directory _ rfl (List.forall_mem_nil _)).fetch_eq] at outcome
      rw [run_findIn_cons, searched, List.findSome?_cons]
      generalize ((load directory) d).run known = loaded at outcome learns kept
      obtain ⟨result, later⟩ := loaded
      cases here : d.manifestIn directory with
      | some m =>
          rw [here] at outcome
          cases outcome with
          | ok related =>
              cases related with
              | some respells => exact .ok (.some respells)
      | none =>
          rw [here] at outcome
          cases outcome with
          | ok related =>
              cases related with
              | none =>
                  dsimp only at kept learns ⊢
                  rw [kept]
                  by_cases last : known.boundary.any (·.same directory) = true
                  · rw [if_pos last, if_pos last]
                    exact .ok .none
                  · rw [if_neg last, if_neg last, ← kept]
                    refine ih learns fun front other others split before => ?_
                    refine loads (directory :: front) other others ?_
                      (List.forall_mem_cons.mpr ⟨here, before⟩)
                    rw [searched, if_neg last, ← kept, split, List.cons_append]

namespace Resolution

variable {d : Disk} {limit : Option Path} {extensions : List String} {reference : String}

/-- Whether a missing package is tolerated is up to the nearest manifest. -/
theorem tolerance_nearest {known : Manifests} (faithful : known.Faithful d) {directory : Path}
    (loads : ∀ front other rest,
      Manifests.searched known.boundary directory.ancestors = front ++ other :: rest →
      (∀ another ∈ front, d.manifestIn another = none) → d.LoadsManifest other)
    (package : String) :
    ∃ reason, (((tolerance package directory) d).run known).1 = .ok reason ∧
      (reason.isSome = true ↔
        ∃ m, d.nearestManifest known.boundary directory = some m ∧ m.MayLack package) := by
  have found := faithful.findIn_nearest loads
  rw [tolerance, Query.run_bind]
  change Query.SameOutcome _ (((Manifests.find directory) d).run known).1
    (.ok (d.nearestManifest known.boundary directory)) at found
  generalize ((Manifests.find directory) d).run known = searching at found ⊢
  generalize d.nearestManifest known.boundary directory = nearest at found ⊢
  obtain ⟨result, later⟩ := searching
  cases found with
  | ok related =>
      cases related with
      | none => exact ⟨none, rfl, by simp⟩
      | @some m m' respells =>
          have same := respells.mayLack_iff package
          by_cases optional : m.isOptional package = true
          · refine ⟨some (.optionalDependency m.path), by simp [optional], ?_⟩
            simpa using same.mp (.inl optional)
          by_cases peer : m.isPeerOptional package = true
          · refine ⟨some (.optionalPeer m.path), by simp [optional, peer], ?_⟩
            simpa using same.mp (.inr (.inl peer))
          cases named : m.name with
          | none =>
              have strict : ¬ m.MayLack package := by
                simp [Manifest.MayLack, optional, peer, named]
              refine ⟨none, by simp [optional, peer, named], ?_⟩
              simpa using fun lacks => strict (same.mpr lacks)
          | some name =>
              by_cases table : Package.mayLack name m.version package = true
              · refine ⟨some (.knownPackage name), by simp [optional, peer, named, table], ?_⟩
                simpa using same.mp (.inr (.inr ⟨name, named, table⟩))
              · have strict : ¬ m.MayLack package := by
                  simp [Manifest.MayLack, optional, peer, named, table]
                refine ⟨none, by simp [optional, peer, named, table], ?_⟩
                simpa using fun lacks => strict (same.mpr lacks)

/-! ## The meaning of a reference -/

variable (d limit extensions reference) in
/-- The directories whose manifests are consulted for a reference by name: at each directory until
the deepest hit the package, and what the path leads to if nothing before it is a file; if there is
no hit, the directories above the script up to the first one with a manifest. -/
inductive Consults (start : Path) : Path → Prop
  | package {front rest : List Path} {directory : Path}
      (above : start.ancestors = front ++ directory :: rest)
      (noHit : ∀ other ∈ front, ¬ IsHit d extensions reference other)
      (named : directory.fileName? ≠ some packagesName)
      (there : d.isDirectory (packageIn reference directory) = true) :
      Consults start (packageIn reference directory)
  | path {front rest : List Path} {directory : Path}
      (above : start.ancestors = front ++ directory :: rest)
      (noHit : ∀ other ∈ front, ¬ IsHit d extensions reference other)
      (named : directory.fileName? ≠ some packagesName)
      (noExport : (exportCandidates d (packageIn reference directory) reference).find? d.isFile =
        none)
      (noFile : (fileCandidates extensions ((directory.child packagesName).child reference)).find?
        d.isFile = none)
      (there : d.isDirectory ((directory.child packagesName).child reference) = true) :
      Consults start ((directory.child packagesName).child reference)
  | above {front rest : List Path} {directory : Path}
      (noHit : ∀ other ∈ start.ancestors, ¬ IsHit d extensions reference other)
      (searched : Manifests.searched limit start.ancestors = front ++ directory :: rest)
      (lacking : ∀ other ∈ front, d.manifestIn other = none) : Consults start directory

/-- What a reference by name comes to. -/
inductive Verdict (d : Disk) (limit : Option Path) (extensions : List String) (reference : String)
    (requirer : Path) : Outcome Resolution → Prop
  | hit {directory found path : Path} {package : Option Path} {links : List Link}
      (deepest : IsDeepestHit d extensions reference (startOf requirer).ancestors directory)
      (first : (candidates d extensions reference directory).find? d.isFile = some found)
      (real : d.realPath found = .ok path)
      (isPackage : IsPackageOf d reference directory package) :
      Verdict d limit extensions reference requirer (.ok (.resolved path package links))
  | tolerated {reason : Tolerance} {m : Manifest}
      (noHit : ∀ directory ∈ (startOf requirer).ancestors,
        ¬ IsHit d extensions reference directory)
      (nearest : d.nearestManifest limit (startOf requirer) = some m)
      (lacks : m.MayLack (Reference.packageName reference)) :
      Verdict d limit extensions reference requirer (.ok (.optional reason))
  | missing
      (noHit : ∀ directory ∈ (startOf requirer).ancestors,
        ¬ IsHit d extensions reference directory)
      (strict : ∀ m, d.nearestManifest limit (startOf requirer) = some m →
        ¬ m.MayLack (Reference.packageName reference)) :
      Verdict d limit extensions reference requirer
        (.error (.missingDependency reference requirer))

section

variable {requirer : Path} {known : Manifests} (tree : d.IsTree) (isReal : d.IsReal requirer)
  (notBuiltin : Reference.isBuiltin reference = false)
  (bare : Reference.isRelative reference = false) (faithful : known.Faithful d)
  (loads : ∀ directory,
    Consults d known.boundary extensions reference (startOf requirer) directory →
      d.LoadsManifest directory)

include tree isReal notBuiltin bare faithful loads

/-- The deepest hit settles a reference by name; without a hit the nearest manifest does. -/
theorem resolve_verdict : Verdict d known.boundary extensions reference requirer
    (((resolve extensions reference requirer) d).run known).1 := by
  obtain ⟨here, start, straight⟩ := tree.startOf_real isReal
  obtain ⟨found, answered, settles⟩ : ∃ found,
      (installedNext extensions reference (startOf requirer).ancestors).answer d known.boundary =
        .ok found ∧ Settles d extensions reference (startOf requirer).ancestors found :=
    installedNext_answer bare fun front directory rest split noHit named =>
      ⟨fun there => loads _ (.package split noHit named there),
        fun noExport noFile there => loads _ (.path split noHit named noExport noFile there)⟩
  obtain ⟨later, searched, learns, kept⟩ :=
    (installed_steady d extensions reference (startOf requirer)).run_eq faithful answered
  unfold resolve
  simp only [notBuiltin, bare, Bool.false_eq_true, if_false]
  rw [Query.run_bind, show ((installed extensions reference (requirer.parent?.getD .root)) d).run
    known = (.ok found, later) from searched]
  cases settles with
  | @hit directory place deepest first package =>
      obtain ⟨above, inFront, at_⟩ : ∃ front, front <+: here ∧ directory = .ofNames front := by
        obtain ⟨front, rest, split, -, -⟩ := deepest
        have member : directory ∈ (Path.ofNames here).ancestors := by
          rw [← start, split]
          simp
        exact (straight.proper.mem_ancestors _).mp member
      have rooted : place.path.Rooted := by
        refine candidates_rooted ?_ (List.mem_of_find?_eq_some first)
        rw [at_]
        exact (Path.plain_ofNames.mpr (straight.proper.of_prefix inFront)).descends.toRooted
      obtain ⟨path, links, real, crossed⟩ := exists_links known.boundary tree isReal rooted
        (List.find?_some first)
      have meaning := means_answer place.package real crossed
      rw [← kept] at meaning
      obtain ⟨final, means, -, -⟩ := (means_steady (d := d) place.path (startOf requirer)
        place.package).run_eq learns meaning
      have ended := congrArg Prod.fst means
      exact ended ▸ .hit deepest first real package
  | nothing noHit =>
      rw [← kept] at loads
      obtain ⟨reason, settled, tolerates⟩ := tolerance_nearest learns
        (fun front other rest split before => loads _ (.above noHit split before))
        (Reference.packageName reference)
      rw [kept] at tolerates
      dsimp only
      rw [Query.run_bind]
      change (((tolerance (Reference.packageName reference) (requirer.parent?.getD .root)) d).run
        later).1 = _ at settled
      generalize ((tolerance (Reference.packageName reference) (requirer.parent?.getD .root)) d).run
        later = ended at settled ⊢
      obtain ⟨outcome, final⟩ := ended
      cases settled
      cases reason with
      | none =>
          refine .missing noHit fun m nearest lacks => ?_
          cases tolerates.mpr ⟨m, nearest, lacks⟩
      | some reason =>
          obtain ⟨m, nearest, lacks⟩ := tolerates.mp rfl
          exact .tolerated noHit nearest lacks

/-- What a reference by name means, if every manifest that is consulted can be read: it is found
exactly if there is a hit, as the first file among the candidates of the deepest one; it is
tolerated exactly if there is none and the nearest manifest says that the package may be missing;
and it is missing in all other cases. -/
theorem resolve_byName :
    ((∃ path package links, (((resolve extensions reference requirer) d).run known).1 =
        .ok (.resolved path package links)) ↔
      ∃ directory ∈ (startOf requirer).ancestors, IsHit d extensions reference directory) ∧
    (∀ path package links, (((resolve extensions reference requirer) d).run known).1 =
        .ok (.resolved path package links) →
      ∃ directory found,
        IsDeepestHit d extensions reference (startOf requirer).ancestors directory ∧
        (candidates d extensions reference directory).find? d.isFile = some found ∧
        d.realPath found = .ok path ∧ IsPackageOf d reference directory package) ∧
    ((∃ reason, (((resolve extensions reference requirer) d).run known).1 =
        .ok (.optional reason)) ↔
      (∀ directory ∈ (startOf requirer).ancestors, ¬ IsHit d extensions reference directory) ∧
        ∃ m, d.nearestManifest known.boundary (startOf requirer) = some m ∧
          m.MayLack (Reference.packageName reference)) ∧
    ((((resolve extensions reference requirer) d).run known).1 =
        .error (.missingDependency reference requirer) ↔
      (∀ directory ∈ (startOf requirer).ancestors, ¬ IsHit d extensions reference directory) ∧
        ∀ m, d.nearestManifest known.boundary (startOf requirer) = some m →
          ¬ m.MayLack (Reference.packageName reference)) := by
  have verdict := resolve_verdict tree isReal notBuiltin bare faithful loads
  generalize (((resolve extensions reference requirer) d).run known).1 = outcome at verdict ⊢
  have hits {directory : Path}
      (deepest : IsDeepestHit d extensions reference (startOf requirer).ancestors directory)
      (noHit : ∀ directory ∈ (startOf requirer).ancestors,
        ¬ IsHit d extensions reference directory) : False := by
    obtain ⟨other, member, hit⟩ := exists_hit_iff.mp ⟨directory, deepest⟩
    exact noHit other member hit
  cases verdict with
  | hit deepest first real isPackage =>
      refine ⟨⟨fun _ => exists_hit_iff.mp ⟨_, deepest⟩, fun _ => ⟨_, _, _, rfl⟩⟩, ?_, ?_, ?_⟩
      · rintro _ _ _ ⟨⟩
        exact ⟨_, _, deepest, first, real, isPackage⟩
      · exact ⟨nofun, fun lacking => (hits deepest lacking.1).elim⟩
      · exact ⟨nofun, fun lacking => (hits deepest lacking.1).elim⟩
  | tolerated noHit nearest lacks =>
      refine ⟨⟨nofun, ?_⟩, nofun,
        ⟨fun _ => ⟨noHit, _, nearest, lacks⟩, fun _ => ⟨_, rfl⟩⟩, nofun, ?_⟩
      · rintro ⟨directory, member, hit⟩
        exact (noHit directory member hit).elim
      · rintro ⟨-, strict⟩
        exact (strict _ nearest lacks).elim
  | missing noHit strict =>
      refine ⟨⟨nofun, ?_⟩, nofun, ⟨nofun, ?_⟩, fun _ => ⟨noHit, strict⟩, fun _ => rfl⟩
      · rintro ⟨directory, member, hit⟩
        exact (noHit directory member hit).elim
      · rintro ⟨-, m, nearest, lacks⟩
        exact (strict m nearest lacks).elim

end

/-! ## A package with and without a manifest that can be read -/

namespace InstalledSample

def blank : Disk.Node := .file ⟨[], 0o644, 0⟩

/-- A script and an installed package with an index file. -/
def project (entries : List (String × Disk.Node)) : Disk where
  root := .directory [("a.js", blank),
    ("node_modules", .directory [("p", .directory (("index.js", blank) :: entries))])]
  current := .root
  now := 0

def script : Path := .ofNames ["a.js"]

def packagePath : Path := .ofNames ["node_modules", "p"]

def indexPath : Path := .ofNames ["node_modules", "p", "index.js"]

theorem packageIn_root : packageIn "p" .root = packagePath := by cbv

theorem child_root : (Path.root.child packagesName).child "p" = packagePath := by cbv

theorem eq_root {front rest : List Path} {directory : Path}
    (split : [Path.root] = front ++ directory :: rest) : directory = .root := by
  have member : directory ∈ [Path.root] := by
    rw [split]
    simp
  exact List.mem_singleton.mp member

/-- A script in the root directory consults the manifest of the package and its own. -/
theorem consults_root {d : Disk} {directory : Path}
    (consults : Consults d none [".js"] "p" .root directory) :
    directory = packagePath ∨ directory = .root := by
  cases consults with
  | package above _ _ _ =>
      rw [eq_root above]
      exact .inl packageIn_root
  | path above _ _ _ _ _ =>
      rw [eq_root above]
      exact .inl child_root
  | above _ searched _ => exact .inr (eq_root searched)

theorem candidates_project {entries : List (String × Disk.Node)}
    (there : (project entries).isDirectory packagePath = true)
    (noManifest : (project entries).manifestIn packagePath = none) :
    candidates (project entries) [".js"] "p" .root =
      [packagePath, .ofNames ["node_modules", "p.js"], indexPath] := by
  have appended : packagePath.appendToName ".js" = .ofNames ["node_modules", "p.js"] := by
    cbv
  have index : packagePath.child "index.js" = indexPath := by cbv
  simp [candidates, exportCandidates, pathCandidates, fileCandidates, directoryCandidates,
    mainCandidates, indexCandidates, packageIn_root, child_root, there, noManifest, appended, index]

end InstalledSample

section Example

open InstalledSample

theorem resolve_byName_project : ∃ links,
    (((resolve [".js"] "p" script) (project [])).run (.empty none)).1 =
      .ok (.resolved indexPath (some packagePath) links) := by
  have missing : Manifests.fetch (project []) (packagePath.child Manifest.fileName) = .ok none := by
    cbv
  have noManifest : Manifests.fetch (project []) (Path.root.child Manifest.fileName) =
      .ok none := by
    cbv
  have paths : (project []).allPaths =
      [.root, script, .ofNames ["node_modules"], packagePath, indexPath] := rfl
  have tree : (project []).IsTree := by
    refine ⟨⟨_, rfl⟩, ?_⟩
    rw [paths]
    simp only [Path.Proper, Path.IsName, Path.IsPart]
    decide
  have isReal : (project []).IsReal script := ⟨script, by cbv⟩
  have there : (project []).isDirectory packagePath = true := by cbv
  have tried := candidates_project there (by rw [Disk.manifestIn, missing])
  have first : (candidates (project []) [".js"] "p" .root).find? (project []).isFile =
      some indexPath := by
    rw [tried]
    cbv
  have hit : IsHit (project []) [".js"] "p" .root :=
    ⟨by decide, indexPath, List.mem_of_find?_eq_some first, List.find?_some first⟩
  have notBuiltin : Reference.isBuiltin "p" = false := by cbv
  have loads (directory : Path) (consults : Consults (project []) (Manifests.empty none).boundary
      [".js"] "p" (startOf script) directory) : (project []).LoadsManifest directory := by
    rcases consults_root consults with rfl | rfl
    · exact ⟨none, missing⟩
    · exact ⟨none, noManifest⟩
  obtain ⟨resolved, means, -, -⟩ := resolve_byName tree isReal notBuiltin (by decide)
    (Manifests.faithful_empty none _) loads
  obtain ⟨path, package, links, answered⟩ := resolved.mpr ⟨.root, by decide, hit⟩
  obtain ⟨directory, found, deepest, found', real, isPackage⟩ := means path package links answered
  obtain rfl : directory = .root := by
    obtain ⟨front, rest, split, -⟩ := deepest
    exact eq_root split
  cases first.symm.trans found'
  have index : (project []).realPath indexPath = .ok indexPath := by cbv
  cases index.symm.trans real
  have root : (project []).realPath packagePath = .ok packagePath := by cbv
  rcases isPackage with ⟨-, real', isRoot, rfl⟩ | ⟨absent, -⟩
  · rw [packageIn_root, root] at isRoot
    cases isRoot
    exact ⟨links, answered⟩
  · rw [packageIn_root, there] at absent
    cases absent

/-- A manifest that is a link to itself is not malformed, and yet it ends the resolution. -/
theorem resolve_selfLinked :
    (∃ directory ∈ (startOf script).ancestors,
      IsHit (project [("package.json", .link "package.json")]) [".js"] "p" directory) ∧
    (∀ directory path error, Consults (project [("package.json", .link "package.json")]) none
      [".js"] "p" (startOf script) directory →
        Manifests.fetch (project [("package.json", .link "package.json")])
          (directory.child Manifest.fileName) ≠ .error (.manifest path error)) ∧
    ¬ ∃ path package links, (((resolve [".js"] "p" script)
      (project [("package.json", .link "package.json")])).run (.empty none)).1 =
        .ok (.resolved path package links) := by
  generalize isProject : project [("package.json", .link "package.json")] = d
  have refused : Manifests.fetch d (packagePath.child Manifest.fileName) =
      .error (.disk "reading manifest" (packagePath.child Manifest.fileName) .tooManyLinks) := by
    rw [← isProject]
    cbv
  have there : d.isDirectory packagePath = true := by
    rw [← isProject]
    cbv
  have first : (candidates d [".js"] "p" .root).find? d.isFile = some indexPath := by
    have noManifest : d.manifestIn packagePath = none := by rw [Disk.manifestIn, refused]
    rw [← isProject] at there noManifest ⊢
    rw [candidates_project there noManifest]
    cbv
  have hit : IsHit d [".js"] "p" .root :=
    ⟨by decide, indexPath, List.mem_of_find?_eq_some first, List.find?_some first⟩
  have start : startOf script = .root := by decide
  refine ⟨⟨.root, by decide, hit⟩, fun directory path error consults malformed => ?_, ?_⟩
  · rw [start] at consults
    rcases consults_root consults with rfl | rfl
    · rw [refused] at malformed
      cases malformed
    · have unread : Manifests.fetch d (Path.root.child Manifest.fileName) = .ok none := by
        rw [← isProject]
        cbv
      rw [unread] at malformed
      cases malformed
  · have notBuiltin : Reference.isBuiltin "p" = false := by cbv
    have bare : Reference.isRelative "p" = false := by decide
    have above : (script.parent?.getD .root).ancestors = [.root] := by decide
    have packages : d.isDirectory (Path.root.child packagesName) = true := by
      rw [← isProject]
      cbv
    have unnamed : (Path.root.fileName? == some packagesName) = false := by decide
    have isPackage : (Path.root.child packagesName).child (Reference.packageName "p") =
        packagePath := packageIn_root
    have looked : (Manifests.empty none).lookUp (packagePath.child Manifest.fileName) = none := rfl
    rintro ⟨path, package, links, answered⟩
    unfold resolve at answered
    simp [notBuiltin, bare, installed, above, installedNext, packages, unnamed, installedIn,
      exported, isPackage, there, Manifests.run_load, looked, refused] at answered

end Example

end Resolution

end FunctionArchive
