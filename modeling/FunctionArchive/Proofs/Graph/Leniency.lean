import FunctionArchive.Proofs.Graph.Buildable

/-!
# What merely declared dependencies may do

A part of a closure is `Required` by the script itself: it is reached by static references alone.
When all of that is in order, whether the closure can be built depends on the rest of it, and on
nothing else (`Graph.build_ok_iff_beyond`): the files that only declared dependencies lead to have
to be visitable, their packages to have readable manifests, and every package that is entered,
required or not, has to have declared dependencies that can be followed or are missing, and a
directory that can be listed.

So leniency ends with the declaration. A dependency that is declared and not installed is passed
over, but one that is installed and broken stops the build, and so does a link that leads nowhere
inside a package (`build_danglingLink`).
-/

set_option autoImplicit false

namespace FunctionArchive

namespace GraphPolicy

variable (policy : GraphPolicy) (d : Disk) (boundary : Option Path)

/-- The part of the closure that the script requires by static references alone. Dependencies that
packages declare are not gone into. -/
inductive Required (start : Path) : Piece → Prop
  | start : Required start (.file start)
  | refers {file : Path} {reference : String} (inside : Required start (.file file))
      (found : .static reference ∈ d.referencesIn file) :
      Required start (.request ⟨reference, file⟩)
  | leadsTo {request : Request} {file : Path} {package : Option Path} {links : List Link}
      (inside : Required start (.request request))
      (follows : policy.Follows d boundary request file package links) :
      Required start (.file file)
  | enters {request : Request} {file root : Path} {links : List Link}
      (inside : Required start (.request request))
      (follows : policy.Follows d boundary request file (some root) links) :
      Required start (.package root)

variable {policy d boundary} {start : Path}

theorem Required.inClosure {piece : Piece} (required : policy.Required d boundary start piece) :
    policy.InClosure d boundary start piece := by
  induction required with
  | start => exact .start
  | refers _ found ih => exact .refers ih found
  | leadsTo _ follows ih => exact .leadsTo ih follows
  | enters _ follows ih => exact .enters ih follows

variable (policy d boundary)

/-- What else has to be in order for a closure to be built, once everything is that the script
requires: what only declared dependencies lead to, and the entered packages as a whole. -/
structure OrderlyBeyond (start : Path) : Prop where
  files : ∀ file, policy.InClosure d boundary start (.file file) →
    ¬ policy.Required d boundary start (.file file) → policy.Visitable d boundary file
  manifests : ∀ root, policy.InClosure d boundary start (.package root) →
    ¬ policy.Required d boundary start (.package root) → d.LoadsManifest root
  declared : ∀ root, policy.InClosure d boundary start (.package root) →
    policy.Declarable d boundary root
  directories : ∀ root, policy.InClosure d boundary start (.package root) → Listable d root

end GraphPolicy

namespace Graph

section Beyond

variable {policy : GraphPolicy} {d : Disk} {entry start : Path} {known : Manifests}

/-- When everything is in order that a script requires, its closure can be built exactly when the
rest of it is in order too. -/
theorem build_ok_iff_beyond (faithful : known.Faithful d) (found : d.realPath entry = .ok start)
    (files : ∀ file, policy.Required d known.boundary start (.file file) →
      policy.Visitable d known.boundary file)
    (manifests : ∀ root, policy.Required d known.boundary start (.package root) →
      d.LoadsManifest root) :
    (∃ g, (((build policy entry) d).run known).1 = .ok g) ↔
      policy.OrderlyBeyond d known.boundary start := by
  rw [build_ok_iff faithful]
  constructor
  · rintro ⟨start', found', inOrder⟩
    cases found.symm.trans found'
    exact ⟨fun file inside _ => inOrder _ inside, fun root inside _ => (inOrder _ inside).loads,
      fun root inside => (inOrder _ inside).declarable,
      fun root inside => (inOrder _ inside).listable⟩
  · intro beyond
    refine ⟨start, found, fun piece inside => ?_⟩
    cases piece with
    | request request => trivial
    | file file =>
        by_cases required : policy.Required d known.boundary start (.file file)
        · exact files file required
        · exact beyond.files file inside required
    | package root =>
        refine ⟨?_, beyond.declared root inside, beyond.directories root inside⟩
        by_cases required : policy.Required d known.boundary start (.package root)
        · exact manifests root required
        · exact beyond.manifests root inside required

open Sample in
/-- An application whose packages are in order is built. -/
theorem build_ok_iff_beyond_sample :
    ∃ g, (((build Sample.policy Sample.app) Sample.disk).run (.empty none)).1 = .ok g := by
  have faithful := Manifests.faithful_empty none Sample.disk
  refine (build_ok_iff_beyond faithful realPath_app (fun file required => ?_)
    fun root required => ?_).mpr ?_
  · exact inOrder required.inClosure
  · exact GraphPolicy.Enterable.loads (inOrder required.inClosure)
  · exact ⟨fun _ inside _ => inOrder inside, fun _ inside _ => (inOrder inside).loads,
      fun _ inside => (inOrder inside).declarable, fun _ inside => (inOrder inside).listable⟩

end Beyond

/-! ## A link that leads nowhere -/

section DanglingLink

open Sample (leaf appSource app package index)

/-- A script that requires a package with a link that leads nowhere. -/
def danglingLink : Disk where
  root := .directory
    [("a.js", leaf appSource), ("node_modules", .directory
      [("p", .directory [("gone", .link "nowhere"), ("index.json", leaf [])])])]
  current := .root
  now := 0

theorem read_danglingLink : danglingLink.read app = .ok appSource := by cbv

theorem fetch_danglingLink :
    Manifests.fetch danglingLink ((package "p").child Manifest.fileName) = .ok none := by
  have missing : danglingLink.read ((package "p").child Manifest.fileName) = .error .notFound := by
    cbv
  rw [Manifests.fetch, missing]

theorem resolve_danglingLink : (Resolution.resolve [".json"] "p" app).answer danglingLink none =
    .ok (.resolved (index "p") (some (package "p")) []) := by
  have start : Resolution.startOf app = .root := by decide
  have found : (Resolution.installed [".json"] "p" .root).answer danglingLink none =
      .ok (some ⟨index "p", some (package "p")⟩) :=
    Sample.installed_root
      (Sample.installedIn_root fetch_danglingLink rfl rfl (by decide) (by cbv)
        (by decide) (by cbv) (by cbv) (by cbv))
      (by decide) (by cbv) (by cbv) (by cbv) (by cbv)
  have real : danglingLink.realPath (index "p") = .ok (index "p") := by cbv
  have crossed : (Resolution.linksTo .root (index "p")).answer danglingLink none = .ok [] := by cbv
  exact Resolution.resolve_installed (by decide) (by cbv) (start ▸ found) real
    (start ▸ crossed)

theorem visitable_danglingLink : Sample.policy.Visitable danglingLink none app := by
  refine ⟨fun _ => ⟨appSource, read_danglingLink, .inl ⟨_, Sample.scan_app⟩⟩, ?_⟩
  intro reference found
  simp only [Sample.referencesIn_app read_danglingLink, List.mem_singleton,
    Script.Reference.static.injEq] at found
  subst found
  exact .resolved resolve_danglingLink

/-- What the script requires. -/
theorem required_danglingLink {piece : Piece}
    (required : Sample.policy.Required danglingLink none app piece) :
    piece ∈ [.file app, .file (index "p"), .package (package "p"), .request ⟨"p", app⟩] := by
  induction required with
  | start => simp
  | @refers file reference _ found ih =>
      have files : file = app ∨ file = index "p" := by simpa using ih
      rcases files with rfl | rfl
      · simp only [Sample.referencesIn_app read_danglingLink, List.mem_singleton,
          Script.Reference.static.injEq] at found
        subst found
        simp
      · simp [Sample.referencesIn_index] at found
  | leadsTo _ follows ih =>
      obtain rfl : _ = (⟨"p", app⟩ : Request) := by simpa using ih
      cases resolve_danglingLink.symm.trans follows.resolved
      simp
  | enters _ follows ih =>
      obtain rfl : _ = (⟨"p", app⟩ : Request) := by simpa using ih
      cases resolve_danglingLink.symm.trans follows.resolved
      simp

theorem follows_danglingLink :
    Sample.policy.Follows danglingLink none ⟨"p", app⟩ (index "p") (some (package "p")) [] :=
  ⟨by decide, by cbv, by cbv, resolve_danglingLink⟩

/-- All that the script requires is in order, but the package that it enters has a link besides
that leads nowhere, and the closure cannot be built. -/
theorem build_danglingLink :
    (∀ file, Sample.policy.Required danglingLink none app (.file file) →
      Sample.policy.Visitable danglingLink none file) ∧
    (∀ root, Sample.policy.Required danglingLink none app (.package root) →
      danglingLink.LoadsManifest root) ∧
    ¬ ∃ g, (((build Sample.policy app) danglingLink).run (.empty none)).1 = .ok g := by
  refine ⟨fun file required => ?_, fun root required => ?_, ?_⟩
  · have there : file = app ∨ file = index "p" := by simpa using required_danglingLink required
    rcases there with rfl | rfl
    · exact visitable_danglingLink
    · exact Sample.visitable_index danglingLink "p"
  · obtain rfl : root = package "p" := by simpa using required_danglingLink required
    exact ⟨none, fetch_danglingLink⟩
  · rw [build_ok_iff (Manifests.faithful_empty none danglingLink)]
    rintro ⟨start, found, inOrder⟩
    have real : danglingLink.realPath app = .ok app := by cbv
    cases real.symm.trans found
    have reached : .static "p" ∈ danglingLink.referencesIn app := by
      simp [Sample.referencesIn_app read_danglingLink]
    have entered := inOrder _ (.enters (.refers .start reached) follows_danglingLink)
    obtain ⟨found, listed⟩ := entered.listable.own
    have refused : danglingLink.filesBelow (· == Resolution.packagesName) (package "p") =
        .error (.atEntry (.ofNames ["node_modules", "p", "gone"]) .notFound) := by cbv
    cases refused.symm.trans listed

end DanglingLink

end Graph

end FunctionArchive
