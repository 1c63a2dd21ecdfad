import FunctionArchive.Proofs.Archive.Preservation
import FunctionArchive.Proofs.Graph.Account
import FunctionArchive.Proofs.Graph.Policy

/-!
# Leaving out more

A policy that leaves out more (`GraphPolicy.Narrows`) leads to a part of the closure: what it
reaches, enters and ships the other one does too, and nothing new stands in its way. So where the
other closure can be built this one can, and it holds no more (`Graph.build_narrower`). Entries that
are added to the lists of ignored modules or excluded files make such a policy.
-/

set_option autoImplicit false

namespace FunctionArchive

namespace GraphPolicy

/-- The second policy leaves out at least what the first leaves out, and is the same otherwise. -/
structure Narrows (policy policy' : GraphPolicy) : Prop where
  extensions : policy'.extensions = policy.extensions
  skips : ∀ reference, policy.Skips reference → policy'.Skips reference
  excludes : ∀ names, policy.exclusion.excludes ⟨false, names⟩ = true →
    policy'.exclusion.excludes ⟨false, names⟩ = true

variable {policy policy' : GraphPolicy} {d : Disk} {boundary : Option Path} {start root file : Path}
  {request : Request} {piece : Piece}

/-! ## What is reached -/

section Reached

variable (narrows : policy.Narrows policy')

include narrows

theorem Follows.widen {package : Option Path} {links : List Link}
    (follows : policy'.Follows d boundary request file package links) :
    policy.Follows d boundary request file package links := by
  obtain ⟨notBuiltin, notExternal, notIgnored, resolved⟩ := follows
  have looked : ¬ policy.Skips request.reference :=
    mt (narrows.skips _) (not_skips_iff.mpr ⟨notExternal, notIgnored⟩)
  obtain ⟨notExternal, notIgnored⟩ := not_skips_iff.mp looked
  exact ⟨notBuiltin, notExternal, notIgnored, narrows.extensions ▸ resolved⟩

theorem InClosure.widen (inside : policy'.InClosure d boundary start piece) :
    policy.InClosure d boundary start piece := by
  induction inside with
  | start => exact .start
  | refers _ found ih => exact .refers ih found
  | declares _ declared ih => exact .declares ih declared
  | leadsTo _ follows ih => exact .leadsTo ih (follows.widen narrows)
  | enters _ follows ih => exact .enters ih (follows.widen narrows)

theorem Crosses.widen {link : Link} (crosses : policy'.Crosses d boundary start link) :
    policy.Crosses d boundary start link := by
  obtain ⟨request, file, package, links, inside, follows, crossed⟩ := crosses
  exact ⟨request, file, package, links, inside.widen narrows, follows.widen narrows, crossed⟩

omit narrows in
theorem Lists.widen {exclusion exclusion' : Exclusion} {directory : Path}
    (excludes : ∀ names, exclusion.excludes ⟨false, names⟩ = true →
      exclusion'.excludes ⟨false, names⟩ = true)
    (listed : Lists d exclusion' directory file) : Lists d exclusion directory file := by
  obtain ⟨found, names, below, member, kept, isFile⟩ := listed
  refine ⟨found, names, below, member, Bool.eq_false_iff.mpr fun excluded => ?_, isFile⟩
  cases kept.symm.trans (excludes names excluded)

theorem Ships.widen (ships : policy'.Ships d root file) : policy.Ships d root file := by
  cases ships with
  | own rules listed =>
      obtain ⟨exclusion, rules'⟩ :=
        policy.exclusion.withPatterns_omitted (knownName d root) (knownVersion d root)
      refine .own rules' (listed.widen fun names excluded => ?_)
      rw [Exclusion.excludes_withPatterns rules'] at excluded
      exact (Exclusion.excludes_withPatterns rules).mpr (excluded.imp_left (narrows.excludes names))
  | beside needed there listed => exact .beside needed there (listed.widen narrows.excludes)

/-! ## What is in order -/

theorem Answerable.narrow {declared : Bool}
    (answerable : policy.Answerable d boundary request declared) :
    policy'.Answerable d boundary request declared := by
  have skipped (skips : policy.Skips request.reference) :
      policy'.Answerable d boundary request declared := by
    rcases narrows.skips _ skips with covered | covered
    · exact .external covered
    · exact .ignored covered
  cases answerable with
  | builtin provided => exact .builtin provided
  | external covered => exact skipped (.inl covered)
  | ignored covered => exact skipped (.inr covered)
  | resolved answered => exact .resolved (narrows.extensions.symm ▸ answered)
  | missing lenient answered => exact .missing lenient (narrows.extensions.symm ▸ answered)

theorem InOrder.narrow (inOrder : policy.InOrder d boundary piece) :
    policy'.InOrder d boundary piece := by
  cases piece with
  | file path =>
      obtain ⟨scans, references⟩ := inOrder
      exact ⟨scans, fun reference found => (references reference found).narrow narrows⟩
  | package root =>
      obtain ⟨loads, declarable, listable⟩ := inOrder
      exact ⟨loads, fun name declared => (declarable name declared).narrow narrows, listable⟩
  | request request => trivial

end Reached

end GraphPolicy

namespace Graph

variable {policy policy' : GraphPolicy} {d : Disk} {boundary : Option Path} {start entry : Path}
  {g g' : Graph}

/-- The second closure holds no more than the first, and tells the same of its files, unless a file
only comes with its package in the second. -/
structure Includes (g g' : Graph) : Prop where
  nodes : ∀ n' ∈ g'.nodes, ∃ n ∈ g.nodes, n' = n ∨ n' = { path := n.path }
  packages : g'.packages ⊆ g.packages
  links : g'.links ⊆ g.links

theorem includes_of_narrows (narrows : policy.Narrows policy')
    (closed : IsClosure policy d boundary start g) (closed' : IsClosure policy' d boundary start g')
    (describes : Describes policy d boundary start g)
    (describes' : Describes policy' d boundary start g') : g.Includes g' := by
  refine ⟨fun n' member => ?_, fun root there => ?_, fun link there => ?_⟩
  · have there : n'.path ∈ g.files := by
      rw [closed.files]
      rcases (closed'.files n'.path).mp (List.mem_map_of_mem member)
        with inside | ⟨root, inside, ships⟩
      · exact .inl (inside.widen narrows)
      · exact .inr ⟨root, inside.widen narrows, ships.widen narrows⟩
    obtain ⟨n, isThere, same⟩ := List.mem_map.mp there
    refine ⟨n, isThere, ?_⟩
    by_cases inside : policy'.InClosure d boundary start (.file n'.path)
    · have wide : policy.InClosure d boundary start (.file n.path) := same ▸ inside.widen narrows
      refine .inl ?_
      rw [describes.visited n isThere wide, describes'.visited n' member inside, same]
    · exact .inr (same ▸ describes'.unvisited n' member inside)
  · exact (closed.packages root).mpr (((closed'.packages root).mp there).widen narrows)
  · exact (closed.links link).mpr (((closed'.links link).mp there).widen narrows)

/-- A closure that can be built can be built by every policy that leaves out more, and holds no more
then. -/
theorem build_narrows (narrows : policy.Narrows policy') {known known' later : Manifests}
    (faithful : known.Faithful d) (faithful' : known'.Faithful d)
    (sameBoundary : known'.boundary = known.boundary)
    (built : ((build policy entry) d).run known = (.ok g, later)) :
    ∃ g', (((build policy' entry) d).run known').1 = .ok g' ∧ g.Includes g' := by
  obtain ⟨start, found, closed, inOrder⟩ := build_closure faithful built
  obtain ⟨start', found', describes⟩ :=
    (build_describes entry faithful rfl).value g (congrArg Prod.fst built)
  cases found.symm.trans found'
  obtain ⟨g', built'⟩ := (build_ok_iff faithful').mpr ⟨start, found, fun piece inside =>
    sameBoundary ▸ (inOrder piece ((sameBoundary ▸ inside).widen narrows)).narrow narrows⟩
  obtain ⟨start', found', closed'⟩ := (build_yields entry faithful' sameBoundary).value g' built'
  cases found.symm.trans found'
  obtain ⟨start', found', describes'⟩ :=
    (build_describes entry faithful' sameBoundary).value g' built'
  cases found.symm.trans found'
  exact ⟨g', built', includes_of_narrows narrows closed closed' describes describes'⟩

/-! ## Longer lists -/

/-- The second options leave out more, by entries that can be read. -/
structure LeavesOutMore (config config' : FunctionConfig) : Prop where
  external : config'.externalModules = config.externalModules
  ignored : config.ignoredModules ⊆ config'.ignoredModules
  excluded : config.excludeFiles ⊆ config'.excludeFiles
  readableModules : ∀ entry ∈ config'.ignoredModules, entry ∉ config.ignoredModules →
    ModuleFilter.isPattern entry = true → Glob.Readable entry
  readableFiles : ∀ text ∈ config'.excludeFiles, text ∉ config.excludeFiles → Glob.Readable text

theorem LeavesOutMore.narrows {s : Settings} {config config' : FunctionConfig}
    (more : LeavesOutMore config config') (made : GraphPolicy.ofSettings s config = .ok policy) :
    ∃ policy', GraphPolicy.ofSettings s config' = .ok policy' ∧ policy.Narrows policy' := by
  obtain ⟨isExternal, isIgnored, isExclusion, extensions⟩ := GraphPolicy.ofSettings_ok_iff.mp made
  obtain ⟨ignored, isIgnored'⟩ := ModuleFilter.exists_make fun entry member pattern =>
    if there : entry ∈ config.ignoredModules
    then ModuleFilter.readable_of_make isIgnored there pattern
    else more.readableModules entry member there pattern
  obtain ⟨exclusion, isExclusion'⟩ := Exclusion.exists_make s.sourceMaps fun text member =>
    if there : text ∈ config.excludeFiles
    then readable_of_readPatterns (Exclusion.make_ok isExclusion).1 there
    else more.readableFiles text member there
  refine ⟨⟨policy.external, ignored, exclusion, policy.extensions⟩,
    GraphPolicy.ofSettings_ok_iff.mpr
      ⟨more.external ▸ isExternal, isIgnored', isExclusion', extensions⟩,
    rfl, fun reference skips => ?_, fun names excluded => ?_⟩
  · exact skips.imp_right (ModuleFilter.covers_mono isIgnored isIgnored' more.ignored)
  · exact Exclusion.excludes_mono isExclusion isExclusion' more.excluded excluded

/-- Under options that leave out at least as much, a closure that can be built can be built too and
holds no more. It is so whenever entries that can be read are added to the ignored modules or to the
excluded files. -/
theorem build_narrower {s : Settings} {config : FunctionConfig} {known later : Manifests}
    (made : GraphPolicy.ofSettings s config = .ok policy) (faithful : known.Faithful d)
    (built : ((build policy entry) d).run known = (.ok g, later)) :
    (∀ config' policy', GraphPolicy.ofSettings s config' = .ok policy' →
      (∀ reference, policy.Skips reference → policy'.Skips reference) →
      (∀ names, policy.exclusion.excludes ⟨false, names⟩ = true →
        policy'.exclusion.excludes ⟨false, names⟩ = true) →
      ∀ known' : Manifests, known'.Faithful d → known'.boundary = known.boundary →
        ∃ g', (((build policy' entry) d).run known').1 = .ok g' ∧ g.Includes g') ∧
    ∀ config', LeavesOutMore config config' →
      ∃ policy', GraphPolicy.ofSettings s config' = .ok policy' ∧
        ∀ known' : Manifests, known'.Faithful d → known'.boundary = known.boundary →
          ∃ g', (((build policy' entry) d).run known').1 = .ok g' ∧ g.Includes g' := by
  have extensions := (GraphPolicy.ofSettings_ok_iff.mp made).extensions
  refine ⟨fun config' policy' made' skips excludes known' faithful' sameBoundary => ?_,
    fun config' more => ?_⟩
  · have extensions' := (GraphPolicy.ofSettings_ok_iff.mp made').extensions
    exact build_narrows ⟨extensions'.trans extensions.symm, skips, excludes⟩ faithful faithful'
      sameBoundary built
  · obtain ⟨policy', made', narrows⟩ := more.narrows made
    exact ⟨policy', made', fun known' faithful' sameBoundary =>
      build_narrows narrows faithful faithful' sameBoundary built⟩

/-- An application is also built without a package that is declared and without a file that no one
needs. -/
theorem build_narrower_sample :
    ∃ g later policy' g', ((build Sample.policy Sample.app) Sample.disk).run (.empty none) =
      (.ok g, later) ∧
      GraphPolicy.ofSettings { Packing.plainSettings with extensions := [".json"] }
        { ignoredModules := ["q"], excludeFiles := ["extra.*"] } = .ok policy' ∧
      (((build policy' Sample.app) Sample.disk).run (.empty none)).1 = .ok g' ∧ g.Includes g' := by
  obtain ⟨g, later, built⟩ := Sample.build_ok
  have faithful := Manifests.faithful_empty none Sample.disk
  have made : GraphPolicy.ofSettings { Packing.plainSettings with extensions := [".json"] } {} =
    .ok Sample.policy := rfl
  have more : LeavesOutMore {} { ignoredModules := ["q"], excludeFiles := ["extra.*"] } := by
    refine ⟨rfl, List.nil_subset _, List.nil_subset _, fun entry member _ pattern => ?_,
      fun text member _ => ?_⟩
    · cases List.mem_singleton.mp member
      cases pattern
    · cases List.mem_singleton.mp member
      exact ⟨_, rfl⟩
  obtain ⟨-, adding⟩ := build_narrower made faithful built
  obtain ⟨policy', made', narrower⟩ := adding _ more
  obtain ⟨g', built', includes⟩ := narrower _ faithful rfl
  exact ⟨g, later, policy', g', built, made', built', includes⟩

end Graph

end FunctionArchive
