import FunctionArchive.Proofs.Bundling
import FunctionArchive.Proofs.Graph.Buildable

/-!
# Scripts that make a single reference

The closure of a script that makes a single reference is decided by what the reference means: it is
built if the reference has an answer that leads no further (`Graph.build_single`), and it is not
built if the reference is missing (`Graph.build_lacks`). So it is with the bundle of the script.
-/

set_option autoImplicit false

namespace FunctionArchive

variable {policy : GraphPolicy} {d : Disk} {limit : Option Path} {script : Path}
  {reference : String}

namespace Graph

/-- The least closure of a script whose single reference leads to no other script and to no package
holds nothing but what the reference leads to. -/
theorem inClosure_single {piece : Piece} (refers : d.referencesIn script = [.static reference])
    (leaf : ∀ file package links, policy.Follows d limit ⟨reference, script⟩ file package links →
      Script.isScript file = false ∧ package = none)
    (inside : policy.InClosure d limit script piece) :
    piece = .file script ∨ piece = .request ⟨reference, script⟩ ∨
      ∃ file package links, policy.Follows d limit ⟨reference, script⟩ file package links ∧
        piece = .file file ∧ Script.isScript file = false := by
  induction inside with
  | start => exact .inl rfl
  | refers _ found ih =>
      rcases ih with isScript | isRequest | ⟨file, _, _, -, isFile, notScript⟩
      · cases isScript
        rw [refers, List.mem_singleton] at found
        cases found
        exact .inr (.inl rfl)
      · cases isRequest
      · cases isFile
        simp [Disk.referencesIn, notScript] at found
  | declares _ _ ih => rcases ih with isRoot | isRoot | ⟨_, _, _, -, isRoot, -⟩ <;> cases isRoot
  | leadsTo _ follows ih =>
      rcases ih with isFile | isRequest | ⟨_, _, _, -, isFile, -⟩
      · cases isFile
      · cases isRequest
        exact .inr (.inr ⟨_, _, _, follows, rfl, (leaf _ _ _ follows).1⟩)
      · cases isFile
  | enters _ follows ih =>
      rcases ih with isFile | isRequest | ⟨_, _, _, -, isFile, -⟩
      · cases isFile
      · cases isRequest
        cases (leaf _ _ _ follows).2
      · cases isFile

/-- The closure of a script can be built if its single reference can be answered and leads to no
other script and to no package. -/
theorem build_single (real : d.realPath script = .ok script) (scans : d.Scans script)
    (refers : d.referencesIn script = [.static reference])
    (answerable : policy.Answerable d limit ⟨reference, script⟩ false)
    (leaf : ∀ file package links, policy.Follows d limit ⟨reference, script⟩ file package links →
      Script.isScript file = false ∧ package = none) :
    ∃ g, (((build policy script) d).run (.empty limit)).1 = .ok g := by
  refine (build_ok_iff (Manifests.faithful_empty limit d)).mpr
    ⟨script, real, fun piece inside => ?_⟩
  rcases inClosure_single refers leaf inside with rfl | rfl | ⟨file, _, _, -, rfl, notScript⟩
  · refine ⟨scans, fun name found => ?_⟩
    rw [refers, List.mem_singleton] at found
    cases found
    exact answerable
  · trivial
  · refine ⟨fun isScript => ?_, fun name found => ?_⟩
    · cases notScript.symm.trans isScript
    · simp [Disk.referencesIn, notScript] at found

/-- The closure of a script with a reference that cannot be answered cannot be built. -/
theorem build_lacks (real : d.realPath script = .ok script)
    (refers : .static reference ∈ d.referencesIn script)
    (lacks : ¬ policy.Answerable d limit ⟨reference, script⟩ false) :
    ∃ fault, (((build policy script) d).run (.empty limit)).1 = .error fault := by
  cases built : (((build policy script) d).run (.empty limit)).1 with
  | error fault => exact ⟨fault, rfl⟩
  | ok g =>
      obtain ⟨start, found, inOrder⟩ :=
        (build_ok_iff (Manifests.faithful_empty limit d)).mp ⟨g, built⟩
      cases real.symm.trans found
      exact absurd ((inOrder (.file script) .start).references reference refers) lacks

end Graph

/-- A reference that nothing takes care of and that has no meaning cannot be answered. -/
theorem GraphPolicy.not_answerable {fault : Fault}
    (notBuiltin : Reference.isBuiltin reference = false)
    (notExternal : policy.external.covers reference = false)
    (notIgnored : policy.ignored.covers reference = false)
    (missing : (Resolution.resolve policy.extensions reference script).answer d limit =
      .error fault) :
    ¬ policy.Answerable d limit ⟨reference, script⟩ false := by
  intro answerable
  cases answerable with
  | builtin provided => cases notBuiltin.symm.trans provided
  | external covered => cases notExternal.symm.trans covered
  | ignored covered => cases notIgnored.symm.trans covered
  | resolved answered => cases missing.symm.trans answered
  | missing lenient => cases lenient

namespace Bundle

variable {s : Settings} {f : FunctionSource}

/-- A script is bundled if its single reference can be answered and leads to no other script and to
no package. -/
theorem withGraph_single (made : GraphPolicy.ofSettings s f.config = .ok policy)
    (real : d.realPath f.entry = .ok f.entry) (scans : d.Scans f.entry)
    (refers : d.referencesIn f.entry = [.static reference])
    (answerable : policy.Answerable d limit ⟨reference, f.entry⟩ false)
    (leaf : ∀ file package links, policy.Follows d limit ⟨reference, f.entry⟩ file package links →
      Script.isScript file = false ∧ package = none) :
    ∃ b, ((withStrategy s f .graph).run ⟨d, .empty limit, []⟩).1 = .ok b := by
  obtain ⟨g, built⟩ := Graph.build_single real scans refers answerable leaf
  obtain ⟨w', isMade⟩ := withGraph_ok (f := f) (w := ⟨d, .empty limit, []⟩) made
    (Prod.ext built rfl)
  exact ⟨_, congrArg Prod.fst isMade⟩

/-- A script is not bundled if it has a reference that cannot be answered. -/
theorem withGraph_lacks (made : GraphPolicy.ofSettings s f.config = .ok policy)
    (real : d.realPath f.entry = .ok f.entry) (refers : .static reference ∈ d.referencesIn f.entry)
    (lacks : ¬ policy.Answerable d limit ⟨reference, f.entry⟩ false) :
    ∃ fault, ((withStrategy s f .graph).run ⟨d, .empty limit, []⟩).1 = .error fault := by
  obtain ⟨fault, failed⟩ := Graph.build_lacks real refers lacks
  exact ⟨fault, withGraph_fails (w := ⟨d, .empty limit, []⟩) made failed⟩

end Bundle

end FunctionArchive
