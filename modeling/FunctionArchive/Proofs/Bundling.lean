import FunctionArchive.Bundling
import FunctionArchive.Proofs.Disk.Moves

/-!
# Bundling changes nothing

Bundling only asks the file system, but for an engine that works in a directory of its own. An
engine that keeps to that directory leaves nothing behind, since the directory is removed afterwards
(`bundleScript_ends`), so all of bundling leaves the file system as it was (`make_leaves`).
-/

set_option autoImplicit false

namespace FunctionArchive

open Work (Ends)

variable {α β : Type} {d : Disk}

/-! ## Actions that leave the disk alone -/

/-- An action that leaves the disk as it is, whether it succeeds or not. -/
def Action.Leaves (d : Disk) (act : Action α) : Prop :=
  Ends (fun w => w.disk = d) act (fun _ w => w.disk = d) (fun _ w => w.disk = d)

namespace Action.Leaves

variable {act : Action α} {f : α → Action β}

theorem pure (a : α) : Leaves d (Pure.pure a) := Ends.pure fun _ => id

theorem throw (fault : Fault) : Leaves d (MonadExcept.throw fault : Action α) :=
  fun _ same => Work.ended_error.mpr same

theorem bind (first : Leaves d act) (next : ∀ a, Leaves d (f a)) : Leaves d (act >>= f) :=
  Ends.bind first next

theorem map {g : α → β} (leaves : Leaves d act) : Leaves d (g <$> act) := by
  rw [map_eq_pure_bind]
  exact leaves.bind fun a => .pure _

theorem ofOutcome (outcome : Outcome α) : Leaves d (Action.ofOutcome outcome) := by
  cases outcome with
  | ok a => exact .pure a
  | error fault => exact .throw fault

theorem query (q : Query α) : Leaves d (Action.query q) := by
  intro w same
  unfold Action.query
  rw [Work.run_bind, Work.run_get]
  dsimp only
  rcases (q w.disk).run w.manifests with ⟨outcome, manifests⟩
  rw [Work.run_bind]
  exact ofOutcome outcome { w with manifests } same

theorem note (level : Level) (message : String) : Leaves d (Action.note level message) :=
  fun _ same => Work.ended_ok.mpr same

theorem task {t : Task α} (ends : Ends (· = d) t (fun _ d' => d' = d) (fun _ d' => d' = d)) :
    Leaves d (Action.task t) := by
  intro w same
  unfold Action.task
  rw [Work.run_bind, Work.run_get]
  dsimp only
  have ended := ends w.disk same
  generalize t.run w.disk = result at ended ⊢
  obtain ⟨outcome, d'⟩ := result
  rw [Work.run_bind]
  refine ofOutcome outcome { w with disk := d' } ?_
  cases outcome with
  | ok a => exact ended.well a rfl
  | error fault => exact ended.badly fault rfl

theorem tryCatch {handle : Fault → Action α} (first : Leaves d act)
    (next : ∀ fault, Leaves d (handle fault)) : Leaves d (MonadExcept.tryCatch act handle) := by
  intro w same
  have ended := first w same
  rw [Work.run_tryCatch]
  generalize act.run w = result at ended ⊢
  obtain ⟨outcome, w'⟩ := result
  cases outcome with
  | ok a => exact ended
  | error fault => exact next fault w' (ended.badly fault rfl)

/-- Doing something for each of some items. -/
theorem forIn {ι : Type} (items : List ι) {g : ι → Action PUnit}
    (each : ∀ item, Leaves d (g item)) :
    Leaves d (ForIn.forIn items PUnit.unit fun item _ => do
      g item
      return ForInStep.yield PUnit.unit) := by
  induction items with
  | nil =>
      rw [List.forIn_nil]
      exact .pure _
  | cons item rest ih =>
      rw [List.forIn_cons]
      simp only [bind_assoc, pure_bind]
      exact (each item).bind fun _ => ih

end Action.Leaves

/-! ## Engines -/

/-- An engine that changes nothing but what is below the directory that it is given. -/
def Engine.Contained (e : Engine) : Prop :=
  ∀ (r : EngineRequest) (names : List String) (d d' : Disk) (outcome : Outcome EngineResult),
    r.directory = .ofNames names → (∃ entries, d.root.at? names = some (.directory entries)) →
      (e.bundle r).run d = (outcome, d') →
        d'.put names none = d.put names none ∧
          ∃ entries, d'.root.at? names = some (.directory entries)

/-- The root is entered if it is a directory. -/
theorem Disk.enters_root {entries : List (String × Disk.Node)}
    (directory : d.root = .directory entries) : d.Enters .root [] :=
  ⟨entries, .arrive (by rw [directory]; rfl)⟩

theorem Disk.Enters.root {dir : List String} (enters : d.Enters .root dir) : dir = [] := by
  obtain ⟨entries, leads⟩ := enters
  cases leads with
  | arrive => rfl

theorem Task.run_change (context : String) (path : Path) (g : Disk → Except Disk.Fault Disk)
    (d : Disk) :
    (Task.change context path g).run d =
      match g d with
      | .ok d' => (.ok (), d')
      | .error fault => (.error (.disk context path fault), d) := by
  rw [Task.change, Work.run_bind, Work.run_get]
  dsimp only
  cases g d <;> rfl

theorem Task.run_ask (context : String) (path : Path) (g : Disk → Except Disk.Fault α)
    (d : Disk) :
    (Task.ask context path g).run d = ((g d).mapError (.disk context path), d) := by
  rw [Task.ask, Work.run_bind, Work.run_get]
  dsimp only
  cases g d <;> rfl

/-- An answer is one that the file system gives. -/
theorem Task.ask_ends (context : String) (path : Path) (g : Disk → Except Disk.Fault α) :
    Ends (fun _ => True) (Task.ask context path g) (fun a d => g d = .ok a) (fun _ _ => True) := by
  intro d _
  rw [run_ask]
  cases answer : g d with
  | ok a => exact Work.ended_ok.mpr answer
  | error fault => exact Work.ended_error.mpr trivial

theorem Task.run_attempt (g : Disk → Except Disk.Fault Disk) (d : Disk) :
    (Task.attempt g).run d = (.ok (), (g d).toOption.getD d) := rfl

namespace Engine

/-- A disk with a directory for an engine; without it the disk is as it was. -/
structure Staged (d d' : Disk) : Prop where
  rest : d'.put ["staging"] none = d
  there : ∃ entries, d'.root.at? ["staging"] = some (.directory entries)

theorem staging_eq : stagingDirectory = Path.root.child "staging" := by decide

/-- The directory of an engine is removed with all that the engine left in it. -/
theorem Staged.removed {d' : Disk} (staged : Staged d d') :
    (d'.removeDirectory stagingDirectory).toOption.getD d' = d := by
  obtain ⟨entries, there⟩ := staged.there
  obtain ⟨outer, root⟩ : ∃ outer, d'.root = .directory outer := by
    cases root : d'.root with
    | directory outer => exact ⟨outer, rfl⟩
    | file f => simp [root, Disk.Node.at?, Disk.Node.child?] at there
    | link target => simp [root, Disk.Node.at?, Disk.Node.child?] at there
  have removed := Disk.removeDirectory_child (Disk.enters_root root) (by decide) there
  rw [staging_eq, removed]
  exact staged.rest

/-- What an engine does leaves no trace, since it is done in a directory that is removed. -/
theorem bundleScript_ends {e : Engine} (contained : e.Contained) (entry : Path)
    (config : FunctionConfig) :
    Ends (· = d) (e.bundleScript entry config) (fun _ d' => d' = d) (fun _ d' => d' = d) := by
  have created : Ends (· = d)
      (Task.change "creating engine staging directory" .root (·.createDirectory stagingDirectory))
      (fun _ => Staged d) (fun _ d' => d' = d) := by
    rintro d rfl
    rw [Task.run_change]
    cases made : d.createDirectory stagingDirectory with
    | error fault => exact Work.ended_error.mpr rfl
    | ok d' =>
        rw [staging_eq] at made
        obtain ⟨dir, enters, absent, rfl⟩ := Disk.of_create_child (by decide) made
        obtain rfl := enters.root
        exact Work.ended_ok.mpr ⟨Disk.put_remove absent _, [], Disk.at?_put enters "staging" _⟩
  have bundled (r : EngineRequest) (given : r.directory = stagingDirectory) :
      Ends (Staged d) (e.bundle r) (fun _ => Staged d) (fun _ => Staged d) := by
    intro d₁ staged
    rcases run : (e.bundle r).run d₁ with ⟨outcome, d₂⟩
    obtain ⟨rest, there⟩ := contained r ["staging"] d₁ d₂ outcome given staged.there run
    have kept : Staged d d₂ := ⟨rest.trans staged.rest, there⟩
    exact ⟨fun _ _ => kept, fun _ _ => kept⟩
  have asked (path : Path) : Ends (Staged d) (Task.ask "reading bundled output" path (·.read path))
      (fun _ => Staged d) (fun _ => Staged d) := by
    intro d₁ staged
    rw [Task.run_ask]
    exact ⟨fun _ _ => staged, fun _ _ => staged⟩
  have worked : Ends (Staged d)
      (do
        let result ← e.bundle
          ⟨entry, config.externalModules, config.ignoredModules, stagingDirectory⟩
        let bundled ← Task.ask "reading bundled output" result.file (·.read result.file)
        return (bundled, result))
      (fun _ => Staged d) (fun _ => Staged d) := by
    refine .bind (bundled _ rfl) fun result => ?_
    exact .bind (asked result.file) fun content => .pure fun _ => id
  refine created.bind fun _ => ?_
  exact worked.afterwards (Task.run_attempt _) (fun _ _ => Staged.removed) fun _ _ =>
    Staged.removed

/-- What a script was bundled to is what the engine made of the request for it. -/
theorem bundleScript_result {e : Engine} {holds : EngineResult → Prop} {entry : Path}
    {config : FunctionConfig}
    (makes : Ends (fun _ => True)
      (e.bundle ⟨entry, config.externalModules, config.ignoredModules, stagingDirectory⟩)
      (fun result _ => holds result) (fun _ _ => True)) :
    Ends (fun _ => True) (e.bundleScript entry config) (fun made _ => holds made.2)
      (fun _ _ => True) := by
  refine .bind .anything fun _ => ?_
  refine Ends.afterwards (Task.run_attempt _) (.bind makes fun result => ?_)
    (fun _ _ made => made) fun _ _ _ => trivial
  refine .weaken (.given fun made => ?_) fun _ made => ⟨trivial, made⟩
  exact .bind .anything fun content => .pure fun _ _ => made

end Engine

/-! ## Bundling -/

namespace Bundle

open Action (Leaves)

variable {s : Settings} {f : FunctionSource}

theorem withStrategy_leaves (contained : s.engine.Contained) (strategy : Strategy) :
    Leaves d (withStrategy s f strategy) := by
  cases strategy with
  | passthrough => exact .pure _
  | binary => exact .pure _
  | graph =>
      refine .bind (.ofOutcome _) fun policy => ?_
      exact .bind (.query _) fun g => .pure _
  | engine =>
      refine .bind (.task (Engine.bundleScript_ends contained f.entry f.config)) fun result => ?_
      obtain ⟨bundled, result⟩ := result
      refine .bind (.ofOutcome _) fun external => ?_
      refine .bind (.ofOutcome _) fun ignored => ?_
      dsimp only
      split
      · refine .bind (.pure _) fun packages => ?_
        exact .bind (.query _) fun entry => .pure _
      · refine .bind (.ofOutcome _) fun policy => ?_
        refine .bind (.map (.query _)) fun packages => ?_
        exact .bind (.query _) fun entry => .pure _

theorem recover_leaves (contained : s.engine.Contained) (failure : Fault) (fallback : Strategy) :
    Leaves d (recover s f failure fallback) := by
  refine .bind (.note _ _) fun _ => ?_
  refine .tryCatch (.bind (withStrategy_leaves contained fallback) fun b => .pure _) fun _ => ?_
  exact .throw failure

theorem withSelection_leaves (contained : s.engine.Contained) (selection : Selection) :
    Leaves d (withSelection s f selection) := by
  unfold withSelection
  split
  · exact withStrategy_leaves contained _
  · exact .tryCatch (withStrategy_leaves contained _) fun failure =>
      recover_leaves contained failure _

/-- Bundling a function leaves the file system as it is. -/
theorem make_leaves (contained : s.engine.Contained) : Leaves d (make s f) := by
  refine .bind (.query _) fun selection => ?_
  refine .bind (withSelection_leaves contained selection) fun b => ?_
  exact .bind (.forIn b.warnings fun warning => .note _ _) fun _ => .pure b

/-! ## Runs -/

variable {b : Bundle}

/-- Noting the warnings of a bundle does not fail. -/
theorem run_notes (warnings : List Warning) (text : Warning → String) (w : World) :
    ∃ w', (ForIn.forIn warnings PUnit.unit fun warning _ => do
      Action.note .warning (text warning)
      return ForInStep.yield PUnit.unit : Action PUnit).run w = (.ok ⟨⟩, w') ∧
        w'.disk = w.disk := by
  induction warnings generalizing w with
  | nil => exact ⟨w, rfl, rfl⟩
  | cons warning rest ih =>
      rw [List.forIn_cons]
      simp only [bind_assoc, pure_bind]
      exact ih _

/-- A pinned strategy makes the bundle. -/
theorem make_ok {strategy : Strategy} {w w₁ : World}
    (pinned : Selection.fixed? f = some ⟨strategy, none⟩)
    (made : (withStrategy s f strategy).run w = (.ok b, w₁)) :
    ∃ w', (make s f).run w = (.ok b, w') := by
  have chosen : Selection.choose f = pure ⟨strategy, none⟩ := by
    rw [Selection.choose, pinned]
  obtain ⟨w', noted, -⟩ := run_notes b.warnings (fun warning => s!"{f.name}: {warning.message}") w₁
  refine ⟨w', ?_⟩
  unfold make
  rw [chosen, Work.run_bind]
  show (match (withStrategy s f strategy >>= _ : Action Bundle).run w with | r => r) = _
  rw [Work.run_bind, made]
  dsimp only
  rw [Work.run_bind]
  rw [noted]
  rfl

/-- The closure of a script makes the bundle. -/
theorem withGraph_ok {policy : GraphPolicy} {g : Graph} {known : Manifests} {w : World}
    (read : GraphPolicy.ofSettings s f.config = .ok policy)
    (built : ((Graph.build policy f.entry) w.disk).run w.manifests = (.ok g, known)) :
    ∃ w', (withStrategy s f .graph).run w = (.ok (ofGraph f.runtime g), w') := by
  refine ⟨{ w with manifests := known }, ?_⟩
  unfold withStrategy withGraph
  rw [read]
  show (Action.query (Graph.build policy f.entry) >>= _ : Action Bundle).run w = _
  unfold Action.query
  rw [Work.run_bind, Work.run_bind, Work.run_get]
  dsimp only
  rw [built]
  rfl

/-- A closure that cannot be built makes no bundle. -/
theorem withGraph_fails {policy : GraphPolicy} {fault : Fault} {w : World}
    (read : GraphPolicy.ofSettings s f.config = .ok policy)
    (failed : (((Graph.build policy f.entry) w.disk).run w.manifests).1 = .error fault) :
    ((withStrategy s f .graph).run w).1 = .error fault := by
  unfold withStrategy withGraph
  rw [read]
  show ((Action.query (Graph.build policy f.entry) >>= _ : Action Bundle).run w).1 = _
  unfold Action.query
  rw [Work.run_bind, Work.run_bind, Work.run_get]
  dsimp only
  generalize ((Graph.build policy f.entry) w.disk).run w.manifests = result at failed
  obtain ⟨outcome, known⟩ := result
  cases failed
  rfl

end Bundle

end FunctionArchive
