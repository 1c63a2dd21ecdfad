import FunctionArchive.Proofs.Bundling
import FunctionArchive.Proofs.Entries
import FunctionArchive.Proofs.Graph.Steady
import FunctionArchive.Proofs.World

/-!
# Attempts at a bundle

A strategy may fail after it has asked a lot of questions, and whoever comes next starts from the
manifests that are known by then. As these are all true, a closure that is built from them differs
from the one that is built from nothing in one respect only: a warning may name a manifest by
another spelling of its path. Bundling a function is run here step by step as well: it chooses,
tries, tries once more, and ends.
-/

set_option autoImplicit false

namespace FunctionArchive

open Query (SameOutcome Yields)
open FunctionArchive.Action (Gives)

variable {α : Type} {d : Disk} {limit : Option Path} {s : Settings} {f : FunctionSource}
  {w w' : World}

/-! ## Runs of actions -/

theorem Action.run_query (q : Query α) (w : World) :
    (Action.query q).run w =
      (((q w.disk).run w.manifests).1,
        { w with manifests := ((q w.disk).run w.manifests).2 }) := by
  unfold Action.query
  rw [Work.run_bind, Work.run_get]
  dsimp only
  rcases (q w.disk).run w.manifests with ⟨outcome | outcome, manifests⟩ <;> rfl

theorem Action.run_task (task : Task α) (w : World) :
    (Action.task task).run w =
      ((task.run w.disk).1, { w with disk := (task.run w.disk).2 }) := by
  unfold Action.task
  rw [Work.run_bind, Work.run_get]
  dsimp only
  rcases task.run w.disk with ⟨outcome | outcome, disk⟩ <;> rfl

theorem Action.run_map {β : Type} (f : α → β) (act : Action α) (w : World) :
    (f <$> act).run w =
      match act.run w with
      | (.ok a, w') => (.ok (f a), w')
      | (.error fault, w') => (.error fault, w') := by
  rw [map_eq_pure_bind, Work.run_bind]
  rcases act.run w with ⟨fault | a, w'⟩ <;> rfl

/-- The same bundle with warnings that may be spelled in another way. -/
inductive Bundle.Respells (b : Bundle) : Bundle → Prop
  | intro {warnings : List Warning}
    (respelled : List.Forall₂ Warning.Respells b.warnings warnings) :
      Respells b { b with warnings }

namespace FunctionSource

/-- The function with this strategy pinned. -/
def pin (f : FunctionSource) (choice : StrategyChoice) : FunctionSource :=
  { f with config := { f.config with strategy := some choice } }

/-- A script that is to be bundled by the engine, and by its closure if the engine fails. -/
def Hedges (f : FunctionSource) : Prop :=
  f.runtime = .script ∧ f.config.strategy = some .engineWithFallback

end FunctionSource

namespace Bundle

/-! ## What the strategies leave to each other -/

theorem ofGraph_respells (runtime : Runtime) {g g' : Graph} (respells : g.Respells g') :
    (ofGraph runtime g).Respells (ofGraph runtime g') := by
  obtain ⟨warnings⟩ := respells
  exact .intro warnings

/-- The closure of a script is the same in any world that knows nothing but the truth. -/
theorem withGraph_alike (knows : w.Knows d limit) (knows' : w'.Knows d limit) :
    SameOutcome Respells ((withGraph s f).run w).1 ((withGraph s f).run w').1 := by
  unfold withGraph
  cases made : GraphPolicy.ofSettings s f.config with
  | error fault => exact .error fault
  | ok policy =>
      have sameEnd := Graph.build_alike policy d f.entry knows.faithful knows'.faithful
        (knows'.boundary.trans knows.boundary.symm)
      show SameOutcome Respells
        ((Action.query (Graph.build policy f.entry) >>= fun g =>
          pure (ofGraph f.runtime g)).run w).1
        ((Action.query (Graph.build policy f.entry) >>= fun g =>
          pure (ofGraph f.runtime g)).run w').1
      rw [Work.run_bind, Work.run_bind, Action.run_query, Action.run_query, knows.disk, knows'.disk]
      have outcome := sameEnd.outcome
      generalize ((Graph.build policy f.entry) d).run w.manifests = built at outcome
      generalize ((Graph.build policy f.entry) d).run w'.manifests = built' at outcome
      obtain ⟨result, known⟩ := built
      obtain ⟨result', known'⟩ := built'
      cases outcome with
      | error fault => exact .error fault
      | ok respells => exact .ok (ofGraph_respells _ respells)

/-- Whatever a strategy did and wherever it failed, the world knows nothing but the truth. -/
theorem withStrategy_gives (contained : s.engine.Contained) (strategy : Strategy) :
    Gives d limit (withStrategy s f strategy) fun b => b.recovered = none := by
  cases strategy with
  | passthrough => exact .pure rfl
  | binary => exact .pure rfl
  | graph =>
      refine .bind (.ofOutcome fun _ _ => trivial) fun policy _ => ?_
      exact .bind (.query (Graph.build_alike policy d f.entry).yields) fun g _ => .pure rfl
  | engine =>
      have task : Gives d limit (Action.task (s.engine.bundleScript f.entry f.config))
          fun _ => True :=
        .task ((Engine.bundleScript_ends contained f.entry f.config).mono
          (fun _ _ same => ⟨same, trivial⟩) fun _ _ => id)
      refine .bind task fun made _ => ?_
      obtain ⟨bundled, result⟩ := made
      refine .bind (.ofOutcome fun _ _ => trivial) fun external _ => ?_
      refine .bind (.ofOutcome fun _ _ => trivial) fun ignored _ => ?_
      have closing (packages : Option Graph) : Gives d limit
          (do
            let entry ← Action.query (Resolution.realPath f.entry)
            return ofEngine f.runtime (entry.withExtension "js") bundled result.warnings packages)
          fun b => b.recovered = none :=
        .bind (.query (Resolution.realPath_yields f.entry)) fun entry _ => .pure rfl
      dsimp only
      split
      · have idle : Gives d limit (pure none : Action (Option Graph)) fun _ => True := .pure trivial
        exact idle.bind fun packages _ => closing packages
      · refine .bind (.ofOutcome fun _ _ => trivial) fun policy _ => ?_
        have built : Gives d limit
            (some <$> Action.query (Graph.buildPackages policy
              (toShip external ignored result.externalModules) f.entry)) fun _ => True :=
          .map (.query ((Graph.buildPackages_alike policy d _ f.entry).yields.mono
            fun _ _ => trivial))
        exact built.bind fun packages _ => closing packages

/-! ## Turning to a second strategy -/

/-- What bundling gives is what the chosen strategies give. -/
theorem run_make (s : Settings) (f : FunctionSource) (w : World) :
    ((make s f).run w).1 =
      match (Action.query (Selection.choose f)).run w with
      | (.ok selection, w') => ((withSelection s f selection).run w').1
      | (.error fault, _) => .error fault := by
  unfold make
  rw [Work.run_bind]
  generalize (Action.query (Selection.choose f)).run w = chosen
  obtain ⟨selection | selection, w'⟩ := chosen
  · rfl
  · dsimp only
    rw [Work.run_bind]
    generalize (withSelection s f selection).run w' = bundled
    obtain ⟨b | b, w''⟩ := bundled
    · rfl
    · obtain ⟨last, noted, -⟩ :=
        run_notes b.warnings (fun warning => s!"{f.name}: {warning.message}") w''
      dsimp only
      rw [Work.run_bind, noted]
      rfl

/-- A pinned selection is chosen without a look at anything. -/
theorem run_make_fixed {selection : Selection} (fixed : Selection.fixed? f = some selection)
    (w : World) : ((make s f).run w).1 = ((withSelection s f selection).run w).1 := by
  have chosen : Selection.choose f = pure selection := by rw [Selection.choose, fixed]
  rw [run_make, chosen]
  rfl

/-- Notes that a second strategy is tried. -/
def noteRetry (f : FunctionSource) (failure : Fault) (fallback : Strategy) : Action Unit :=
  Action.note .warning
    s!"'{f.name}' failed to bundle ({failure.message}); retrying with the {fallback.name} strategy"

/-- The note does not matter to what follows. -/
theorem run_noteRetry (f : FunctionSource) (failure : Fault) (fallback : Strategy) (w : World) :
    ∃ w', (noteRetry f failure fallback).run w = (.ok (), w') ∧ w'.disk = w.disk ∧
      w'.manifests = w.manifests := ⟨_, rfl, rfl, rfl⟩

/-- A second attempt, after it was noted. -/
theorem run_recover (failure : Fault) (fallback : Strategy)
    (noted : (noteRetry f failure fallback).run w = (.ok (), w')) :
    ((recover s f failure fallback).run w).1 =
      match ((withStrategy s f fallback).run w').1 with
      | .ok b => .ok { b with recovered := some failure.details }
      | .error _ => .error failure := by
  show ((noteRetry f failure fallback >>= fun _ => tryCatch (withStrategy s f fallback >>= fun b =>
    pure { b with recovered := some failure.details }) fun _ => throw failure : Action Bundle).run
      w).1 = _
  rw [Work.run_bind, noted]
  dsimp only
  rw [Work.run_tryCatch, Work.run_bind]
  generalize (withStrategy s f fallback).run w' = tried
  obtain ⟨b | b, w''⟩ := tried <;> rfl

/-- What is tried when the engine may fail. -/
theorem run_withSelection_fallback (primary fallback : Strategy) (w : World) :
    ((withSelection s f ⟨primary, some fallback⟩).run w).1 =
      match (withStrategy s f primary).run w with
      | (.ok b, _) => .ok b
      | (.error failure, w') => ((recover s f failure fallback).run w').1 := by
  show ((tryCatch (withStrategy s f primary) fun failure => recover s f failure fallback).run w).1 =
    _
  rw [Work.run_tryCatch]
  generalize (withStrategy s f primary).run w = tried
  obtain ⟨b | b, w'⟩ := tried <;> rfl

/-! ## Bundling step by step -/

/-- How far the bundling of a function has come. -/
inductive Progress
  | begun
  | selected (selection : Selection)
  | failedOnce (fallback : Strategy) (failure : Fault)
  | retried (failure : Fault) (retry : Outcome Bundle)
  | done (result : Outcome Bundle)

/-- One step of bundling. What has ended stays as it is. -/
def advance (s : Settings) (f : FunctionSource) : Progress → Action Progress
  | .begun => do
    match ← Action.apart.observing (Action.query (Selection.choose f)) with
    | .ok selection => return .selected selection
    | .error fault => return .done (.error fault)
  | .selected selection => do
    match ← Action.apart.observing (withStrategy s f selection.primary), selection.fallback with
    | .ok b, _ => return .done (.ok b)
    | .error failure, some fallback => return .failedOnce fallback failure
    | .error failure, none => return .done (.error failure)
  | .failedOnce fallback failure => do
    noteRetry f failure fallback
    return .retried failure (← Action.apart.observing (withStrategy s f fallback))
  | .retried failure (.ok b) => return .done (.ok { b with recovered := some failure.details })
  | .retried failure (.error _) => return .done (.error failure)
  | .done result => return .done result

/-- Several steps of bundling. -/
def advanceFor (s : Settings) (f : FunctionSource) : Nat → Progress → Action Progress
  | 0, progress => return progress
  | bound + 1, progress => do advanceFor s f bound (← advance s f progress)

theorem run_advanceFor_succ (bound : Nat) {progress next : Progress}
    (stepped : (advance s f progress).run w = (.ok next, w')) :
    (advanceFor s f (bound + 1) progress).run w = (advanceFor s f bound next).run w' := by
  rw [advanceFor, Work.run_bind, stepped]

theorem run_advanceFor_done (bound : Nat) (result : Outcome Bundle) (w : World) :
    (advanceFor s f bound (.done result)).run w = (.ok (.done result), w) := by
  induction bound with
  | zero => rfl
  | succ bound ih =>
      have stays : (advance s f (.done result)).run w = (.ok (.done result), w) := rfl
      rw [run_advanceFor_succ bound stays, ih]

theorem run_observing (act : Action α) (w : World) :
    (Action.apart.observing act).run w = (.ok (act.run w).1, (act.run w).2) := rfl

theorem run_advance_begun (s : Settings) (f : FunctionSource) (w : World) :
    (advance s f .begun).run w =
      match (Action.query (Selection.choose f)).run w with
      | (.ok selection, w') => (.ok (.selected selection), w')
      | (.error fault, w') => (.ok (.done (.error fault)), w') := by
  unfold advance
  rw [Work.run_bind, run_observing]
  generalize (Action.query (Selection.choose f)).run w = chosen
  obtain ⟨fault | selection, w'⟩ := chosen <;> rfl

theorem run_advance_selected (s : Settings) (f : FunctionSource) (selection : Selection)
    (w : World) :
    (advance s f (.selected selection)).run w =
      match (withStrategy s f selection.primary).run w, selection.fallback with
      | (.ok b, w'), _ => (.ok (.done (.ok b)), w')
      | (.error failure, w'), some fallback => (.ok (.failedOnce fallback failure), w')
      | (.error failure, w'), none => (.ok (.done (.error failure)), w') := by
  unfold advance
  rw [Work.run_bind, run_observing]
  generalize (withStrategy s f selection.primary).run w = tried
  obtain ⟨failure | b, w'⟩ := tried
  · cases selection.fallback <;> rfl
  · rfl

theorem run_advance_failedOnce (failure : Fault) (fallback : Strategy)
    (noted : (noteRetry f failure fallback).run w = (.ok (), w')) :
    (advance s f (.failedOnce fallback failure)).run w =
      (.ok (.retried failure ((withStrategy s f fallback).run w').1),
        ((withStrategy s f fallback).run w').2) := by
  unfold advance
  rw [Work.run_bind, noted]
  dsimp only
  rw [Work.run_bind, run_observing]
  rfl

/-- A second attempt ends after two steps with what `recover` gives. -/
theorem run_advanceFor_failedOnce (fallback : Strategy) (failure : Fault) (w : World) :
    ((advanceFor s f 2 (.failedOnce fallback failure)).run w).1 =
      .ok (.done ((recover s f failure fallback).run w).1) := by
  obtain ⟨w', noted, -, -⟩ := run_noteRetry f failure fallback w
  rw [run_recover failure fallback noted,
    run_advanceFor_succ 1 (run_advance_failedOnce failure fallback noted)]
  generalize (withStrategy s f fallback).run w' = tried
  obtain ⟨b | b, w''⟩ := tried <;> rfl

/-- Bundling ends after four steps with what `make` gives. -/
theorem run_advanceFor (s : Settings) (f : FunctionSource) (w : World) :
    ((advanceFor s f 4 .begun).run w).1 = .ok (.done ((make s f).run w).1) := by
  rw [run_make]
  have first := run_advance_begun s f w
  generalize (Action.query (Selection.choose f)).run w = chosen at first ⊢
  obtain ⟨fault | selection, w₁⟩ := chosen
  · rw [run_advanceFor_succ 3 first, run_advanceFor_done]
  rw [run_advanceFor_succ 3 first]
  have second := run_advance_selected s f selection w₁
  obtain ⟨primary, fallback⟩ := selection
  dsimp only at second ⊢
  cases fallback with
  | none =>
      show _ = Except.ok (Progress.done ((withStrategy s f primary).run w₁).1)
      generalize (withStrategy s f primary).run w₁ = tried at second ⊢
      obtain ⟨failure | b, w₂⟩ := tried <;>
        rw [run_advanceFor_succ 2 second, run_advanceFor_done]
  | some fallback =>
      rw [run_withSelection_fallback]
      generalize (withStrategy s f primary).run w₁ = tried at second ⊢
      obtain ⟨failure | b, w₂⟩ := tried
      · rw [run_advanceFor_succ 2 second, run_advanceFor_failedOnce]
      · rw [run_advanceFor_succ 2 second, run_advanceFor_done]

/-- Without a second strategy bundling ends after two steps, in which one strategy is run. -/
theorem run_advanceFor_single {selection : Selection} (single : selection.fallback = none)
    (chosen : (Action.query (Selection.choose f)).run w = (.ok selection, w')) :
    ((advanceFor s f 2 .begun).run w).1 =
      .ok (.done ((withStrategy s f selection.primary).run w').1) := by
  have first := run_advance_begun s f w
  have second := run_advance_selected s f selection w'
  rw [chosen] at first
  rw [single] at second
  generalize (withStrategy s f selection.primary).run w' = tried at second ⊢
  obtain ⟨failure | b, w''⟩ := tried <;>
    rw [run_advanceFor_succ 1 first, run_advanceFor_succ 0 second] <;> rfl

end Bundle

end FunctionArchive
