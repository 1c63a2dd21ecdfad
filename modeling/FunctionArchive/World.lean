import FunctionArchive.Engine
import FunctionArchive.Manifest.Cache

/-!
# The world of a run

What a run reads and changes: the file system, what it knows about manifests, and its journal. An
`Action` does both and may fail; what it did until then stays done. Questions to the file system
and tasks of an engine are actions that leave the rest of the world alone.
-/

set_option autoImplicit false

namespace FunctionArchive

/-- How serious an entry of the journal is. -/
inductive Level
  | info
  | warning
  | error
deriving DecidableEq, Repr

/-- The name of a level in journals. -/
def Level.name : Level → String
  | .info => "INFO"
  | .warning => "WARN"
  | .error => "ERROR"

/-- An entry of the journal of a run. -/
structure JournalEntry where
  level : Level
  message : String
deriving DecidableEq, Repr

/-- The world of a run. -/
structure World where
  disk : Disk
  manifests : Manifests
  /-- What was noted, in order. -/
  journal : List JournalEntry

/-- Something that reads and changes the world and may fail. -/
abbrev Action := ExceptT Fault (StateM World)

namespace Action

/-- The value of an outcome. -/
def ofOutcome {α : Type} : Outcome α → Action α
  | .ok a => return a
  | .error fault => throw fault

/-- Asks a question. -/
def query {α : Type} (q : Query α) : Action α := do
  let w ← get
  let (result, manifests) := (q w.disk).run w.manifests
  set { w with manifests }
  ofOutcome result

/-- Does a task on the file system. -/
def task {α : Type} (t : Task α) : Action α := do
  let w ← get
  let (result, disk) := t.run w.disk
  set { w with disk }
  ofOutcome result

/-- Notes something in the journal. -/
def note (level : Level) (message : String) : Action Unit :=
  modify fun w => { w with journal := w.journal ++ [⟨level, message⟩] }

/-- Acts as a run of its own: what was known about manifests does not matter to it, and what it
learns about them is forgotten. -/
def apart {α : Type} (boundary : Option Path) (act : Action α) : Action α := do
  let before := (← get).manifests
  modify fun w => { w with manifests := .empty boundary }
  let result ← observing act
  modify fun w => { w with manifests := before }
  ofOutcome result
where
  /-- The result of an action, even if it is a fault. -/
  observing (act : Action α) : Action (Outcome α) :=
    ExceptT.mk do return .ok (← act.run)

end Action

end FunctionArchive
