import FunctionArchive.Proofs.Manifest.Knowledge

/-!
# What a question yields

`Yields d limit q holds` says of a question `q` that on the disk `d` every value that it answers
with has the property `holds`, for a run that knows nothing but the truth and searches as far as
`limit`; and that the run still knows nothing but the truth when the question fails. The rules
follow the ways in which questions are put together.

What a question is alike to itself in, its answers have from a run that knows nothing
(`Alike.yields`).
-/

set_option autoImplicit false

namespace FunctionArchive.Query

variable {α β γ ι : Type} {d : Disk} {limit : Option Path}

/-- A run whose value, if it has one, has a property, and that knows nothing but the truth. -/
structure Ends (d : Disk) (limit : Option Path) (holds : α → Prop)
    (result : Outcome α × Manifests) : Prop where
  value : ∀ a, result.1 = .ok a → holds a
  faithful : result.2.Faithful d
  boundary : result.2.boundary = limit

/-- Every value that a question answers with has a property, whatever is known before. -/
def Yields (d : Disk) (limit : Option Path) (q : Query α) (holds : α → Prop) : Prop :=
  ∀ ⦃known : Manifests⦄, known.Faithful d → known.boundary = limit →
    Ends d limit holds ((q d).run known)

namespace Yields

variable {q : Query α} {f : α → Query γ} {holds : α → Prop} {later : γ → Prop}

theorem mono {weaker : α → Prop} (yields : Yields d limit q holds)
    (weaken : ∀ a, holds a → weaker a) : Yields d limit q weaker := by
  intro known faithful boundary
  obtain ⟨value, learns, kept⟩ := yields faithful boundary
  exact ⟨fun a answered => weaken a (value a answered), learns, kept⟩

theorem and {also : α → Prop} (yields : Yields d limit q holds) (yields' : Yields d limit q also) :
    Yields d limit q fun a => holds a ∧ also a := by
  intro known faithful boundary
  obtain ⟨value, learns, kept⟩ := yields faithful boundary
  obtain ⟨value', -, -⟩ := yields' faithful boundary
  exact ⟨fun a answered => ⟨value a answered, value' a answered⟩, learns, kept⟩

theorem pure {a : α} (there : holds a) : Yields d limit (Pure.pure a) holds := by
  intro known faithful boundary
  refine ⟨?_, faithful, boundary⟩
  rintro _ ⟨⟩
  exact there

theorem throw (fault : Fault) : Yields d limit (MonadExcept.throw fault) holds :=
  fun _ faithful boundary => ⟨fun _ answered => (nomatch answered), faithful, boundary⟩

theorem bind (first : Yields d limit q holds) (next : ∀ a, holds a → Yields d limit (f a) later) :
    Yields d limit (q >>= f) later := by
  intro known faithful boundary
  have firstEnds := first faithful boundary
  rw [run_bind]
  generalize (q d).run known = ended at firstEnds ⊢
  obtain ⟨result, known'⟩ := ended
  obtain ⟨value, learns, kept⟩ := firstEnds
  cases result with
  | ok a => exact next a (value a rfl) learns kept
  | error fault => exact ⟨fun _ answered => (nomatch answered), learns, kept⟩

theorem ite {p : Prop} [Decidable p] {yes no : Query α} (positive : Yields d limit yes holds)
    (negative : Yields d limit no holds) : Yields d limit (if p then yes else no) holds := by
  split
  · exact positive
  · exact negative

theorem ask {g : Disk → Outcome α} (value : ∀ a, g d = .ok a → holds a) :
    Yields d limit (Query.ask g) holds :=
  fun _ faithful boundary => ⟨value, faithful, boundary⟩

theorem askDisk {context : String} {path : Path} {g : Disk → Except Disk.Fault α}
    (value : ∀ a, g d = .ok a → holds a) : Yields d limit (Query.askDisk context path g) holds := by
  refine .ask fun a answered => value a ?_
  cases there : g d with
  | ok b => simpa [there, Except.mapError] using answered
  | error fault => simp [there, Except.mapError] at answered

theorem test (g : Disk → Bool) : Yields d limit (Query.test g) (· = g d) := .pure rfl

theorem read : Yields d limit (MonadReader.read : Query Disk) (· = d) :=
  .pure rfl

/-- What is known may differ, but not how far a search upwards looks. -/
theorem knowledge : Yields d limit (get : Query Manifests) (·.boundary = limit) := by
  intro known faithful boundary
  refine ⟨?_, faithful, boundary⟩
  rintro _ ⟨⟩
  exact boundary

theorem load (directory : Path) :
    Yields d limit (Manifests.load directory) fun answer =>
      ∃ fetched, Manifests.fetch d (directory.child Manifest.fileName) = .ok fetched ∧
        Option.Rel Manifest.Matches answer fetched := by
  intro known faithful boundary
  obtain ⟨outcome, learns, kept⟩ := faithful.run_load directory
  refine ⟨fun answer answered => ?_, learns, kept.trans boundary⟩
  rw [answered] at outcome
  generalize Manifests.fetch d (directory.child Manifest.fileName) = there at outcome
  cases outcome with
  | ok respells => exact ⟨_, rfl, Manifest.Respells.rel_matches respells⟩

theorem mapM {g : ι → Query α} {each : ι → α → Prop} (items : List ι)
    (yields : ∀ item ∈ items, Yields d limit (g item) (each item)) :
    Yields d limit (items.mapM g) (List.Forall₂ each items) := by
  induction items with
  | nil => exact .pure .nil
  | cons item rest ih =>
      rw [List.mapM_cons]
      refine .bind (yields item List.mem_cons_self) fun a first => ?_
      refine .bind (ih fun other member => yields other (List.mem_cons_of_mem _ member)) ?_
      intro as others
      exact .pure (.cons first others)

end Yields

/-- What a question that is alike to itself answers with is related to the answer of a run that
knows nothing yet. -/
theorem Alike.yields {q : Query α} {related : α → α → Prop} (alike : Alike related d q q) :
    Yields d limit q fun a => ∃ b, q.answer d limit = .ok b ∧ related a b := by
  intro known faithful boundary
  subst boundary
  have sameEnd := alike faithful (Manifests.faithful_empty known.boundary d) rfl
  refine ⟨fun a answered => ?_, sameEnd.faithful, sameEnd.boundary⟩
  have outcome := sameEnd.outcome
  rw [answered] at outcome
  unfold answer
  generalize ((q d).run (.empty known.boundary)).1 = first at outcome ⊢
  cases outcome with
  | ok values => exact ⟨_, rfl, values⟩

/-- The answers to two steady questions, one after the other. -/
theorem Alike.answer_bind {q : Query α} {f : α → Query γ} {a : α} {result : Outcome γ}
    (first : Steady d q) (answered : q.answer d limit = .ok a) (next : Steady d (f a))
    (answered' : (f a).answer d limit = result) : (q >>= f).answer d limit = result := by
  have empty := Manifests.faithful_empty limit d
  have firstEnd := first empty empty rfl
  unfold answer at answered answered' ⊢
  rw [run_bind]
  generalize (q d).run (.empty limit) = ended at answered firstEnd ⊢
  obtain ⟨result, known⟩ := ended
  cases answered
  have outcome : SameOutcome (· = ·) ((f a d).run known).1 ((f a d).run (.empty limit)).1 :=
    (next firstEnd.faithful empty firstEnd.boundary.symm).outcome
  show ((f a d).run known).1 = result
  rw [answered'] at outcome
  generalize ((f a d).run known).1 = result at outcome ⊢
  cases outcome with
  | ok same => rw [same]
  | error fault => rfl

/-- A run of a steady question gives its answer and learns nothing but the truth. -/
theorem Alike.run_eq {q : Query α} (steady : Steady d q) {known : Manifests}
    (faithful : known.Faithful d) {a : α} (answered : q.answer d known.boundary = .ok a) :
    ∃ later, (q d).run known = (.ok a, later) ∧ later.Faithful d ∧
      later.boundary = known.boundary := by
  have sameEnd := steady faithful (Manifests.faithful_empty known.boundary d) rfl
  have outcome := sameEnd.outcome
  unfold answer at answered
  rw [answered] at outcome
  refine ⟨((q d).run known).2, Prod.ext ?_ rfl, sameEnd.faithful, sameEnd.boundary⟩
  generalize ((q d).run known).1 = result at outcome ⊢
  cases outcome with
  | ok same => rw [same]

/-- Observing a question never fails and tells its outcome. -/
@[simp] theorem run_observing (q : Query α) (d : Disk) (known : Manifests) :
    ((observing q) d).run known = (.ok ((q d).run known).1, ((q d).run known).2) := by
  unfold observing
  rw [run_tryCatch, run_bind]
  rcases (q d).run known with ⟨outcome | outcome, known'⟩ <;> rfl

theorem Alike.observing_yields {q : Query α} {related : α → α → Prop}
    (alike : Alike related d q q) :
    Yields d limit (observing q) fun outcome => SameOutcome related outcome (q.answer d limit) := by
  intro known faithful boundary
  subst boundary
  have sameEnd := alike faithful (Manifests.faithful_empty known.boundary d) rfl
  rw [run_observing]
  refine ⟨?_, sameEnd.faithful, sameEnd.boundary⟩
  rintro _ ⟨⟩
  exact sameEnd.outcome

end FunctionArchive.Query

/-! ## The manifests that a disk holds -/

namespace FunctionArchive

/-- The manifest in a directory. -/
def Disk.manifestIn (d : Disk) (directory : Path) : Option Manifest :=
  match Manifests.fetch d (directory.child Manifest.fileName) with
  | .ok manifest => manifest
  | .error _ => none

/-- The manifest of a directory can be read, or there is none. -/
def Disk.LoadsManifest (d : Disk) (directory : Path) : Prop :=
  ∃ manifest, Manifests.fetch d (directory.child Manifest.fileName) = .ok manifest

variable {d : Disk} {limit : Option Path} {directory : Path}

theorem Disk.LoadsManifest.fetch_eq (loads : d.LoadsManifest directory) :
    Manifests.fetch d (directory.child Manifest.fileName) = .ok (d.manifestIn directory) := by
  obtain ⟨m, fetched⟩ := loads
  rw [manifestIn, fetched]

/-- The answer to a question that loads a manifest and looks at all but its directory. -/
theorem Query.Alike.answer_andLoad {γ : Type} {f : Option Manifest → Query γ}
    {result : Outcome γ} (loads : d.LoadsManifest directory)
    (next : Query.Steady d (f (d.manifestIn directory)))
    (answered : (f (d.manifestIn directory)).answer d limit = result) :
    (Manifests.load directory >>= f).answer d limit = result := by
  have empty := Manifests.faithful_empty limit d
  have fetched := loads.fetch_eq
  generalize d.manifestIn directory = m at next answered fetched
  obtain ⟨-, learns, kept⟩ := empty.run_load directory
  have looked : (Manifests.empty limit).lookUp (directory.child Manifest.fileName) = none := rfl
  have recorded : ((Manifests.empty limit).record (directory.child Manifest.fileName) m).1 = m := by
    cases m <;> rfl
  have loaded : ((Manifests.load directory) d).run (.empty limit) =
      (.ok m, ((Manifests.empty limit).record (directory.child Manifest.fileName) m).2) := by
    simp [Manifests.run_load, looked, fetched, recorded]
  rw [loaded] at learns kept
  have outcome := (next learns empty kept.symm).outcome
  unfold Query.answer at answered ⊢
  rw [Query.run_bind, loaded]
  show ((f m d).run _).1 = result
  rw [answered] at outcome
  generalize ((f m d).run _).1 = first at outcome ⊢
  cases outcome with
  | ok same => rw [same]
  | error fault => rfl

end FunctionArchive
