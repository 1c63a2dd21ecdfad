import FunctionArchive.Proofs.Manifest.Answer

/-!
# How a question fails

`Fails d limit q bad` says of a question `q` that on the disk `d` every fault with which it fails is
of the kind `bad`, for a run that knows nothing but the truth. A question `Succeeds` if no fault is
left for it. The rules go along with those of `Yields`, since what comes after a question is asked
only about the values that it yields.
-/

set_option autoImplicit false

namespace FunctionArchive.Query

variable {α β γ ι : Type} {d : Disk} {limit : Option Path}

/-- Every fault with which a question fails is of some kind, whatever is known before. -/
def Fails (d : Disk) (limit : Option Path) (q : Query α) (bad : Fault → Prop) : Prop :=
  ∀ ⦃known : Manifests⦄, known.Faithful d → known.boundary = limit →
    ∀ fault, ((q d).run known).1 = .error fault → bad fault

/-- A question that has an answer, whatever is known before. -/
abbrev Succeeds (d : Disk) (limit : Option Path) (q : Query α) : Prop :=
  Fails d limit q fun _ => False

namespace Fails

variable {q : Query α} {f : α → Query γ} {holds : α → Prop} {bad : Fault → Prop}

theorem mono {worse : Fault → Prop} (fails : Fails d limit q bad)
    (weaken : ∀ fault, bad fault → worse fault) : Fails d limit q worse :=
  fun _ faithful boundary fault failed => weaken fault (fails faithful boundary fault failed)

theorem pure (a : α) : Fails d limit (Pure.pure a) bad := by
  intro known faithful boundary fault failed
  cases failed

theorem throw {fault : Fault} (isBad : bad fault) :
    Fails d limit (MonadExcept.throw fault : Query α) bad := by
  rintro known faithful boundary _ ⟨⟩
  exact isBad

theorem bind (first : Fails d limit q bad) (yields : Yields d limit q holds)
    (next : ∀ a, holds a → Fails d limit (f a) bad) : Fails d limit (q >>= f) bad := by
  intro known faithful boundary fault failed
  have firstFails := first faithful boundary
  have firstEnds := yields faithful boundary
  rw [run_bind] at failed
  generalize (q d).run known = ended at firstFails firstEnds failed
  obtain ⟨result, known'⟩ := ended
  obtain ⟨value, learns, kept⟩ := firstEnds
  cases result with
  | ok a => exact next a (value a rfl) learns kept fault failed
  | error other =>
      cases failed
      exact firstFails fault rfl

theorem ite {p : Prop} [Decidable p] {yes no : Query α} (positive : p → Fails d limit yes bad)
    (negative : ¬ p → Fails d limit no bad) : Fails d limit (if p then yes else no) bad := by
  split
  · exact positive ‹_›
  · exact negative ‹_›

theorem ask {g : Disk → Outcome α} (refused : ∀ fault, g d = .error fault → bad fault) :
    Fails d limit (Query.ask g) bad :=
  fun _ _ _ fault failed => refused fault failed

theorem askDisk {context : String} {path : Path} {g : Disk → Except Disk.Fault α}
    (refused : ∀ cause, g d = .error cause → bad (.disk context path cause)) :
    Fails d limit (Query.askDisk context path g) bad := by
  refine .ask fun fault failed => ?_
  cases there : g d with
  | ok a => simp [there, Except.mapError] at failed
  | error cause =>
      simp only [there, Except.mapError, Except.error.injEq] at failed
      rw [← failed]
      exact refused cause there

theorem test (g : Disk → Bool) : Fails d limit (Query.test g) bad := .pure _

theorem read : Fails d limit (MonadReader.read : Query Disk) bad := .pure _

theorem knowledge : Fails d limit (get : Query Manifests) bad := by
  rintro known faithful boundary fault ⟨⟩

/-- Observing a question does not fail. -/
theorem observe (q : Query α) : Fails d limit (observing q) bad := by
  intro known faithful boundary fault failed
  rw [run_observing] at failed
  cases failed

theorem load {directory : Path} (refused : ∀ fault,
      Manifests.fetch d (directory.child Manifest.fileName) = .error fault → bad fault) :
    Fails d limit (Manifests.load directory) bad := by
  intro known faithful boundary fault failed
  have outcome := (faithful.run_load directory).1
  rw [failed] at outcome
  refine refused fault ?_
  generalize Manifests.fetch d (directory.child Manifest.fileName) = there at outcome
  cases outcome with
  | error => rfl

theorem mapM {g : ι → Query α} {each : ι → α → Prop} (items : List ι)
    (yields : ∀ item ∈ items, Yields d limit (g item) (each item))
    (fails : ∀ item ∈ items, Fails d limit (g item) bad) : Fails d limit (items.mapM g) bad := by
  induction items with
  | nil => exact .pure _
  | cons item rest ih =>
      rw [List.mapM_cons]
      refine .bind (fails item List.mem_cons_self) (yields item List.mem_cons_self) fun a _ => ?_
      have others := fun other member => yields other (List.mem_cons_of_mem item member)
      refine .bind (ih others fun other member => fails other (List.mem_cons_of_mem _ member))
        (.mapM rest others) fun as _ => .pure _

theorem foldlM {g : β → ι → Query β} (items : List ι) (init : β)
    (yields : ∀ b, ∀ item ∈ items, Yields d limit (g b item) fun _ => True)
    (fails : ∀ b, ∀ item ∈ items, Fails d limit (g b item) bad) :
    Fails d limit (items.foldlM g init) bad := by
  induction items generalizing init with
  | nil => exact .pure _
  | cons item rest ih =>
      rw [List.foldlM_cons]
      refine .bind (fails init item List.mem_cons_self) (yields init item List.mem_cons_self)
        fun b _ => ?_
      exact ih b (fun b other member => yields b other (List.mem_cons_of_mem _ member))
        fun b other member => fails b other (List.mem_cons_of_mem _ member)

end Fails

/-- What is learnt from each item is known after all of them. -/
theorem Yields.mapM_each {g : ι → Query α} {each : ι → Prop} (items : List ι)
    (yields : ∀ item ∈ items, Yields d limit (g item) fun _ => each item) :
    Yields d limit (items.mapM g) fun _ => ∀ item ∈ items, each item := by
  induction items with
  | nil => exact .pure (List.forall_mem_nil _)
  | cons item rest ih =>
      rw [List.mapM_cons]
      refine .bind (yields item List.mem_cons_self) fun a first => ?_
      refine .bind (ih fun other member => yields other (List.mem_cons_of_mem _ member)) ?_
      exact fun as others => .pure (List.forall_mem_cons.mpr ⟨first, others⟩)

/-- What holds of the value of each item holds of all values. -/
theorem Yields.mapM_all {g : ι → Query α} {holds : α → Prop} (items : List ι)
    (yields : ∀ item ∈ items, Yields d limit (g item) holds) :
    Yields d limit (items.mapM g) fun values => ∀ a ∈ values, holds a := by
  refine (Yields.mapM items yields).mono fun values each => ?_
  induction each with
  | nil => exact List.forall_mem_nil _
  | cons first _ ih =>
      exact List.forall_mem_cons.mpr
        ⟨first, ih fun item member => yields item (List.mem_cons_of_mem _ member)⟩

/-- What is learnt from each step of a series is known after the series. -/
theorem Yields.foldlM_each {g : β → ι → Query β} {each : ι → Prop} (items : List ι)
    (yields : ∀ b, ∀ item ∈ items, Yields d limit (g b item) fun _ => each item) (init : β) :
    Yields d limit (items.foldlM g init) fun _ => ∀ item ∈ items, each item := by
  induction items generalizing init with
  | nil => exact .pure (List.forall_mem_nil _)
  | cons item rest ih =>
      rw [List.foldlM_cons]
      refine .bind (yields init item List.mem_cons_self) fun b first => ?_
      refine (ih (fun b other member => yields b other (List.mem_cons_of_mem _ member)) b).mono ?_
      exact fun _ others => List.forall_mem_cons.mpr ⟨first, others⟩

/-- What each step of a series keeps still holds after the series. -/
theorem Yields.foldlM_keeps {g : β → ι → Query β} {keeps : β → Prop} (items : List ι)
    (yields : ∀ b, keeps b → ∀ item ∈ items, Yields d limit (g b item) keeps) {init : β}
    (begins : keeps init) : Yields d limit (items.foldlM g init) keeps := by
  induction items generalizing init with
  | nil => exact .pure begins
  | cons item rest ih =>
      rw [List.foldlM_cons]
      refine .bind (yields init begins item List.mem_cons_self) fun b kept => ?_
      exact ih (fun b kept other member => yields b kept other (List.mem_cons_of_mem _ member)) kept

/-- A question that succeeds has a value in every run. -/
theorem Fails.exists_ok {q : Query α} (succeeds : Succeeds d limit q) {known : Manifests}
    (faithful : known.Faithful d) (boundary : known.boundary = limit) :
    ∃ a, ((q d).run known).1 = .ok a := by
  have never := succeeds faithful boundary
  generalize ((q d).run known).1 = result at never ⊢
  cases result with
  | ok a => exact ⟨a, rfl⟩
  | error fault => exact (never fault rfl).elim

end FunctionArchive.Query
