import FunctionArchive.Proofs.Manifest.Answer
import FunctionArchive.Proofs.Resolution.Installed

/-!
# Questions to two file systems

Two runs on different file systems go the same way if both answer, with related values, or if both
fail with the same sort of fault: one that tells of a missing dependency, which a run may pass over,
or another one (`SameWay`). Two questions are `Parallel` if their runs go the same way, whatever is
known before, as long as each run knows nothing but the truth about its own file system.

The rules follow the ways in which questions are put together.
-/

set_option autoImplicit false

namespace FunctionArchive.Query

variable {α β γ δ ι κ : Type} {d d' : Disk} {limit limit' : Option Path}

/-- Related values, or faults of the same sort. -/
inductive SameWay (related : α → β → Prop) : Outcome α → Outcome β → Prop
  | ok {a : α} {b : β} (values : related a b) : SameWay related (.ok a) (.ok b)
  | missing (name name' : String) (origin origin' : Path) :
      SameWay related (.error (.missingDependency name origin))
        (.error (.missingDependency name' origin'))
  | other {fault fault' : Fault} (isOther : fault.IsOther) (isOther' : fault'.IsOther) :
      SameWay related (.error fault) (.error fault')

/-- A run knows nothing but the truth about a disk and searches as far as `limit`. -/
structure Informed (d : Disk) (limit : Option Path) (known : Manifests) : Prop where
  faithful : known.Faithful d
  boundary : known.boundary = limit

/-- Two runs that went the same way and know nothing but the truth. -/
structure Abreast (related : α → β → Prop) (d d' : Disk) (limit limit' : Option Path)
    (result : Outcome α × Manifests) (result' : Outcome β × Manifests) : Prop where
  outcome : SameWay related result.1 result'.1
  informed : Informed d limit result.2
  informed' : Informed d' limit' result'.2

/-- Two questions whose runs on two disks go the same way, whatever is known before. -/
def Parallel (d d' : Disk) (limit limit' : Option Path) (related : α → β → Prop) (q : Query α)
    (q' : Query β) : Prop :=
  ∀ ⦃known known' : Manifests⦄, Informed d limit known → Informed d' limit' known' →
    Abreast related d d' limit limit' ((q d).run known) ((q' d').run known')

variable {q : Query α} {q' : Query β} {f : α → Query γ} {f' : β → Query δ}
  {related : α → β → Prop} {related' : γ → δ → Prop}

theorem SameWay.mono {weaker : α → β → Prop} {result : Outcome α} {result' : Outcome β}
    (sameWay : SameWay related result result') (weaken : ∀ a b, related a b → weaker a b) :
    SameWay weaker result result' := by
  cases sameWay with
  | ok values => exact .ok (weaken _ _ values)
  | missing => exact .missing _ _ _ _
  | other isOther isOther' => exact .other isOther isOther'

namespace Parallel

theorem pure {a : α} {b : β} (values : related a b) :
    Parallel d d' limit limit' related (Pure.pure a) (Pure.pure b) :=
  fun _ _ informed informed' => ⟨.ok values, informed, informed'⟩

theorem throwMissing {name name' : String} {origin origin' : Path} :
    Parallel d d' limit limit' related (MonadExcept.throw (.missingDependency name origin))
      (MonadExcept.throw (.missingDependency name' origin')) :=
  fun _ _ informed informed' => ⟨.missing _ _ _ _, informed, informed'⟩

theorem throwOther {fault fault' : Fault} (isOther : fault.IsOther) (isOther' : fault'.IsOther) :
    Parallel d d' limit limit' related (MonadExcept.throw fault) (MonadExcept.throw fault') :=
  fun _ _ informed informed' => ⟨.other isOther isOther', informed, informed'⟩

theorem bind (first : Parallel d d' limit limit' related q q')
    (next : ∀ a b, related a b → Parallel d d' limit limit' related' (f a) (f' b)) :
    Parallel d d' limit limit' related' (q >>= f) (q' >>= f') := by
  intro known known' informed informed'
  have firstEnd := first informed informed'
  rw [run_bind, run_bind]
  generalize (q d).run known = ended at firstEnd ⊢
  generalize (q' d').run known' = ended' at firstEnd ⊢
  obtain ⟨result, later⟩ := ended
  obtain ⟨result', later'⟩ := ended'
  obtain ⟨outcome, learns, learns'⟩ := firstEnd
  cases outcome with
  | ok values => exact next _ _ values learns learns'
  | missing => exact ⟨.missing _ _ _ _, learns, learns'⟩
  | other isOther isOther' => exact ⟨.other isOther isOther', learns, learns'⟩

/-- What comes after questions with the same answer. -/
theorem andThen {g : α → Query γ} {g' : α → Query δ} {q' : Query α}
    (first : Parallel d d' limit limit' (· = ·) q q')
    (next : ∀ a, Parallel d d' limit limit' related' (g a) (g' a)) :
    Parallel d d' limit limit' related' (q >>= g) (q' >>= g') := by
  refine bind first fun a b same => ?_
  rw [same]
  exact next b

theorem ite {p : Prop} [Decidable p] {yes no : Query α} {yes' no' : Query β}
    (positive : Parallel d d' limit limit' related yes yes')
    (negative : Parallel d d' limit limit' related no no') :
    Parallel d d' limit limit' related (if p then yes else no) (if p then yes' else no') := by
  split
  · exact positive
  · exact negative

theorem ask {g : Disk → Outcome α} {g' : Disk → Outcome β}
    (outcome : SameWay related (g d) (g' d')) :
    Parallel d d' limit limit' related (Query.ask g) (Query.ask g') :=
  fun _ _ informed informed' => ⟨outcome, informed, informed'⟩

/-- A question to the disk itself fails with no missing dependency. -/
theorem askDisk {context : String} {path path' : Path} {g : Disk → Except Disk.Fault α}
    {g' : Disk → Except Disk.Fault β}
    (outcome : (∃ a b, g d = .ok a ∧ g' d' = .ok b ∧ related a b) ∨
      ∃ fault fault', g d = .error fault ∧ g' d' = .error fault') :
    Parallel d d' limit limit' related (Query.askDisk context path g)
      (Query.askDisk context path' g') := by
  refine ask ?_
  rcases outcome with ⟨a, b, answered, answered', values⟩ | ⟨fault, fault', failed, failed'⟩
  · rw [answered, answered']
    exact .ok values
  · rw [failed, failed']
    refine .other ?_ ?_ <;> rintro name origin ⟨⟩

theorem test {g g' : Disk → Bool} (same : g d = g' d') :
    Parallel d d' limit limit' (· = ·) (Query.test g) (Query.test g') :=
  fun _ _ informed informed' => ⟨.ok same, informed, informed'⟩

/-- The answer to a question that is asked only of the disk may be used. -/
theorem testIs {g g' : Disk → Bool} (same : g d = g' d') :
    Parallel d d' limit limit' (fun a b => b = a ∧ g d = a) (Query.test g) (Query.test g') :=
  fun _ _ informed informed' => ⟨.ok ⟨same.symm, rfl⟩, informed, informed'⟩

theorem read :
    Parallel d d' limit limit' (fun disk disk' => disk = d ∧ disk' = d')
      (MonadReader.read : Query Disk) MonadReader.read :=
  fun _ _ informed informed' => ⟨.ok ⟨rfl, rfl⟩, informed, informed'⟩

/-- What is known may differ, but each search goes as far as it should. -/
theorem knowledge :
    Parallel d d' limit limit'
      (fun known known' => known.boundary = limit ∧ known'.boundary = limit')
      (get : Query Manifests) get :=
  fun _ _ informed informed' =>
    ⟨.ok ⟨informed.boundary, informed'.boundary⟩, informed, informed'⟩

/-- The outcomes themselves are related when they are observed. -/
theorem observing (parallel : Parallel d d' limit limit' related q q') :
    Parallel d d' limit limit' (SameWay related) (observing q) (observing q') := by
  intro known known' informed informed'
  obtain ⟨outcome, learns, learns'⟩ := parallel informed informed'
  rw [run_observing, run_observing]
  exact ⟨.ok outcome, learns, learns'⟩

/-- Questions that have their answers in any case. -/
theorem of_answers {a : α} {b : β}
    (answers : ∀ known, Informed d limit known →
      ((q d).run known).1 = .ok a ∧ Informed d limit ((q d).run known).2)
    (answers' : ∀ known, Informed d' limit' known →
      ((q' d').run known).1 = .ok b ∧ Informed d' limit' ((q' d').run known).2)
    (values : related a b) : Parallel d d' limit limit' related q q' := by
  intro known known' informed informed'
  obtain ⟨answered, learns⟩ := answers known informed
  obtain ⟨answered', learns'⟩ := answers' known' informed'
  refine ⟨?_, learns, learns'⟩
  rw [answered, answered']
  exact .ok values

/-- Both runs load what is there. -/
theorem load {directory directory' : Path} {related : Option Manifest → Option Manifest → Prop}
    (fetched : SameWay related (Manifests.fetch d (directory.child Manifest.fileName))
      (Manifests.fetch d' (directory'.child Manifest.fileName)))
    (blind : ∀ m n m' n', Option.Rel Manifest.Matches m n → Option.Rel Manifest.Matches m' n' →
      related n n' → related m m') :
    Parallel d d' limit limit' related (Manifests.load directory) (Manifests.load directory') := by
  intro known known' informed informed'
  obtain ⟨outcome, learns, boundary⟩ := informed.faithful.run_load directory
  obtain ⟨outcome', learns', boundary'⟩ := informed'.faithful.run_load directory'
  refine ⟨?_, ⟨learns, boundary.trans informed.boundary⟩,
    ⟨learns', boundary'.trans informed'.boundary⟩⟩
  generalize Manifests.fetch d (directory.child Manifest.fileName) = there at fetched outcome
  generalize Manifests.fetch d' (directory'.child Manifest.fileName) = there' at fetched outcome'
  generalize (((Manifests.load directory) d).run known).1 = answer at outcome ⊢
  generalize (((Manifests.load directory') d').run known').1 = answer' at outcome' ⊢
  cases fetched with
  | ok values =>
      cases outcome with
      | ok respells =>
          cases outcome' with
          | ok respells' =>
              exact .ok
                (blind _ _ _ _ (Manifest.Respells.rel_matches respells)
                  (Manifest.Respells.rel_matches respells') values)
  | missing =>
      cases outcome
      cases outcome'
      exact .missing _ _ _ _
  | other isOther isOther' =>
      cases outcome
      cases outcome'
      exact .other isOther isOther'

theorem mapM {each : ι → κ → Prop} {g : ι → Query α} {g' : κ → Query β} {items : List ι}
    {items' : List κ} (paired : List.Forall₂ each items items')
    (parallel : ∀ item item', each item item' →
      Parallel d d' limit limit' related (g item) (g' item')) :
    Parallel d d' limit limit' (List.Forall₂ related) (items.mapM g) (items'.mapM g') := by
  induction paired with
  | nil => exact pure .nil
  | cons first _ ih =>
      rw [List.mapM_cons, List.mapM_cons]
      refine bind (parallel _ _ first) fun a b values => ?_
      refine bind ih fun as bs others => ?_
      exact pure (.cons values others)

theorem foldlM {each : ι → κ → Prop} {g : α → ι → Query α} {g' : β → κ → Query β}
    {items : List ι} {items' : List κ} (paired : List.Forall₂ each items items') {a : α} {b : β}
    (values : related a b)
    (parallel : ∀ a b item item', related a b → each item item' →
      Parallel d d' limit limit' related (g a item) (g' b item')) :
    Parallel d d' limit limit' related (items.foldlM g a) (items'.foldlM g' b) := by
  induction paired generalizing a b with
  | nil => exact pure values
  | cons first _ ih =>
      rw [List.foldlM_cons, List.foldlM_cons]
      exact bind (parallel _ _ _ _ values first) fun a b onward => ih onward

end Parallel

end FunctionArchive.Query
