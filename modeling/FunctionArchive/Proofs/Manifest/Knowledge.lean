import FunctionArchive.Manifest.Cache
import FunctionArchive.Proofs.Disk.Lookup
import FunctionArchive.Proofs.Path.Spelling
import Mathlib.Data.List.Forall2

/-!
# What a run knows does not matter

A run remembers the manifests that it has read. As long as what it remembers is true of the disk
(`Manifests.Faithful`), a question gives the same answer whatever was asked before: loading a
manifest gives what reading it gives, up to the way in which its directory is spelled
(`load_alike`).

Two questions are `Alike` when they answer alike on a disk, however much is known about it, and add
only what is true. Being alike passes through the ways in which questions are put together, so a
question that loads manifests and looks at no spelling is `Steady`.
-/

set_option autoImplicit false

namespace FunctionArchive

/-! ## True knowledge -/

/-- The same manifest, whose directory may be spelled in another way. -/
def Manifest.Matches (m m' : Manifest) : Prop := m = { m' with directory := m.directory }

theorem Manifest.Matches.refl (m : Manifest) : m.Matches m := rfl

theorem Manifest.Matches.symm {m m' : Manifest} (matched : m.Matches m') : m'.Matches m := by
  rw [matched]
  rfl

theorem Manifest.Matches.trans {m m' m'' : Manifest} (matched : m.Matches m')
    (matched' : m'.Matches m'') : m.Matches m'' := by
  rw [Manifest.Matches, matched, matched']

/-- The same manifest in the same directory, which may be spelled in another way. -/
structure Manifest.Respells (m m' : Manifest) : Prop where
  matched : m.Matches m'
  directory : m.directory.same m'.directory = true

namespace Manifest.Respells

theorem refl (m : Manifest) : m.Respells m := ⟨.refl m, Path.same_iff.mpr ⟨rfl, rfl⟩⟩

theorem symm {m m' : Manifest} (respells : m.Respells m') : m'.Respells m :=
  ⟨respells.matched.symm, Path.same_symm respells.directory⟩

theorem trans {m m' m'' : Manifest} (respells : m.Respells m') (respells' : m'.Respells m'') :
    m.Respells m'' :=
  ⟨respells.matched.trans respells'.matched, Path.same_trans respells.directory respells'.directory⟩

theorem rel_matches {m m' : Option Manifest} (related : Option.Rel Manifest.Respells m m') :
    Option.Rel Manifest.Matches m m' := by
  cases related with
  | none => exact .none
  | some respells => exact .some respells.matched

end Manifest.Respells

namespace Manifests

/-- The path of a manifest in some directory. -/
def IsManifestPath (path : Path) : Prop := ∃ directory :
    Path, path = directory.child Manifest.fileName

/-- What is remembered about manifests is true of a disk. -/
structure Faithful (known : Manifests) (d : Disk) : Prop where
  found : ∀ entry ∈ known.found, IsManifestPath entry.1 ∧ fetch d entry.1 = .ok (some entry.2)
  absent : ∀ path ∈ known.absent, IsManifestPath path ∧ fetch d path = .ok none

theorem faithful_empty (boundary : Option Path) (d : Disk) : (empty boundary).Faithful d :=
  ⟨fun _ member => absurd member List.not_mem_nil, fun _ member => absurd member List.not_mem_nil⟩

theorem IsManifestPath.endsInName {path : Path} (manifest : IsManifestPath path) :
    Disk.EndsInName path := by
  obtain ⟨directory, rfl⟩ := manifest
  rw [Path.child_eq directory (by decide)]
  exact ⟨directory.stem, Manifest.fileName, rfl, by decide⟩

/-- Reading a manifest by another spelling of its path gives the same manifest. -/
theorem fetch_same {d : Disk} {path path' : Path} (same : path.same path' = true)
    (manifest : IsManifestPath path) (manifest' : IsManifestPath path') {found : Option Manifest}
    (fetched : fetch d path = .ok found) :
    ∃ found', fetch d path' = .ok found' ∧ Option.Rel Manifest.Respells found found' := by
  have read : d.read path = d.read path' := by
    simp only [Disk.read, Disk.file, Disk.find_eq_of_same same manifest.endsInName
      manifest'.endsInName]
  unfold fetch at fetched ⊢
  rw [← read]
  split at fetched
  · rename_i bytes there
    rw [Manifest.read] at fetched ⊢
    split at fetched
    · rename_i fields _
      cases fetched
      obtain ⟨directory, rfl⟩ := manifest
      obtain ⟨directory', rfl⟩ := manifest'
      exact ⟨_, rfl, .some ⟨rfl, Path.same_of_child (by decide) same⟩⟩
    · cases fetched
  · cases fetched
    exact ⟨none, rfl, .none⟩
  · cases fetched
    exact ⟨none, rfl, .none⟩
  · cases fetched
    exact ⟨none, rfl, .none⟩
  · cases fetched

theorem Faithful.found? {known : Manifests} {d : Disk} (faithful : known.Faithful d)
    {path : Path} {manifest : Manifest} (manifestPath : IsManifestPath path)
    (found : known.found? path = some manifest) :
    ∃ fetched, fetch d path = .ok (some fetched) ∧ manifest.Respells fetched := by
  unfold Manifests.found? at found
  obtain ⟨entry, first, rfl⟩ := Option.map_eq_some_iff.mp found
  have same : entry.1.same path = true := by simpa using List.find?_some first
  obtain ⟨entryPath, there⟩ := faithful.found entry (List.mem_of_find?_eq_some first)
  obtain ⟨fetched, fetchedHere, related⟩ := fetch_same same entryPath manifestPath there
  cases related with
  | some matched => exact ⟨_, fetchedHere, matched⟩

/-- What is known about a path is what reading it gives. -/
theorem Faithful.lookUp {known : Manifests} {d : Disk} (faithful : known.Faithful d)
    {path : Path} {answer : Option Manifest} (manifestPath : IsManifestPath path)
    (found : known.lookUp path = some answer) :
    ∃ fetched, fetch d path = .ok fetched ∧ Option.Rel Manifest.Respells answer fetched := by
  unfold Manifests.lookUp at found
  split at found
  · rename_i manifest there
    cases found
    obtain ⟨fetched, fetchedHere, matched⟩ := faithful.found? manifestPath there
    exact ⟨some fetched, fetchedHere, .some matched⟩
  · split at found
    · rename_i present
      cases found
      obtain ⟨path', member, same⟩ := List.any_eq_true.mp present
      obtain ⟨absentPath, there⟩ := faithful.absent path' member
      obtain ⟨fetched, fetchedHere, related⟩ := fetch_same same absentPath manifestPath there
      cases related
      exact ⟨none, fetchedHere, .none⟩
    · cases found

theorem Faithful.record {known : Manifests} {d : Disk} (faithful : known.Faithful d)
    {path : Path} {read : Option Manifest} (manifestPath : IsManifestPath path)
    (fetched : fetch d path = .ok read) :
    Option.Rel Manifest.Respells (known.record path read).1 read ∧
      (known.record path read).2.Faithful d ∧
      (known.record path read).2.boundary = known.boundary := by
  cases read with
  | none =>
      refine ⟨.none, ⟨faithful.found, ?_⟩, rfl⟩
      intro path' member
      rcases List.mem_cons.mp member with rfl | earlier
      · exact ⟨manifestPath, fetched⟩
      · exact faithful.absent path' earlier
  | some manifest =>
      cases earlier : known.found? path with
      | some first =>
          obtain ⟨again, fetchedAgain, matched⟩ := faithful.found? manifestPath earlier
          cases fetched.symm.trans fetchedAgain
          simp only [Manifests.record, earlier]
          exact ⟨.some matched, faithful, trivial⟩
      | none =>
          simp only [Manifests.record, earlier]
          refine ⟨.some (.refl manifest), ⟨?_, faithful.absent⟩, trivial⟩
          intro entry member
          rcases List.mem_cons.mp member with rfl | before
          · exact ⟨manifestPath, fetched⟩
          · exact faithful.found entry before

end Manifests

/-! ## Questions that answer alike -/

namespace Query

variable {α β γ δ : Type}

@[simp] theorem run_pure (a : α) (d : Disk) (known : Manifests) :
    ((pure a : Query α) d).run known = (.ok a, known) := rfl

@[simp] theorem run_read (d : Disk) (known : Manifests) :
    ((read : Query Disk) d).run known = (.ok d, known) := rfl

@[simp] theorem run_ask (g : Disk → Outcome α) (d : Disk) (known : Manifests) :
    ((ask g) d).run known = (g d, known) := rfl

@[simp] theorem run_test (g : Disk → Bool) (d : Disk) (known : Manifests) :
    ((test g) d).run known = (.ok (g d), known) := rfl

@[simp] theorem run_bind (q : Query α) (f : α → Query γ) (d : Disk) (known : Manifests) :
    ((q >>= f) d).run known =
      match (q d).run known with
      | (.ok a, later) => (f a d).run later
      | (.error fault, later) => (.error fault, later) := by
  show (match (q d).run known with
    | (outcome, later) => ExceptT.bindCont (fun a => f a d) outcome later) = _
  rcases (q d).run known with ⟨outcome | outcome, later⟩ <;> rfl

@[simp] theorem run_map (f : α → β) (q : Query α) (d : Disk) (known : Manifests) :
    ((f <$> q) d).run known = (((q d).run known).1.map f, ((q d).run known).2) := by
  rw [map_eq_pure_bind, run_bind]
  rcases (q d).run known with ⟨outcome | outcome, later⟩ <;> rfl

theorem run_tryCatch (q : Query α) (handle : Fault → Query α) (d : Disk) (known : Manifests) :
    ((tryCatch q handle) d).run known =
      match (q d).run known with
      | (.ok a, later) => (.ok a, later)
      | (.error fault, later) => (handle fault d).run later := by
  rcases result : (q d).run known with ⟨outcome, later⟩
  change q d known = (outcome, later) at result
  change ExceptT.tryCatch (q d) (fun fault => handle fault d) known = _
  cases outcome <;> simp only [ExceptT.tryCatch, ExceptT.mk, bind, StateT.bind, result] <;> rfl

/-- The same fault, or values that are related. -/
inductive SameOutcome (related : α → β → Prop) : Outcome α → Outcome β → Prop
  | ok {a : α} {b : β} (values : related a b) : SameOutcome related (.ok a) (.ok b)
  | error (fault : Fault) : SameOutcome related (.error fault) (.error fault)

/-- Two runs that have come to the same outcome and know nothing but the truth. -/
structure SameEnd (related : α → β → Prop) (d : Disk) (limit : Option Path)
    (result : Outcome α × Manifests) (result' : Outcome β × Manifests) : Prop where
  outcome : SameOutcome related result.1 result'.1
  faithful : result.2.Faithful d
  faithful' : result'.2.Faithful d
  boundary : result.2.boundary = limit
  boundary' : result'.2.boundary = limit

/-- Two questions that answer alike on a disk, whatever is known about it. -/
def Alike (related : α → β → Prop) (d : Disk) (q : Query α) (q' : Query β) : Prop :=
  ∀ ⦃known known' : Manifests⦄, known.Faithful d → known'.Faithful d →
    known'.boundary = known.boundary →
      SameEnd related d known.boundary ((q d).run known) ((q' d).run known')

/-- A question whose answer does not depend on what is known. -/
abbrev Steady (d : Disk) (q : Query α) : Prop := Alike (· = ·) d q q

variable {d : Disk} {q : Query α} {q' : Query β} {f : α → Query γ} {f' : β → Query δ}
  {related : α → β → Prop} {related' : γ → δ → Prop}

namespace Alike

theorem pure {a : α} {b : β} (values : related a b) :
    Alike related d (Pure.pure a) (Pure.pure b) :=
  fun _ _ faithful faithful' sameBoundary => ⟨.ok values, faithful, faithful', rfl, sameBoundary⟩

theorem throw (fault : Fault) :
    Alike related d (MonadExcept.throw fault) (MonadExcept.throw fault) :=
  fun _ _ faithful faithful' sameBoundary =>
    ⟨.error fault, faithful, faithful', rfl, sameBoundary⟩

theorem bind (first : Alike related d q q')
    (next : ∀ a b, related a b → Alike related' d (f a) (f' b)) :
    Alike related' d (q >>= f) (q' >>= f') := by
  intro known known' faithful faithful' sameBoundary
  have firstEnd := first faithful faithful' sameBoundary
  rw [run_bind, run_bind]
  generalize (q d).run known = ended at firstEnd ⊢
  generalize (q' d).run known' = ended' at firstEnd ⊢
  obtain ⟨result, later⟩ := ended
  obtain ⟨result', later'⟩ := ended'
  obtain ⟨outcome, learns, learns', boundary, boundary'⟩ := firstEnd
  cases outcome with
  | ok values =>
      have nextEnd := next _ _ values learns learns' (boundary'.trans boundary.symm)
      rwa [boundary] at nextEnd
  | error fault => exact ⟨.error fault, learns, learns', boundary, boundary'⟩

/-- What is alike needs to be alike only after the same answer to a steady question. -/
theorem andThen {ε : Type} {related : γ → ε → Prop} {g : α → Query γ} {g' : α → Query ε}
    (first : Steady d q) (next : ∀ a, Alike related d (g a) (g' a)) :
    Alike related d (q >>= g) (q >>= g') := by
  refine Alike.bind first ?_
  rintro a _ rfl
  exact next a

theorem ite {p : Prop} [Decidable p] {yes no : Query α} {yes' no' : Query β}
    (positive : Alike related d yes yes') (negative : Alike related d no no') :
    Alike related d (if p then yes else no) (if p then yes' else no') := by
  split
  · exact positive
  · exact negative

/-- A question that is put only to the disk. -/
theorem ask (g : Disk → Outcome α) : Steady d (Query.ask g) := by
  intro known known' faithful faithful' sameBoundary
  refine ⟨?_, faithful, faithful', rfl, sameBoundary⟩
  show SameOutcome _ (g d) (g d)
  cases g d with
  | ok a => exact .ok rfl
  | error fault => exact .error fault

theorem test (g : Disk → Bool) : Steady d (Query.test g) :=
  fun _ _ faithful faithful' sameBoundary => ⟨.ok rfl, faithful, faithful', rfl, sameBoundary⟩

theorem read : Steady d (MonadReader.read : Query Disk) :=
  fun _ _ faithful faithful' sameBoundary => ⟨.ok rfl, faithful, faithful', rfl, sameBoundary⟩

/-- What is known may differ, but not how far a search upwards looks. -/
theorem knowledge :
    Alike (fun known known' => known.boundary = known'.boundary) d (get : Query Manifests) get :=
  fun _ _ faithful faithful' sameBoundary =>
    ⟨.ok sameBoundary.symm, faithful, faithful', rfl, sameBoundary⟩

theorem mapM {ι : Type} {g : ι → Query α} {g' : ι → Query β} (items : List ι)
    (each : ∀ item ∈ items, Alike related d (g item) (g' item)) :
    Alike (List.Forall₂ related) d (items.mapM g) (items.mapM g') := by
  induction items with
  | nil => exact .pure .nil
  | cons item rest ih =>
      rw [List.mapM_cons, List.mapM_cons]
      refine .bind (each item List.mem_cons_self) fun a b values => ?_
      refine .bind (ih fun other member => each other (List.mem_cons_of_mem _ member)) ?_
      intro as bs found
      exact .pure (.cons values found)

end Alike

/-- The answer to a question, for a run that knows nothing yet. -/
def answer (q : Query α) (d : Disk) (boundary : Option Path) : Outcome α :=
  ((q d).run (.empty boundary)).1

end Query

/-! ## Loading manifests -/

namespace Manifests

/-- Loading a manifest: what is known about its path, or else what reading it gives. -/
theorem run_load (directory : Path) (d : Disk) (known : Manifests) :
    ((load directory) d).run known =
      match known.lookUp (directory.child Manifest.fileName) with
      | some answer => (.ok answer, known)
      | none =>
        match fetch d (directory.child Manifest.fileName) with
        | .ok read =>
          (.ok (known.record (directory.child Manifest.fileName) read).1,
            (known.record (directory.child Manifest.fileName) read).2)
        | .error fault => (.error fault, known) := by
  show (match known.lookUp (directory.child Manifest.fileName) with
      | some answer => (Pure.pure answer : Query (Option Manifest))
      | none =>
        (Query.ask fun x => fetch x (directory.child Manifest.fileName)) >>= fun read =>
          modifyGet fun known : Manifests =>
            known.record (directory.child Manifest.fileName) read) d known = _
  cases known.lookUp (directory.child Manifest.fileName) with
  | some answer => rfl
  | none =>
      refine (Query.run_bind _ _ d known).trans ?_
      rw [Query.run_ask]
      cases fetch d (directory.child Manifest.fileName) <;> rfl

/-- A run that knows nothing but the truth gets the manifest that is there, up to the spelling of
its directory, and learns the truth. -/
theorem Faithful.run_load {known : Manifests} {d : Disk} (faithful : known.Faithful d)
    (directory : Path) :
    Query.SameOutcome (Option.Rel Manifest.Respells) (((load directory) d).run known).1
        (fetch d (directory.child Manifest.fileName)) ∧
      (((load directory) d).run known).2.Faithful d ∧
      (((load directory) d).run known).2.boundary = known.boundary := by
  have manifestPath : IsManifestPath (directory.child Manifest.fileName) := ⟨directory, rfl⟩
  rw [Manifests.run_load]
  cases looked : known.lookUp (directory.child Manifest.fileName) with
  | some answer =>
      obtain ⟨fetched, there, respells⟩ := faithful.lookUp manifestPath looked
      rw [there]
      exact ⟨.ok respells, faithful, rfl⟩
  | none =>
      cases there : fetch d (directory.child Manifest.fileName) with
      | error fault => exact ⟨.error fault, faithful, rfl⟩
      | ok read =>
          obtain ⟨respells, learns, boundary⟩ := faithful.record manifestPath there
          exact ⟨.ok respells, learns, boundary⟩

theorem load_alike (d : Disk) (directory : Path) :
    Query.Alike (Option.Rel Manifest.Respells) d (load directory) (load directory) := by
  intro known known' faithful faithful' sameBoundary
  obtain ⟨outcome, learns, boundary⟩ := faithful.run_load directory
  obtain ⟨outcome', learns', boundary'⟩ := faithful'.run_load directory
  refine ⟨?_, learns, learns', boundary, boundary'.trans sameBoundary⟩
  generalize fetch d (directory.child Manifest.fileName) = there at outcome outcome'
  generalize (((load directory) d).run known).1 = answer at outcome ⊢
  generalize (((load directory) d).run known').1 = answer' at outcome' ⊢
  cases outcome with
  | error fault =>
      cases outcome' with
      | error => exact .error fault
  | ok respells =>
      cases outcome' with
      | ok respells' =>
          cases respells with
          | none =>
              cases respells' with
              | none => exact .ok .none
          | some first =>
              cases respells' with
              | some second => exact .ok (.some (first.trans second.symm))

theorem findIn_alike (d : Disk) (directories : List Path) :
    Query.Alike (Option.Rel Manifest.Respells) d (findIn directories) (findIn directories) := by
  induction directories with
  | nil => exact .pure .none
  | cons directory rest ih =>
      refine .bind (load_alike d directory) fun m m' related => ?_
      cases related with
      | some respells => exact .pure (.some respells)
      | none =>
          refine .bind .knowledge fun known known' sameBoundary => ?_
          show Query.Alike _ d (if known.boundary.any (·.same directory) then _ else _)
            (if known'.boundary.any (·.same directory) then _ else _)
          rw [sameBoundary]
          exact .ite (.pure .none) ih

theorem find_alike (d : Disk) (directory : Path) :
    Query.Alike (Option.Rel Manifest.Respells) d (find directory) (find directory) :=
  findIn_alike d _

end Manifests

/-- Whatever is read off a manifest apart from its directory is the same. -/
theorem Manifest.bind_eq_of_matches {γ : Type} {m m' : Option Manifest}
    (related : Option.Rel Manifest.Matches m m') (f : Manifest → Option γ)
    (blind : ∀ (m : Manifest) (directory : Path), f { m with directory } = f m) :
    m.bind f = m'.bind f := by
  cases related with
  | none => rfl
  | @some first second matched =>
      show f first = f second
      rw [matched]
      exact blind second _

/-- A question stays steady that loads a manifest and looks at all but its directory. -/
theorem Query.Alike.andLoad {γ : Type} {d : Disk} {directory : Path} {f : Option Manifest → Query γ}
    (blind : ∀ m m', Option.Rel Manifest.Matches m m' → f m = f m')
    (next : ∀ m, Steady d (f m)) : Steady d (Manifests.load directory >>= f) := by
  refine .bind (Manifests.load_alike d directory) ?_
  intro m m' related
  rw [blind m m' (Manifest.Respells.rel_matches related)]
  exact next m'

end FunctionArchive
