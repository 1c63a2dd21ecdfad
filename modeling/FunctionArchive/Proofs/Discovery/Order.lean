import FunctionArchive.Proofs.Discovery
import FunctionArchive.Proofs.Disk.Lookup
import FunctionArchive.Proofs.Text.Utf8

/-!
# The order in which directories are listed

Two trees that hold the same entries may list them in different orders (`Node.Reordered`). A look-up
goes by names and never by positions, so it leads to the same names in both trees
(`Reordered.find`). What is read there is the same, and a directory holds the same names, although
in an order of its own.

A listing of functions goes through its directories as they are given and through the names of each
in the order of their bytes (`GoesThrough`), so it does not matter in which order the file system
lists a directory. On its way it takes the function at each child, unless it has taken one of that
name before; a child that is no function, or of a language that cannot be packed, leaves no trace
(`Takes`). So of each name the first function is kept (`discover_takes_first`).
-/

set_option autoImplicit false

namespace FunctionArchive.Disk

variable {root root' n n' : Node} {d d' : Disk} {p : Path} {entries entries' : List (String × Node)}

namespace Node

/-- Two trees with the same entries, each directory listed in an order of its own. -/
inductive Reordered : Node → Node → Prop
  | file (f : File) : Reordered (.file f) (.file f)
  | link (target : String) : Reordered (.link target) (.link target)
  | directory {entries entries' : List (String × Node)}
      (names : (entries.map Prod.fst).Perm (entries'.map Prod.fst))
      (below : ∀ name n n', entries.lookup name = some n → entries'.lookup name = some n' →
        Reordered n n') :
      Reordered (.directory entries) (.directory entries')

theorem Reordered.symm (same : Reordered n n') : Reordered n' n := by
  induction same with
  | file f => exact .file f
  | link target => exact .link target
  | directory names _ ih =>
      exact .directory names.symm fun name n n' found found' => ih name n' n found' found

theorem lookup_isSome_iff {name : String} :
    (entries.lookup name).isSome = true ↔ name ∈ entries.map Prod.fst := by
  rw [← Option.ne_none_iff_isSome, ne_eq, List.lookup_eq_none_iff]
  simp

/-- A name leads to entries that differ in the order of listing only. -/
theorem Reordered.lookup {name : String}
    (same : Reordered (.directory entries) (.directory entries'))
    (found : entries.lookup name = some n) :
    ∃ n', entries'.lookup name = some n' ∧ Reordered n n' := by
  cases same with
  | directory names below =>
      have among : name ∈ entries.map Prod.fst := lookup_isSome_iff.mp (found ▸ rfl)
      obtain ⟨n', found'⟩ :=
        Option.isSome_iff_exists.mp (lookup_isSome_iff.mpr (names.mem_iff.mp among))
      exact ⟨n', found', below name n n' found found'⟩

theorem Reordered.at? {names : List String} (same : Reordered root root')
    (there : root.at? names = some n) : ∃ n', root'.at? names = some n' ∧ Reordered n n' := by
  induction names generalizing root root' with
  | nil =>
      cases there
      exact ⟨root', rfl, same⟩
  | cons name rest ih =>
      obtain ⟨inner, found, further⟩ := Option.bind_eq_some_iff.mp there
      cases root with
      | file f => cases found
      | link target => cases found
      | directory entries =>
          cases same with
          | directory names below =>
              obtain ⟨inner', found', same⟩ := (Reordered.directory names below).lookup found
              obtain ⟨n', there', same⟩ := ih same further
              exact ⟨n', Option.bind_eq_some_iff.mpr ⟨inner', found', there'⟩, same⟩

theorem Reordered.directory_at? {names : List String} (same : Reordered root root')
    (there : root.at? names = some (.directory entries)) :
    ∃ entries', root'.at? names = some (.directory entries') ∧
      Reordered (.directory entries) (.directory entries') := by
  obtain ⟨n', there', same⟩ := same.at? there
  cases same with
  | directory names below => exact ⟨_, there', .directory names below⟩

end Node

open Node (Reordered)

/-! ## Look-ups -/

theorem Leads.reordered {followLast : Bool} {links : Nat} {here pending : List String}
    {place : Place} (same : Reordered root root')
    (leads : Leads root followLast links here pending place) :
    ∃ n', Leads root' followLast links here pending ⟨place.names, n'⟩ ∧
      Reordered place.node n' := by
  induction leads with
  | arrive there =>
      obtain ⟨n', there', same⟩ := same.at? there
      exact ⟨n', .arrive there', same⟩
  | stay directory redundant _ ih =>
      obtain ⟨_, directory', -⟩ := same.directory_at? directory
      obtain ⟨n', onward, same⟩ := ih
      exact ⟨n', .stay directory' redundant onward, same⟩
  | up directory _ ih =>
      obtain ⟨_, directory', -⟩ := same.directory_at? directory
      obtain ⟨n', onward, same⟩ := ih
      exact ⟨n', .up directory' onward, same⟩
  | down directory named notUp found notLink _ ih =>
      obtain ⟨_, directory', inside⟩ := same.directory_at? directory
      obtain ⟨inner', found', same'⟩ := inside.lookup found
      obtain ⟨n', onward, same⟩ := ih
      refine ⟨n', .down directory' named notUp found' (fun target isLink => ?_) onward, same⟩
      subst isLink
      cases same' with
      | link target => exact notLink target rfl
  | stop directory named notUp found notFollowed =>
      obtain ⟨_, directory', inside⟩ := same.directory_at? directory
      obtain ⟨inner', found', same'⟩ := inside.lookup found
      cases same' with
      | link => exact ⟨_, .stop directory' named notUp found' notFollowed, .link _⟩
  | follow directory named notUp found followed _ ih =>
      obtain ⟨_, directory', inside⟩ := same.directory_at? directory
      obtain ⟨inner', found', same'⟩ := inside.lookup found
      obtain ⟨n', onward, same⟩ := ih
      cases same' with
      | link => exact ⟨n', .follow directory' named notUp found' followed onward, same⟩

/-- Two disks with the same content that may list their directories in different orders. -/
structure Reordered (d d' : Disk) : Prop where
  root : d.root.Reordered d'.root
  current : d.current = d'.current

namespace Reordered

theorem symm (same : d.Reordered d') : d'.Reordered d :=
  ⟨same.root.symm, same.current.symm⟩

/-- A path leads to the same names. -/
theorem find {place : Place} (same : d.Reordered d') (found : d.find p = .ok place) :
    ∃ n', d'.find p = .ok ⟨place.names, n'⟩ ∧ place.node.Reordered n' := by
  have pending : d'.namesOf p = d.namesOf p := by
    rw [namesOf, namesOf, same.current]
  unfold Disk.find lookUp at found ⊢
  rw [pending]
  split at found
  · cases found
  · next named =>
    obtain ⟨n', leads, alike⟩ := (leads_of_walk found).reordered same.root
    exact ⟨n', by rw [if_neg named, leads.walk_eq], alike⟩

theorem isFile (same : d.Reordered d') (isFile : d.isFile p = true) : d'.isFile p = true := by
  unfold Disk.isFile at isFile ⊢
  split at isFile
  · next found =>
    obtain ⟨n', found', alike⟩ := same.find found
    cases alike with
    | file f => rw [found']
  · cases isFile

theorem isFile_eq (same : d.Reordered d') : d'.isFile = d.isFile := by
  funext p
  rw [Bool.eq_iff_iff]
  exact ⟨same.symm.isFile, same.isFile⟩

theorem isDirectory (same : d.Reordered d') (isDirectory : d.isDirectory p = true) :
    d'.isDirectory p = true := by
  unfold Disk.isDirectory at isDirectory ⊢
  split at isDirectory
  · next found =>
    obtain ⟨n', found', alike⟩ := same.find found
    cases alike with
    | directory names below => rw [found']
  · cases isDirectory

theorem read {bytes : List UInt8} (same : d.Reordered d') (read : d.read p = .ok bytes) :
    d'.read p = .ok bytes := by
  unfold Disk.read file at read ⊢
  split at read
  · next found =>
    obtain ⟨n', found', alike⟩ := same.find found
    cases alike with
    | file f => rw [found', ← read]
  · cases read
  · cases read

/-- A directory holds the same names. -/
theorem list {names : List String} (same : d.Reordered d') (listed : d.list p = .ok names) :
    ∃ names', d'.list p = .ok names' ∧ names.Perm names' := by
  unfold Disk.list entries at listed ⊢
  split at listed
  · next found =>
    obtain ⟨n', found', alike⟩ := same.find found
    cases alike with
    | directory alike below =>
        cases listed
        exact ⟨_, by rw [found']; rfl, alike⟩
  · cases listed
  · cases listed

end Reordered

end FunctionArchive.Disk

namespace FunctionArchive

variable {d d' : Disk} {s : Settings} {path entry directory : Path} {directories paths : List Path}
  {f : FunctionSource} {found functions : List FunctionSource}

/-! ## The order of listing does not matter -/

namespace FunctionSource

theorem nameAndEntry?_reordered {named : Option (String × Path)} (same : d.Reordered d')
    (isNamed : nameAndEntry? d path = .ok named) : nameAndEntry? d' path = .ok named := by
  unfold nameAndEntry? at isNamed ⊢
  split at isNamed
  · cases isNamed
  · next found =>
    obtain ⟨n', found', alike⟩ := same.find found
    cases alike with
    | directory => rw [found', ← isNamed, same.isFile_eq]
  · next place notDirectory found =>
    obtain ⟨n', found', alike⟩ := same.find found
    obtain ⟨names, n⟩ := place
    cases alike with
    | file f => rw [found', ← isNamed]
    | link target => rw [found', ← isNamed]
    | directory => exact absurd rfl (notDirectory _ _)

theorem runtimeOf_reordered {runtime? : Option Runtime} (same : d.Reordered d')
    (classified : runtimeOf d entry = .ok runtime?) : runtimeOf d' entry = .ok runtime? := by
  unfold runtimeOf at classified ⊢
  dsimp only at classified ⊢
  split_ifs at classified ⊢
  · exact classified
  · exact classified
  · exact classified
  · split at classified
    · next read => rw [same.read read, ← classified]
    · cases classified

theorem ofPath_reordered {function? : Option FunctionSource} (same : d.Reordered d')
    (made : ofPath d s path = .ok function?) : ofPath d' s path = .ok function? := by
  unfold ofPath at made ⊢
  obtain ⟨named, isNamed, made⟩ := Disk.ok_of_bind made
  rw [nameAndEntry?_reordered same isNamed]
  rcases named with _ | ⟨name, entry⟩
  · exact made
  · obtain ⟨runtime?, classified, made⟩ := Disk.ok_of_bind made
    show (runtimeOf d' entry >>= _) = _
    rw [runtimeOf_reordered same classified, ← same.current]
    exact made

theorem at?_eq_some_iff : at? d s path = some f ↔ ofPath d s path = .ok (some f) := by
  unfold at?
  rcases ofPath d s path with fault | _ | f' <;> simp [Except.toOption]

theorem at?_reordered (same : d.Reordered d') : at? d' s path = at? d s path := by
  refine Option.ext fun f => ?_
  rw [at?_eq_some_iff, at?_eq_some_iff]
  exact ⟨ofPath_reordered same.symm, ofPath_reordered same⟩

end FunctionSource

namespace Discovery

/-- The names of a directory that a listing goes through, in the order of their bytes: all but those
that start with a dot and the directory of packages. -/
structure GoesThrough (d : Disk) (directory : Path) (names : List String) : Prop where
  members : ∃ listed, d.list directory = .ok listed ∧
    names.Perm (listed.filter fun name => name.toList.head? ≠ some '.' ∧ name ≠ "node_modules")
  increasing : names.Pairwise fun a b => Utf8.encode a ≤ Utf8.encode b

theorem goesThrough_sorted {listed : List String} (isListed : d.list directory = .ok listed) :
    GoesThrough d directory
      ((listed.mergeSort fun a b => a ≤ b).filter fun name => !isHidden name) := by
  refine ⟨⟨listed, isListed, ?_⟩, ?_⟩
  · have kept : (fun name => !isHidden name) = fun name =>
        decide (name.toList.head? ≠ some '.' ∧ name ≠ "node_modules") := by
      funext name
      simp [isHidden, Resolution.packagesName, Bool.beq_eq_decide_eq]
    rw [kept]
    exact (List.mergeSort_perm _ _).filter _
  · refine List.Pairwise.filter _ ?_
    have ordered : (listed.mergeSort fun a b => a ≤ b).Pairwise fun a b =>
        decide (a ≤ b) = true := by
      refine List.pairwise_mergeSort (fun a b c first second => ?_) (fun a b => ?_) _
      · rw [decide_eq_true_eq] at *
        exact first.trans second
      · simpa using le_total a b
    refine ordered.imp fun {a b} before => ?_
    rw [decide_eq_true_eq] at before
    exact fun after => absurd (Utf8.encode_lt_iff.mp after) (not_lt_of_ge before)

/-- However a directory is listed, a listing goes through the same names in the same order. -/
theorem GoesThrough.unique {names names' : List String} (through : GoesThrough d directory names)
    (through' : GoesThrough d directory names') : names = names' := by
  obtain ⟨listed, isListed, members⟩ := through.members
  obtain ⟨listed', isListed', members'⟩ := through'.members
  cases isListed.symm.trans isListed'
  refine List.Perm.eq_of_pairwise (fun a b _ _ before after => ?_) through.increasing
    through'.increasing (members.trans members'.symm)
  exact Utf8.encode_injective (List.le_antisymm before after)

theorem GoesThrough.reordered {names : List String} (same : d.Reordered d')
    (through : GoesThrough d directory names) : GoesThrough d' directory names := by
  obtain ⟨listed, isListed, members⟩ := through.members
  obtain ⟨listed', isListed', alike⟩ := same.list isListed
  exact ⟨⟨listed', isListed', members.trans (alike.filter _)⟩, through.increasing⟩

/-- The children of a directory that are looked at are those of the names gone through. -/
theorem goesThrough_children (children : children d directory = .ok paths) :
    ∃ names, GoesThrough d directory names ∧ paths = names.map directory.child := by
  unfold Discovery.children at children
  split_ifs at children
  split at children
  · next listed isListed =>
    cases children
    exact ⟨_, goesThrough_sorted isListed, rfl⟩
  · cases children

theorem candidates_reordered (same : d.Reordered d') :
    candidates d' directory = candidates d directory := by
  have kept {d d' : Disk} (same : d.Reordered d') (isDirectory : d.isDirectory directory = true) :
      candidates d' directory = candidates d directory := by
    obtain ⟨names, through, isMade⟩ := goesThrough_children (children_eq isDirectory)
    obtain ⟨names', through', isMade'⟩ :=
      goesThrough_children (children_eq (same.isDirectory isDirectory))
    rw [isMade, isMade', (through.reordered same).unique through']
  cases isDirectory : d.isDirectory directory with
  | true => exact kept same isDirectory
  | false =>
      cases isDirectory' : d'.isDirectory directory with
      | true => exact (kept same.symm isDirectory').symm
      | false => simp [candidates, Discovery.children, isDirectory, isDirectory']

theorem IsSource.reordered (same : d.Reordered d') (source : IsSource d directory) :
    IsSource d' directory := by
  refine ⟨same.isDirectory source.isDirectory, fun path child => ?_⟩
  rw [candidates_reordered same] at child
  obtain ⟨place, found⟩ := source.leads path child
  obtain ⟨n', found', -⟩ := same.find found
  exact ⟨_, found'⟩

theorem functionsIn_reordered (same : d.Reordered d') :
    functionsIn d' s directories = functionsIn d s directories := by
  have functions : FunctionSource.at? d' s = FunctionSource.at? d s :=
    funext fun path => FunctionSource.at?_reordered same
  have paths : candidates d' = candidates d := funext fun directory => candidates_reordered same
  rw [functionsIn, functionsIn, functions, paths]

/-! ## What is taken on the way -/

/-- What a listing takes at some paths one after the other, given the functions that it has taken
already. -/
inductive Takes (d : Disk) (s : Settings) :
    List FunctionSource → List Path → List FunctionSource → Prop
  | done {earlier : List FunctionSource} : Takes d s earlier [] []
  /-- Nothing at this path is a function. -/
  | pass {earlier functions : List FunctionSource} {path : Path} {rest : List Path}
      (none : FunctionSource.ofPath d s path = .ok none)
      (onward : Takes d s earlier rest functions) : Takes d s earlier (path :: rest) functions
  /-- What is at this path cannot be packed. -/
  | refuse {earlier functions : List FunctionSource} {path entry : Path} {reason : String}
      {rest : List Path}
      (refused : FunctionSource.ofPath d s path = .error (.unsupportedRuntime entry reason))
      (onward : Takes d s earlier rest functions) : Takes d s earlier (path :: rest) functions
  /-- A function of this name has been taken. -/
  | repeated {earlier functions : List FunctionSource} {path : Path} {rest : List Path}
      {f g : FunctionSource} (made : FunctionSource.ofPath d s path = .ok (some f))
      (taken : g ∈ earlier) (sameName : g.name = f.name)
      (onward : Takes d s earlier rest functions) : Takes d s earlier (path :: rest) functions
  | take {earlier functions : List FunctionSource} {path : Path} {rest : List Path}
      {f : FunctionSource} (made : FunctionSource.ofPath d s path = .ok (some f))
      (new : ∀ g ∈ earlier, g.name ≠ f.name)
      (onward : Takes d s (earlier ++ [f]) rest functions) :
      Takes d s earlier (path :: rest) (f :: functions)

/-- Children that lead somewhere are gone through to the end. -/
theorem takes_addAt {entries : List (String × Disk.Node)} (root : d.root = .directory entries)
    (leads : ∀ path ∈ paths, ∃ place, d.find path = .ok place) (earlier : List FunctionSource) :
    ∃ functions, Takes d s earlier paths functions ∧
      paths.foldl (addAt d s) earlier = earlier ++ functions := by
  induction paths generalizing earlier with
  | nil => exact ⟨[], .done, (List.append_nil _).symm⟩
  | cons path rest ih =>
      obtain ⟨⟨place, found⟩, leads⟩ := List.forall_mem_cons.mp leads
      have unchanged (noFunction : ∀ f, FunctionSource.ofPath d s path ≠ .ok (some f)) :
          addAt d s earlier path = earlier := by
        have nothing : FunctionSource.at? d s path = none :=
          Option.eq_none_iff_forall_ne_some.mpr fun f found =>
            noFunction f (FunctionSource.at?_eq_some_iff.mp found)
        simp [addAt, nothing]
      rw [List.foldl_cons]
      cases made : FunctionSource.ofPath d s path with
      | error fault =>
          obtain ⟨entry, reason, rfl⟩ := FunctionSource.ofPath_refused root found made
          obtain ⟨functions, onward, all⟩ := ih leads earlier
          exact ⟨functions, .refuse made onward, by rw [unchanged (by simp [made]), all]⟩
      | ok function? =>
          cases function? with
          | none =>
              obtain ⟨functions, onward, all⟩ := ih leads earlier
              exact ⟨functions, .pass made onward, by rw [unchanged (by simp [made]), all]⟩
          | some f =>
              have added : addAt d s earlier path = addNew earlier f := by
                simp [addAt, FunctionSource.at?_eq_some_iff.mpr made]
              rw [added, addNew]
              split
              · next repeated =>
                obtain ⟨g, taken, sameName⟩ := List.any_eq_true.mp repeated
                obtain ⟨functions, onward, all⟩ := ih leads earlier
                exact ⟨functions, .repeated made taken (eq_of_beq sameName) onward, all⟩
              · next new =>
                obtain ⟨functions, onward, all⟩ := ih leads (earlier ++ [f])
                refine ⟨f :: functions, .take made (fun g taken sameName => new ?_) onward, ?_⟩
                · exact List.any_eq_true.mpr ⟨g, taken, beq_iff_eq.mpr sameName⟩
                · rw [all, List.append_assoc, List.singleton_append]

/-- No two functions that are taken have one name. -/
theorem Takes.nodup {earlier : List FunctionSource} (takes : Takes d s earlier paths functions)
    (distinct : (earlier.map (·.name)).Nodup) : ((earlier ++ functions).map (·.name)).Nodup := by
  induction takes with
  | done => simpa using distinct
  | pass _ _ ih | refuse _ _ ih | repeated _ _ _ _ ih => exact ih distinct
  | @take earlier _ _ _ f _ new _ ih =>
      rw [List.append_cons]
      refine ih ?_
      rw [List.map_append, List.nodup_append]
      refine ⟨distinct, List.nodup_singleton _, ?_⟩
      rintro name taken name' isNew rfl
      obtain ⟨g, among, rfl⟩ := List.mem_map.mp taken
      exact new g among (by simpa using isNew)

/-- **Of each name the first function is kept.** When functions can be listed, the list holds what
is taken from the children of the directories as they are given, and from those of one directory in
the order of the bytes of their names. No two functions have one name, and on any disk with the same
content the same functions are listed, in whichever order its directories list their names. -/
theorem discover_takes_first (s : Settings) (directories : List Path) (w : World)
    (functions : List FunctionSource)
    (listed : ((discover s directories).run w).1 = .ok functions) :
    (∃ names : Path → List String,
        (∀ directory ∈ directories, GoesThrough w.disk directory (names directory)) ∧
        Takes w.disk s []
          (directories.flatMap fun directory => (names directory).map directory.child) functions) ∧
      (functions.map (·.name)).Nodup ∧
      ∀ w' : World, w.disk.Reordered w'.disk →
        ((discover s directories).run w').1 = .ok functions := by
  have ended := discover_ends (s := s) directories w rfl
  generalize (discover s directories).run w = result at ended listed
  obtain ⟨outcome, w₁⟩ := result
  cases listed
  obtain ⟨sources, isListed⟩ := Work.ended_ok.mp ended
  have through : ∃ names : Path → List String, ∀ directory ∈ directories,
      GoesThrough w.disk directory (names directory) ∧
        candidates w.disk directory = (names directory).map directory.child := by
    have each (directory : Path) : ∃ names, directory ∈ directories →
        GoesThrough w.disk directory names ∧
          candidates w.disk directory = names.map directory.child := by
      by_cases member : directory ∈ directories
      · obtain ⟨names, through⟩ :=
          goesThrough_children (children_eq (sources directory member).isDirectory)
        exact ⟨names, fun _ => through⟩
      · exact ⟨[], fun member' => absurd member' member⟩
    exact ⟨fun directory => (each directory).choose, fun directory => (each directory).choose_spec⟩
  obtain ⟨names, through⟩ := through
  have paths : (directories.flatMap fun directory => (names directory).map directory.child) =
      directories.flatMap (candidates w.disk) :=
    List.flatMap_congr fun directory member => (through directory member).2.symm
  have takes : Takes w.disk s [] (directories.flatMap (candidates w.disk)) functions := by
    rw [isListed, functionsIn_eq, ← List.foldl_flatMap]
    cases directories with
    | nil => exact .done
    | cons directory rest =>
        obtain ⟨entries, root⟩ :=
          Disk.root_of_isDirectory (sources directory List.mem_cons_self).isDirectory
        obtain ⟨functions, takes, all⟩ := takes_addAt (s := s) root (fun path child => by
          obtain ⟨directory, member, child⟩ := List.mem_flatMap.mp child
          exact (sources directory member).leads path child) []
        rw [all]
        exact takes
  refine ⟨⟨names, fun directory member => (through directory member).1, paths ▸ takes⟩,
    takes.nodup List.nodup_nil, fun w' same => ?_⟩
  have ended' := discover_ends (s := s) directories w' rfl
  generalize (discover s directories).run w' = result at ended'
  obtain ⟨outcome, w₁'⟩ := result
  cases outcome with
  | ok functions' =>
      rw [(Work.ended_ok.mp ended').2, isListed, functionsIn_reordered same]
  | error fault =>
      obtain ⟨directory, member, notSource⟩ := (Work.ended_error.mp ended').not_isSource
      exact absurd ((sources directory member).reordered same) notSource

namespace Example

/-- Two directories of functions; a script of one and a directory of the other have one name. -/
def collisions : World where
  disk := ⟨.directory
    [("a", .directory [("hello", .directory [("index.mjs", .file ⟨[], 0o644, 0⟩)]),
        ("zeta.js", .file ⟨[], 0o644, 0⟩)]),
      ("b", .directory [("notes.py", .file ⟨[], 0o644, 0⟩),
        ("zeta", .directory [("index.js", .file ⟨[], 0o644, 0⟩)])])], .root, 0⟩
  manifests := .empty none
  journal := []

/-- The directories of these functions. -/
def collidingDirectories : List Path := [.ofNames ["a"], .ofNames ["b"]]

/-- The first function of each name. -/
def firstFunctions : List FunctionSource :=
  [⟨"hello", .ofNames ["a", "hello", "index.mjs"], .script, "mjs", {}⟩,
    ⟨"zeta", .ofNames ["a", "zeta.js"], .script, "js", {}⟩]

end Example

/-- A directory is hidden by a script of its name that was found earlier. -/
theorem discover_takes_first_collisions :
    ((discover Packing.plainSettings Example.collidingDirectories).run Example.collisions).1 =
        .ok Example.firstFunctions ∧
      (∃ names : Path → List String,
        (∀ directory ∈ Example.collidingDirectories,
          GoesThrough Example.collisions.disk directory (names directory)) ∧
        Takes Example.collisions.disk Packing.plainSettings []
          (Example.collidingDirectories.flatMap fun directory =>
            (names directory).map directory.child) Example.firstFunctions) ∧
      (Example.firstFunctions.map (·.name)).Nodup ∧
      ∀ w' : World, Example.collisions.disk.Reordered w'.disk →
        ((discover Packing.plainSettings Example.collidingDirectories).run w').1 =
          .ok Example.firstFunctions := by
  have listed : ((discover Packing.plainSettings Example.collidingDirectories).run
      Example.collisions).1 = .ok Example.firstFunctions := by cbv
  exact ⟨listed, discover_takes_first _ _ _ _ listed⟩

end Discovery

end FunctionArchive
