import FunctionArchive.Proofs.Disk.Staging
import FunctionArchive.Proofs.World

/-!
# Operations on children of a directory

What an operation does whose path names a child of a directory: it changes the entry of that name in
the directory that is entered, unless it goes through a link there. A child under whose name nothing
stands is not found (`lookUp_child_absent`), and neither is anything below it (`walk_missing`).

Directories that are missing are created and nothing else changes (`extends_of_createDirectories`).
A directory that is there is left as it is (`createDirectories_of_enters`).
-/

set_option autoImplicit false

namespace FunctionArchive.Disk

variable {d d' : Disk} {p q : Path} {dir names : List String} {name other : String} {x : Node}

/-- Whoever enters a child enters its directory, and then the child unless it is a link. -/
theorem Enters.of_child {inner : List String} (isName : Path.IsName name)
    (enters : d.Enters (p.child name) inner) :
    ∃ dir, d.Enters p dir ∧
      (inner = dir ++ [name] ∨ ∃ target, d.root.at? (dir ++ [name]) = some (.link target)) := by
  obtain ⟨entries, leads⟩ := enters
  rw [namesOf_child isName] at leads
  have found : d.lookUp true (p.child name) = .ok ⟨inner, .directory entries⟩ := by
    rw [lookUp_child isName]
    exact leads.walk_eq
  obtain ⟨dir, enters, ends⟩ := of_lookUp_child isName found
  exact ⟨dir, enters, ends.imp_right And.right⟩

theorem at?_put (enters : d.Enters p dir) (name : String) (node : Option Node) :
    (d.put (dir ++ [name]) node).root.at? (dir ++ [name]) = node := by
  obtain ⟨entries, there⟩ := enters.at?
  exact Node.at?_alter there name

theorem at?_put_other (enters : d.Enters p dir) (different : other ≠ name) (node : Option Node) :
    (d.put (dir ++ [name]) node).root.at? (dir ++ [other]) = d.root.at? (dir ++ [other]) := by
  obtain ⟨entries, there⟩ := enters.at?
  rw [Node.at?_concat_of_directory there]
  exact Node.at?_alter_ne there different

/-- A directory that is entered without some entry is entered with it. -/
theorem Enters.of_put_none (notEmpty : names ≠ []) (enters : (d.put names none).Enters p dir) :
    d.Enters p dir :=
  enters.extend (Node.extends_of_removed notEmpty d.root) rfl

/-- A directory is entered as before without a file, or without nothing. -/
theorem Enters.without_file (enters : d.Enters p dir)
    (lone : d.root.at? names = none ∨ ∃ f, d.root.at? names = some (.file f)) :
    (d.put names none).Enters p dir := by
  have off {elsewhere : List String} {n : Node} (different : elsewhere ≠ names)
      (found : d.root.at? elsewhere = some n) : ¬ names <+: elsewhere := by
    rintro ⟨deeper, rfl⟩
    rw [Node.at?_append] at found
    rcases lone with nothing | ⟨f, there⟩
    · simp [nothing] at found
    · cases deeper with
      | nil => simp at different
      | cons next deeper => simp [there, Node.at?, Node.child?] at found
  have keeps : d.root.Keeps (d.put names none).root (· = names) := by
    refine ⟨fun elsewhere n found different => ?_, ?_⟩
    · have looks := Node.outline_at?_alter (off different found) (fun _ => none) d.root
      rw [found] at looks
      exact Option.map_eq_some_iff.mp looks
    · rintro elsewhere n found rfl
      rcases lone with nothing | ⟨f, there⟩
      · cases nothing.symm.trans found
      · exact ⟨f, Option.some.inj (found.symm.trans there)⟩
  obtain ⟨entries, leads⟩ := enters
  have reached : dir ≠ names := by
    rintro rfl
    rcases lone with nothing | ⟨f, there⟩
    · cases nothing.symm.trans leads.at?_names
    · cases there.symm.trans leads.at?_names
  obtain ⟨m, leads', same⟩ := leads.transfer keeps reached
  obtain ⟨entries', rfl⟩ := Node.eq_directory_of_outline same
  exact ⟨entries', leads'⟩

/-! ## What is not there -/

section Missing

variable {root : Node} {followLast : Bool} {links : Nat} {here front back : List String}
  {mid : Place}

/-- A look-up goes on from where its first names lead. -/
theorem Leads.walk_append (leads : Leads root true links here front mid) (more : back ≠ [])
    (followLast : Bool) : ∃ links', walk root followLast links here (front ++ back) =
      walk root followLast links' mid.names back := by
  induction leads with
  | @arrive links _ _ there => exact ⟨links, rfl⟩
  | stay directory redundant _ ih =>
      obtain ⟨links', onward⟩ := ih
      exact ⟨links', by simp [walk, directory, redundant, onward]⟩
  | up directory _ ih =>
      obtain ⟨links', onward⟩ := ih
      exact ⟨links', by simp [walk, directory, Path.isRedundant, onward]⟩
  | @down _ _ _ _ _ node _ directory named notUp found notLink _ ih =>
      obtain ⟨links', onward⟩ := ih
      refine ⟨links', ?_⟩
      cases node with
      | link target => exact absurd rfl (notLink target)
      | file f => simpa [walk, directory, named, notUp, found] using onward
      | directory inner => simpa [walk, directory, named, notUp, found] using onward
  | stop directory named notUp found notFollowed => cases notFollowed
  | follow directory named notUp found followed _ ih =>
      obtain ⟨links', onward⟩ := ih
      refine ⟨links', ?_⟩
      rw [List.append_assoc] at onward
      simpa [walk, directory, named, notUp, found, more] using onward

/-- Below a directory nothing is found under names at the end of which nothing stands, if only
directories stand on the way. -/
theorem walk_missing (proper : ∀ part ∈ names, Path.IsName part)
    (directory : ∃ entries, root.at? here = some (.directory entries))
    (way : ∀ before n, before <+: names → root.at? (here ++ before) = some n →
      ∃ entries, n = .directory entries)
    (absent : root.at? (here ++ names) = none) (links : Nat) :
    walk root followLast links here names = .error .notFound := by
  induction names generalizing here with
  | nil =>
      obtain ⟨entries, there⟩ := directory
      rw [List.append_nil, there] at absent
      cases absent
  | cons name rest ih =>
      obtain ⟨entries, there⟩ := directory
      have isName : Path.IsName name := proper name List.mem_cons_self
      have step := Node.at?_concat_of_directory there name
      cases found : entries.lookup name with
      | none => simp [walk, there, isName.notRedundant, isName.2.2, found]
      | some n =>
          rw [found] at step
          obtain ⟨inner, rfl⟩ := way [name] n (by simp) step
          have onward : walk root followLast links (here ++ [name]) rest = .error .notFound := by
            refine ih (fun part member => proper part (List.mem_cons_of_mem _ member))
              ⟨inner, step⟩ (fun before n prefixed stands => ?_) ?_
            · refine way (name :: before) n (List.cons_prefix_cons.mpr ⟨rfl, prefixed⟩) ?_
              simpa using stands
            · simpa using absent
          simp [walk, there, isName.notRedundant, isName.2.2, found, onward]

variable (enters : d.Enters p dir) (isName : Path.IsName name)

include enters isName

/-- A child that is not there is not found. -/
theorem lookUp_child_absent (absent : d.root.at? (dir ++ [name]) = none) :
    d.lookUp followLast (p.child name) = .error .notFound := by
  obtain ⟨entries, leads⟩ := enters_stem.mpr enters
  obtain ⟨links', onward⟩ := leads.walk_append (List.cons_ne_nil name []) followLast
  rw [lookUp_child isName, onward]
  refine walk_missing (by simpa using isName) ⟨entries, leads.at?_names⟩ ?_ absent links'
  intro before n prefixed there
  rcases List.prefix_concat_iff.mp (show before <+: [] ++ [name] from prefixed) with rfl | nothing
  · cases absent.symm.trans there
  · rw [List.prefix_nil.mp nothing, List.append_nil] at there
    exact ⟨entries, Option.some.inj (there.symm.trans leads.at?_names)⟩

/-- Whoever enters a directory enters its child, if that is a directory. -/
theorem Enters.child {entries : List (String × Node)}
    (there : d.root.at? (dir ++ [name]) = some (.directory entries)) :
    d.Enters (p.child name) (dir ++ [name]) := by
  obtain ⟨outer, leads⟩ := enters_stem.mpr enters
  refine ⟨entries, ?_⟩
  rw [namesOf_child isName]
  exact leads.append (List.cons_ne_nil _ _) (leads_name isName leads.at?_names there (.inr nofun))

end Missing

/-! ## Creating and writing -/

theorem of_create_child {node : Node} (isName : Path.IsName name)
    (created : d.create (p.child name) node = .ok d') :
    ∃ dir, d.Enters p dir ∧ d.root.at? (dir ++ [name]) = none ∧
      d' = d.put (dir ++ [name]) (some node) := by
  unfold create at created
  obtain ⟨s, place, created⟩ := ok_of_bind created
  obtain ⟨enters, named⟩ := enters_of_slot_child isName place
  refine ⟨s.directory, enters, ?_⟩
  rw [← named]
  cases taken : d.occupant? s with
  | some n => simp [taken] at created
  | none =>
      simp only [taken, Except.ok.injEq] at created
      exact ⟨taken, created.symm⟩

/-- Writing at the path of a child sets a file there, unless it goes through a link. -/
theorem of_writeNew_child {mode : Nat} {data : List UInt8} (isName : Path.IsName name)
    (written : d.writeNew (p.child name) mode data = .ok d') :
    ∃ dir, d.Enters p dir ∧ ((∃ target, d.root.at? (dir ++ [name]) = some (.link target)) ∨
      (d.root.at? (dir ++ [name]) = none ∨ ∃ f, d.root.at? (dir ++ [name]) = some (.file f)) ∧
        ∃ f, d' = d.put (dir ++ [name]) (some (.file f))) := by
  unfold writeNew at written
  cases place : d.slot (p.child name) with
  | error fault => simp [target, place, bind, Except.bind] at written
  | ok s =>
      obtain ⟨enters, named⟩ := enters_of_slot_child isName place
      refine ⟨s.directory, enters, ?_⟩
      rw [← named]
      cases taken : d.occupant? s with
      | none =>
          simp only [target, place, bind, Except.bind, taken, Except.ok.injEq] at written
          exact .inr ⟨.inl taken, _, written.symm⟩
      | some n =>
          cases n with
          | link text => exact .inl ⟨text, taken⟩
          | file f =>
              simp only [target, place, bind, Except.bind, taken, Except.ok.injEq] at written
              exact .inr ⟨.inr ⟨f, taken⟩, _, written.symm⟩
          | directory entries =>
              simp [target, place, bind, Except.bind, taken] at written

/-- An operation at the path of a child did nothing or set a file there, unless it went through a
link. -/
def FilesChild (d : Disk) (p : Path) (name : String) (d' : Disk) : Prop :=
  ∃ dir, d.Enters p dir ∧ ((∃ target, d.root.at? (dir ++ [name]) = some (.link target)) ∨ d' = d ∨
    ∃ f, d' = d.put (dir ++ [name]) (some (.file f)))

theorem filesChild_of_write {data : List UInt8} (isName : Path.IsName name)
    (written : d.write (p.child name) data = .ok d') : d.FilesChild p name d' := by
  obtain ⟨dir, enters, ends⟩ := of_writeNew_child isName written
  exact ⟨dir, enters, ends.imp_right fun set => .inr set.2⟩

theorem filesChild_of_touch {change : File → File} (isName : Path.IsName name)
    (touched : d.touch (p.child name) change = .ok d') : d.FilesChild p name d' := by
  unfold touch at touched
  cases found : d.find (p.child name) with
  | error fault => simp [found, bind, Except.bind] at touched
  | ok place =>
      obtain ⟨dir, enters, ends⟩ := of_lookUp_child isName found
      refine ⟨dir, enters, ?_⟩
      rcases ends with named | ⟨-, isLink⟩
      · obtain ⟨names, node⟩ := place
        cases node with
        | file f =>
            simp only [found, bind, Except.bind, Except.ok.injEq] at touched
            exact .inr (.inr ⟨change f, by rw [← touched, ← named]⟩)
        | link target =>
            simp only [found, bind, Except.bind, Except.ok.injEq] at touched
            exact .inr (.inl touched.symm)
        | directory entries =>
            simp only [found, bind, Except.bind, Except.ok.injEq] at touched
            exact .inr (.inl touched.symm)
      · exact .inl isLink

/-- A file is written where no entry was. -/
theorem write_absent (enters : d.Enters p dir) (isName : Path.IsName name)
    (absent : d.root.at? (dir ++ [name]) = none) (data : List UInt8) :
    d.write (p.child name) data =
      .ok (d.put (dir ++ [name]) (some (.file ⟨data, newFileMode, d.now⟩))) := by
  have unoccupied : d.occupant? ⟨dir, name⟩ = none := absent
  have place : d.target (p.child name) (maxLinks + 1) = .ok ⟨dir, name⟩ := by
    rw [target, slot_child isName enters]
    simp [bind, Except.bind, unoccupied]
  simp [write, writeNew, place, bind, Except.bind, unoccupied, Slot.names]

/-- A directory is created where no entry was. -/
theorem createDirectory_absent (enters : d.Enters p dir) (isName : Path.IsName name)
    (absent : d.root.at? (dir ++ [name]) = none) :
    d.createDirectory (p.child name) = .ok (d.put (dir ++ [name]) (some (.directory []))) := by
  have unoccupied : d.occupant? ⟨dir, name⟩ = none := absent
  simp [createDirectory, create, slot_child isName enters, bind, Except.bind,
    unoccupied, Slot.names]

/-- The permission bits of a file are set where it stands. -/
theorem setMode_file {f : File} (enters : d.Enters p dir) (isName : Path.IsName name)
    (there : d.root.at? (dir ++ [name]) = some (.file f)) (mode : Nat) :
    d.setMode (p.child name) mode =
      .ok (d.put (dir ++ [name]) (some (.file { f with mode }))) := by
  have found : d.find (p.child name) = .ok ⟨dir ++ [name], .file f⟩ :=
    lookUp_child_eq isName enters there (.inr nofun)
  simp only [setMode, touch, found, bind, Except.bind]

theorem setMode_directory {entries : List (String × Node)} (enters : d.Enters p dir)
    (isName : Path.IsName name) (there : d.root.at? (dir ++ [name]) = some (.directory entries))
    (mode : Nat) : d.setMode (p.child name) mode = .ok d := by
  have found : d.find (p.child name) = .ok ⟨dir ++ [name], .directory entries⟩ :=
    lookUp_child_eq isName enters there (.inr nofun)
  simp only [setMode, touch, found, bind, Except.bind]

/-! ## Removing and moving -/

section Whole

variable (enters : d.Enters p dir) (isName : Path.IsName name)

include enters isName

/-- The entry of a child is found exactly when it is there. -/
theorem findEntry_child {place : Place} :
    d.findEntry (p.child name) = .ok place ↔
      d.root.at? (dir ++ [name]) = some place.node ∧ place.names = dir ++ [name] := by
  constructor
  · intro found
    obtain ⟨dir', enters', ends⟩ := of_lookUp_child isName found
    obtain rfl := enters'.unique enters
    have named : place.names = dir' ++ [name] := ends.resolve_right (by simp)
    rw [findEntry, lookUp_child isName] at found
    rw [← named]
    exact ⟨(leads_of_walk found).at?_names, rfl⟩
  · rintro ⟨there, named⟩
    obtain ⟨names, node⟩ := place
    subst named
    exact lookUp_child_eq isName enters there (.inl rfl)

/-- Whatever is there is removed. -/
theorem remove_child (there : d.root.at? (dir ++ [name]) = some x) :
    d.remove (p.child name) = .ok (d.put (dir ++ [name]) none) := by
  have found : d.findEntry (p.child name) = .ok ⟨dir ++ [name], x⟩ :=
    (findEntry_child enters isName).mpr ⟨there, rfl⟩
  simp only [remove, found, bind, Except.bind]

/-- A child that is removed as a directory is gone and nothing else is. -/
theorem of_removeDirectory_child (removed : d.removeDirectory (p.child name) = .ok d') :
    d' = d.put (dir ++ [name]) none ∧ d.root.at? (dir ++ [name]) ≠ none := by
  unfold removeDirectory at removed
  cases found : d.findEntry (p.child name) with
  | error fault => simp [found, bind, Except.bind] at removed
  | ok place =>
      obtain ⟨there, named⟩ := (findEntry_child enters isName).mp found
      obtain ⟨names, node⟩ := place
      cases node with
      | file f => simp [found, bind, Except.bind] at removed
      | link target =>
          simp only [found, bind, Except.bind, Except.ok.injEq] at removed
          exact ⟨by rw [← removed, ← named], by simp [there]⟩
      | directory entries =>
          simp only [found, bind, Except.bind, Except.ok.injEq] at removed
          exact ⟨by rw [← removed, ← named], by simp [there]⟩

theorem removeDirectory_child {entries : List (String × Node)}
    (there : d.root.at? (dir ++ [name]) = some (.directory entries)) :
    d.removeDirectory (p.child name) = .ok (d.put (dir ++ [name]) none) := by
  have found : d.findEntry (p.child name) = .ok ⟨dir ++ [name], .directory entries⟩ :=
    (findEntry_child enters isName).mpr ⟨there, rfl⟩
  simp only [removeDirectory, found, bind, Except.bind]

/-- What cannot be removed because it is not found is not there. -/
theorem absent_of_removeDirectory (notFound : d.removeDirectory (p.child name) = .error .notFound) :
    d.root.at? (dir ++ [name]) = none := by
  cases there : d.root.at? (dir ++ [name]) with
  | none => rfl
  | some x =>
      have found : d.findEntry (p.child name) = .ok ⟨dir ++ [name], x⟩ :=
        (findEntry_child enters isName).mpr ⟨there, rfl⟩
      unfold removeDirectory at notFound
      cases x <;> simp [found, bind, Except.bind] at notFound

/-- A directory that is not there cannot be removed. -/
theorem removeDirectory_absent (absent : d.root.at? (dir ++ [name]) = none) :
    d.removeDirectory (p.child name) = .error .notFound := by
  simp [removeDirectory, findEntry, lookUp_child_absent enters isName absent, bind, Except.bind]

/-- What is there and cannot be removed as a directory is a file. -/
theorem file_of_removeDirectory {cause : Fault}
    (refused : d.removeDirectory (p.child name) = .error cause) (found : cause ≠ .notFound) :
    ∃ f, d.root.at? (dir ++ [name]) = some (.file f) := by
  cases there : d.root.at? (dir ++ [name]) with
  | none =>
      rw [removeDirectory_absent enters isName there] at refused
      cases refused
      exact absurd rfl found
  | some n =>
      have entry : d.findEntry (p.child name) = .ok ⟨dir ++ [name], n⟩ :=
        (findEntry_child enters isName).mpr ⟨there, rfl⟩
      cases n with
      | file f => exact ⟨f, rfl⟩
      | link target => simp [removeDirectory, entry, bind, Except.bind] at refused
      | directory entries => simp [removeDirectory, entry, bind, Except.bind] at refused

/-- A child is moved to the place of another one if it may replace what is there. -/
theorem rename_child (entersToo : d.Enters q dir) (isOther : Path.IsName other)
    (different : name ≠ other) (there : d.root.at? (dir ++ [name]) = some x) :
    d.rename (p.child name) (q.child other) =
      (mayReplace x (d.root.at? (dir ++ [other]))).map fun _ =>
        (d.put (dir ++ [name]) none).put (dir ++ [other]) (some x) := by
  have source : d.findEntry (p.child name) = .ok ⟨dir ++ [name], x⟩ :=
    (findEntry_child enters isName).mpr ⟨there, rfl⟩
  have apart : (dir ++ [other] == dir ++ [name]) = false := by simpa using Ne.symm different
  have notInside : (dir ++ [name]).isPrefixOf (dir ++ [other]) = false := by
    rw [Bool.eq_false_iff]
    intro inside
    have one := (List.prefix_append_right_inj dir).mp (List.isPrefixOf_iff_prefix.mp inside)
    simp [different] at one
  simp only [rename, source, slot_child isOther entersToo, bind, Except.bind, Slot.names, apart,
    notInside, occupant?, Bool.false_eq_true, if_false]
  cases mayReplace x (d.root.at? (dir ++ [other])) <;> rfl

end Whole

/-! ## Series of changes -/

namespace Edit

theorem run_change (g : Disk → Except Fault Disk) (d : Disk) :
    (change g).run d =
      match g d with
      | .ok d' => (.ok (), d')
      | .error fault => (.error fault, d) := by
  rw [change, Work.run_bind, Work.run_get]
  dsimp only
  cases g d <;> rfl

theorem run_replaceDirectory (source destination : Path) (d : Disk) :
    (replaceDirectory source destination).run d =
      match d.removeDirectory destination with
      | .ok d' => (change (·.rename source destination)).run d'
      | .error .notFound => (change (·.rename source destination)).run d
      | .error fault => (.error fault, d) := by
  unfold replaceDirectory
  rw [Work.run_bind]
  erw [Work.run_tryCatch]
  rw [run_change]
  cases d.removeDirectory destination with
  | ok d' => rfl
  | error fault => cases fault <;> rfl

end Edit

end FunctionArchive.Disk

/-! ## Creating directories -/

namespace FunctionArchive

namespace Path

variable {p : Path} {name : String}

/-- A path with a last component that leads somewhere. -/
theorem eq_concat_of_fileName? (named : p.fileName? = some name) :
    ∃ front, trimEnd p.absolute p.names = front ++ [name] ∧ isRedundant name = false ∧
      name ≠ ".." := by
  obtain ⟨last, proper⟩ := Option.filter_eq_some_iff.mp named
  simp only [bne_iff_ne, Bool.and_eq_true, ne_eq] at proper
  obtain ⟨front, split⟩ := List.getLast?_eq_some_iff.mp last
  exact ⟨front, split, last_trimEnd last (.inr proper.2), proper.1⟩

end Path

namespace Disk

variable {d d' : Disk} {p : Path} {dir : List String}

/-! ## What is there already -/

/-- Whatever still has a name to look up starts at a directory that has it. -/
theorem Leads.entry {root : Node} {followLast : Bool} {links : Nat} {here rest : List String}
    {name : String} {place : Place} (leads : Leads root followLast links here (name :: rest) place)
    (kept : Path.isRedundant name = false) (notUp : name ≠ "..") :
    ∃ entries n, root.at? here = some (.directory entries) ∧ entries.lookup name = some n := by
  cases leads with
  | stay _ redundant _ => simp [kept] at redundant
  | up _ _ => exact absurd rfl notUp
  | down directory _ _ found _ _ => exact ⟨_, _, directory, found⟩
  | stop directory _ _ found _ => exact ⟨_, _, directory, found⟩
  | follow directory _ _ found _ _ => exact ⟨_, _, directory, found⟩

/-- Nothing is created where something is. -/
theorem create_of_enters (enters : d.Enters p dir)
    (notEmpty : (!p.absolute && p.names.isEmpty) = false)
    (node : Node) : d.create p node = .error .alreadyExists := by
  obtain ⟨entries, leads⟩ := enters
  have found : d.find p = .ok ⟨dir, .directory entries⟩ := by
    simp only [find, lookUp, notEmpty]
    exact leads.walk_eq
  cases named : p.fileName? with
  | none =>
      have taken : d.slot p = .error .alreadyExists := by
        simp only [slot, named]
        cases p.parent? <;> simp [found]
      simp [create, taken, bind, Except.bind]
  | some name =>
      obtain ⟨front, split, kept, notUp⟩ := Path.eq_concat_of_fileName? named
      have above : p.parent? = some ⟨p.absolute, Path.trimEnd p.absolute front⟩ := by
        simp [Path.parent?, split]
      have whole : d.Enters ⟨p.absolute, front ++ [name]⟩ dir := by
        refine (enters_congr (p := ⟨p.absolute, front ++ [name]⟩) (q := p) rfl ?_).mpr
          ⟨entries, leads⟩
        rw [← split]
        exact Path.filter_trimEnd p.absolute p.names
      obtain ⟨entries', leads'⟩ := whole
      have joined : d.namesOf ⟨p.absolute, front ++ [name]⟩ =
          d.namesOf ⟨p.absolute, front⟩ ++ [name] := by
        unfold namesOf
        cases p.absolute <;> simp
      rw [joined] at leads'
      obtain ⟨mid, links, -, first, second⟩ := leads'.split (List.cons_ne_nil _ _)
      obtain ⟨outer, n, directory, taken⟩ := second.entry kept notUp
      obtain ⟨names, node⟩ := mid
      cases first.at?_names.symm.trans directory
      have entered : d.Enters ⟨p.absolute, Path.trimEnd p.absolute front⟩ names := by
        refine (enters_congr (p := ⟨p.absolute, Path.trimEnd p.absolute front⟩)
          (q := ⟨p.absolute, front⟩) rfl ?_).mpr ⟨outer, first⟩
        exact Path.filter_trimEnd p.absolute front
      obtain ⟨outer', found'⟩ := enters_iff_find_base.mp entered
      have occupied : d.occupant? ⟨names, name⟩ = some n := by
        rw [occupant?, Slot.names, Node.at?_concat_of_directory directory, taken]
      simp [create, slot, above, named, found', bind, Except.bind, occupied]

theorem isDirectory_of_enters (enters : d.Enters p dir)
    (notEmpty : (!p.absolute && p.names.isEmpty) = false) : d.isDirectory p = true := by
  obtain ⟨entries, leads⟩ := enters
  have found : d.find p = .ok ⟨dir, .directory entries⟩ := by
    simp only [find, lookUp, notEmpty]
    exact leads.walk_eq
  simp [isDirectory, found]

/-- A directory that is there is left as it is. -/
theorem createDirectories_of_enters (enters : d.Enters p dir) : d.createDirectories p = .ok d := by
  unfold createDirectories
  rw [createDirectoriesFrom]
  cases empty : (!p.absolute && p.names.isEmpty) with
  | true => rfl
  | false =>
      have refused : d.createDirectory p = .error .alreadyExists :=
        create_of_enters enters empty (.directory [])
      simp [refused, isDirectory_of_enters enters empty]

/-! ## What is created -/

theorem of_create {node : Node} (created : d.create p node = .ok d') :
    ∃ names, d.root.at? names = none ∧ d' = d.put names (some node) := by
  unfold create at created
  cases place : d.slot p with
  | error fault => simp [place, bind, Except.bind] at created
  | ok s =>
      simp only [place, bind, Except.bind] at created
      cases taken : d.occupant? s with
      | some n => simp [taken] at created
      | none =>
          simp only [taken, Except.ok.injEq] at created
          exact ⟨s.names, taken, created.symm⟩

/-- Everything of a file system is found in another one, looking the same. -/
structure Extends (d d' : Disk) : Prop where
  root : d.root.Extends d'.root
  current : d'.current = d.current
  now : d'.now = d.now

theorem Extends.refl (d : Disk) : d.Extends d := ⟨.refl _, rfl, rfl⟩

theorem Extends.trans {d'' : Disk} (first : d.Extends d') (second : d'.Extends d'') :
    d.Extends d'' :=
  ⟨first.root.trans second.root, second.current.trans first.current, second.now.trans first.now⟩

theorem extends_of_create {node : Node} (created : d.create p node = .ok d') : d.Extends d' := by
  obtain ⟨names, absent, rfl⟩ := of_create created
  exact ⟨Node.extends_alter absent _, rfl, rfl⟩

theorem extends_of_createDirectoriesFrom {bound : Nat}
    (created : createDirectoriesFrom bound d p = .ok d') : d.Extends d' := by
  induction bound generalizing d' p with
  | zero => cases created
  | succ bound ih =>
      rw [createDirectoriesFrom] at created
      split at created
      · cases created
        exact .refl d
      · split at created
        · rename_i d₁ made
          cases created
          exact extends_of_create made
        · cases above : p.parent? with
          | none => simp [above] at created
          | some parent =>
              simp only [above] at created
              cases made : createDirectoriesFrom bound d parent with
              | error fault => simp [made, bind, Except.bind] at created
              | ok d₁ =>
                  simp only [made, bind, Except.bind] at created
                  split at created
                  · cases created
                    exact ih made
                  · exact (ih made).trans (extends_of_create created)
        · split at created
          · cases created
            exact .refl d
          · cases created

/-- Everything that was there is there when directories have been created. -/
theorem extends_of_createDirectories (created : d.createDirectories p = .ok d') : d.Extends d' :=
  extends_of_createDirectoriesFrom created

end Disk

end FunctionArchive
