import FunctionArchive.Proofs.Disk.Tree
import FunctionArchive.Proofs.Path.Spelling

/-!
# Where paths lead

What a look-up finds in one tree it finds in every tree that keeps what it comes across
(`Leads.transfer`), and look-ups can be put together and taken apart (`Leads.append`,
`Leads.split`). On the way to a directory redundant names do not matter, so a path enters the same
directory however it is spelled (`enters_congr`). For the child of a directory this says where the
entry belongs (`slot_child`) and what its path leads to (`lookUp_child_eq`, `of_lookUp_child`).
-/

set_option autoImplicit false

namespace FunctionArchive.Disk

namespace Node

theorem eq_directory_of_outline {n : Node} {entries : List (String × Node)}
    (same : n.outline = outline (.directory entries)) : ∃ entries', n = .directory entries' := by
  cases n with
  | file f => cases same
  | link target => cases same
  | directory entries' => exact ⟨entries', rfl⟩

theorem eq_link_of_outline {n : Node} {target : String}
    (same : n.outline = outline (.link target)) : n = .link target := by
  cases n with
  | file f => cases same
  | link target' => exact same
  | directory entries' => cases same

theorem eq_file_of_outline {n : Node} {f : File}
    (same : n.outline = outline (.file f)) : n = .file f := by
  cases n with
  | file f' => exact same
  | link target' => cases same
  | directory entries' => cases same

end Node

variable {root a b : Node} {followLast : Bool} {links : Nat} {here front back : List String}
  {place : Place}

/-- A tree keeps what another tree has, but for some names at which there is at most a file. -/
structure Node.Keeps (a b : Node) (lost : List String → Prop) : Prop where
  kept : ∀ names n, a.at? names = some n → ¬ lost names →
    ∃ m, b.at? names = some m ∧ m.outline = n.outline
  lone : ∀ names n, a.at? names = some n → lost names → ∃ f, n = .file f

theorem Node.Extends.keeps (grown : a.Extends b) : a.Keeps b fun _ => False :=
  ⟨fun names n there _ => grown names n there, fun _ _ _ => False.elim⟩

section Keeps

variable {lost : List String → Prop} {name : String} {entries : List (String × Node)}

theorem Node.Keeps.directory (keeps : a.Keeps b lost)
    (there : a.at? here = some (.directory entries)) :
    ∃ entries', b.at? here = some (.directory entries') := by
  have notLost : ¬ lost here := by
    intro isLost
    obtain ⟨f, isFile⟩ := keeps.lone here _ there isLost
    cases isFile
  obtain ⟨m, there', same⟩ := keeps.kept here _ there notLost
  obtain ⟨entries', rfl⟩ := Node.eq_directory_of_outline same
  exact ⟨entries', there'⟩

theorem Node.Keeps.entry (keeps : a.Keeps b lost)
    (there : a.at? here = some (.directory entries)) {n : Node}
    (found : entries.lookup name = some n) (notLost : ¬ lost (here ++ [name])) :
    ∃ entries' m, b.at? here = some (.directory entries') ∧ entries'.lookup name = some m ∧
      m.outline = n.outline := by
  obtain ⟨entries', there'⟩ := keeps.directory there
  obtain ⟨m, found', same⟩ :=
    keeps.kept (here ++ [name]) n (by rw [Node.at?_concat_of_directory there, found]) notLost
  rw [Node.at?_concat_of_directory there'] at found'
  exact ⟨entries', m, there', found', same⟩

theorem Node.Keeps.link (keeps : a.Keeps b lost)
    (there : a.at? here = some (.directory entries)) {target : String}
    (found : entries.lookup name = some (.link target)) :
    ∃ entries', b.at? here = some (.directory entries') ∧
      entries'.lookup name = some (.link target) := by
  have notLost : ¬ lost (here ++ [name]) := by
    intro isLost
    obtain ⟨f, isFile⟩ := keeps.lone _ (.link target)
      (by rw [Node.at?_concat_of_directory there, found]) isLost
    cases isFile
  obtain ⟨entries', m, there', found', same⟩ := keeps.entry there found notLost
  cases Node.eq_link_of_outline same
  exact ⟨entries', there', found'⟩

/-- The start of a look-up is a directory or its end. -/
theorem Leads.start_notLost (leads : Leads a followLast links here front place)
    (keeps : a.Keeps b lost) (reached : ¬ lost place.names) : ¬ lost here := by
  intro isLost
  cases leads with
  | arrive there => exact reached isLost
  | stay directory | up directory | down directory | stop directory | follow directory =>
      obtain ⟨f, isFile⟩ := keeps.lone here _ directory isLost
      cases isFile

/-- A look-up that succeeds in a tree succeeds in all trees that keep what it comes across. -/
theorem Leads.transfer (leads : Leads a followLast links here front place)
    (keeps : a.Keeps b lost) (reached : ¬ lost place.names) :
    ∃ node, Leads b followLast links here front ⟨place.names, node⟩ ∧
      node.outline = place.node.outline := by
  induction leads with
  | arrive there =>
      obtain ⟨m, there', same⟩ := keeps.kept _ _ there reached
      exact ⟨m, .arrive there', same⟩
  | stay directory redundant _ ih =>
      obtain ⟨entries', directory'⟩ := keeps.directory directory
      obtain ⟨m, leads, same⟩ := ih reached
      exact ⟨m, .stay directory' redundant leads, same⟩
  | up directory _ ih =>
      obtain ⟨entries', directory'⟩ := keeps.directory directory
      obtain ⟨m, leads, same⟩ := ih reached
      exact ⟨m, .up directory' leads, same⟩
  | down directory named notUp found notLink onward ih =>
      obtain ⟨entries', n', directory', found', same'⟩ :=
        keeps.entry directory found (onward.start_notLost keeps reached)
      obtain ⟨m, leads, same⟩ := ih reached
      refine ⟨m, .down directory' named notUp found' ?_ leads, same⟩
      rintro target rfl
      exact notLink target (Node.eq_link_of_outline same'.symm)
  | stop directory named notUp found notFollowed =>
      obtain ⟨entries', directory', found'⟩ := keeps.link directory found
      exact ⟨_, .stop directory' named notUp found' notFollowed, rfl⟩
  | follow directory named notUp found followed _ ih =>
      obtain ⟨entries', directory', found'⟩ := keeps.link directory found
      obtain ⟨m, leads, same⟩ := ih reached
      exact ⟨m, .follow directory' named notUp found' followed leads, same⟩

end Keeps

/-- A look-up that succeeds in a tree succeeds in all trees in which everything stays. -/
theorem Leads.extend (leads : Leads a followLast links here front place) (grown : a.Extends b) :
    ∃ node, Leads b followLast links here front ⟨place.names, node⟩ ∧
      node.outline = place.node.outline :=
  leads.transfer grown.keeps not_false

/-- One look-up after the other. -/
theorem Leads.append {mid : Place} (first : Leads root true links here front mid)
    (more : back ≠ []) (second : ∀ links, Leads root followLast links mid.names back place) :
    Leads root followLast links here (front ++ back) place := by
  induction first with
  | arrive there => exact second _
  | stay directory redundant _ ih => exact .stay directory redundant (ih second)
  | up directory _ ih => exact .up directory (ih second)
  | down directory named notUp found notLink _ ih =>
      exact .down directory named notUp found notLink (ih second)
  | stop directory named notUp found notFollowed => cases notFollowed
  | @follow _ _ rest _ _ _ _ directory named notUp found followed _ ih =>
      refine .follow directory named notUp found (by simp [more]) ?_
      have onward := ih second
      rwa [List.append_assoc] at onward

/-- A look-up of some names after others passes a place to which the first names lead. -/
theorem Leads.split (leads : Leads root followLast links here (front ++ back) place)
    (more : back ≠ []) :
    ∃ mid links', links' ≤ links ∧ Leads root true links here front mid ∧
      Leads root followLast links' mid.names back place := by
  generalize joined : front ++ back = pending at leads
  induction leads generalizing front with
  | arrive there => simp [more] at joined
  | stay directory redundant onward ih =>
      cases front with
      | nil =>
          subst joined
          exact ⟨_, _, Nat.le_refl _, .arrive directory, .stay directory redundant onward⟩
      | cons name rest =>
          cases joined
          obtain ⟨mid, links', fewer, first, second⟩ := ih rfl
          exact ⟨mid, links', fewer, .stay directory redundant first, second⟩
  | up directory onward ih =>
      cases front with
      | nil =>
          subst joined
          exact ⟨_, _, Nat.le_refl _, .arrive directory, .up directory onward⟩
      | cons name rest =>
          cases joined
          obtain ⟨mid, links', fewer, first, second⟩ := ih rfl
          exact ⟨mid, links', fewer, .up directory first, second⟩
  | down directory named notUp found notLink onward ih =>
      cases front with
      | nil =>
          subst joined
          exact ⟨_, _, Nat.le_refl _, .arrive directory,
            .down directory named notUp found notLink onward⟩
      | cons name rest =>
          cases joined
          obtain ⟨mid, links', fewer, first, second⟩ := ih rfl
          exact ⟨mid, links', fewer, .down directory named notUp found notLink first, second⟩
  | @stop links _ _ _ _ directory named notUp found notFollowed =>
      cases front with
      | nil =>
          subst joined
          exact ⟨_, links, Nat.le_refl _, .arrive directory,
            .stop directory named notUp found notFollowed⟩
      | cons name rest =>
          simp [more] at joined
  | follow directory named notUp found followed onward ih =>
      cases front with
      | nil =>
          subst joined
          exact ⟨_, _, Nat.le_refl _, .arrive directory,
            .follow directory named notUp found followed onward⟩
      | cons name rest =>
          cases joined
          obtain ⟨mid, links', fewer, first, second⟩ := ih (List.append_assoc _ _ _)
          exact ⟨mid, links', Nat.le_succ_of_le fewer,
            .follow directory named notUp found (by simp) first, second⟩

/-- A look-up that follows every link passes a place even where it ends. -/
theorem Leads.pass (leads : Leads root true links here (front ++ back) place) :
    ∃ mid links', links' ≤ links ∧ Leads root true links here front mid ∧
      Leads root true links' mid.names back place := by
  cases back with
  | nil =>
      rw [List.append_nil] at leads
      exact ⟨place, links, Nat.le_refl _, leads, .arrive leads.at?_names⟩
  | cons name rest => exact leads.split (List.cons_ne_nil _ _)

/-- A look-up that succeeds does so when it may pass more links. -/
theorem Leads.more (leads : Leads root followLast links here front place) {links' : Nat}
    (fewer : links ≤ links') : Leads root followLast links' here front place := by
  induction leads generalizing links' with
  | arrive there => exact .arrive there
  | stay directory redundant _ ih => exact .stay directory redundant (ih fewer)
  | up directory _ ih => exact .up directory (ih fewer)
  | down directory named notUp found notLink _ ih =>
      exact .down directory named notUp found notLink (ih fewer)
  | stop directory named notUp found notFollowed =>
      exact .stop directory named notUp found notFollowed
  | follow directory named notUp found followed _ ih =>
      obtain ⟨others, rfl⟩ := Nat.exists_eq_succ_of_ne_zero
        (Nat.ne_zero_of_lt (Nat.lt_of_lt_of_le (Nat.lt_succ_self _) fewer))
      exact .follow directory named notUp found followed (ih (Nat.le_of_succ_le_succ fewer))

/-! ## Redundant names on the way to a directory -/

/-- A redundant name on the way to a directory does not matter. -/
theorem Leads.insert_redundant {name : String} (redundant : Path.isRedundant name = true)
    (leads : Leads root true links here (front ++ back) place)
    (directory : ∃ entries, place.node = .directory entries) :
    Leads root true links here (front ++ name :: back) place := by
  generalize joined : front ++ back = pending at leads
  induction leads generalizing front with
  | arrive there =>
      obtain ⟨rfl, rfl⟩ := List.append_eq_nil_iff.mp joined
      obtain ⟨entries, rfl⟩ := directory
      exact .stay there redundant (.arrive there)
  | stay here' redundant' onward ih =>
      cases front with
      | nil =>
          subst joined
          exact .stay here' redundant (.stay here' redundant' onward)
      | cons first rest =>
          cases joined
          exact .stay here' redundant' (ih directory rfl)
  | up here' onward ih =>
      cases front with
      | nil =>
          subst joined
          exact .stay here' redundant (.up here' onward)
      | cons first rest =>
          cases joined
          exact .up here' (ih directory rfl)
  | down here' named notUp found notLink onward ih =>
      cases front with
      | nil =>
          subst joined
          exact .stay here' redundant (.down here' named notUp found notLink onward)
      | cons first rest =>
          cases joined
          exact .down here' named notUp found notLink (ih directory rfl)
  | stop here' named notUp found notFollowed => cases notFollowed
  | follow here' named notUp found followed onward ih =>
      cases front with
      | nil =>
          subst joined
          exact .stay here' redundant (.follow here' named notUp found followed onward)
      | cons first rest =>
          cases joined
          refine .follow here' named notUp found (by simp) ?_
          have onward' := ih directory (List.append_assoc _ _ _)
          rwa [List.append_assoc] at onward'

/-- Nor does it matter when it is left out. -/
theorem Leads.remove_redundant {name : String} (redundant : Path.isRedundant name = true)
    (leads : Leads root true links here (front ++ name :: back) place) :
    Leads root true links here (front ++ back) place := by
  generalize joined : front ++ name :: back = pending at leads
  induction leads generalizing front with
  | arrive there => simp at joined
  | stay here' redundant' onward ih =>
      cases front with
      | nil =>
          cases joined
          exact onward
      | cons first rest =>
          cases joined
          exact .stay here' redundant' (ih rfl)
  | up here' onward ih =>
      cases front with
      | nil =>
          cases joined
          simp [Path.isRedundant] at redundant
      | cons first rest =>
          cases joined
          exact .up here' (ih rfl)
  | down here' named notUp found notLink onward ih =>
      cases front with
      | nil =>
          cases joined
          simp [named] at redundant
      | cons first rest =>
          cases joined
          exact .down here' named notUp found notLink (ih rfl)
  | stop here' named notUp found notFollowed => cases notFollowed
  | follow here' named notUp found followed onward ih =>
      cases front with
      | nil =>
          cases joined
          simp [named] at redundant
      | cons first rest =>
          cases joined
          refine .follow here' named notUp found (by simp) ?_
          have onward' := ih (List.append_assoc _ _ _)
          rwa [List.append_assoc] at onward'

/-- Only the names that lead somewhere matter on the way to a directory. -/
theorem leads_filter_redundant (directory : ∃ entries, place.node = .directory entries)
    (before names : List String) :
    Leads root true links here (before ++ names.filter (!Path.isRedundant ·)) place ↔
      Leads root true links here (before ++ names) place := by
  induction names generalizing before with
  | nil => rfl
  | cons name rest ih =>
      cases redundant : Path.isRedundant name with
      | true =>
          rw [List.filter_cons_of_neg (by simp [redundant]), ih]
          exact ⟨fun leads => leads.insert_redundant redundant directory,
            fun leads => leads.remove_redundant redundant⟩
      | false =>
          rw [List.filter_cons_of_pos (by simp [redundant])]
          have moved := ih (before ++ [name])
          simpa only [List.append_assoc, List.singleton_append] using moved

/-! ## Entering directories -/

/-- A path leads to a directory, whose real names are these; the empty path leads to the directory
from which relative paths start. -/
def Enters (d : Disk) (p : Path) (dir : List String) : Prop :=
  ∃ entries, Leads d.root true maxLinks [] (d.namesOf p) ⟨dir, .directory entries⟩

variable {d : Disk} {p q : Path} {dir : List String} {name : String}

theorem Enters.at? (enters : d.Enters p dir) :
    ∃ entries, d.root.at? dir = some (.directory entries) := by
  obtain ⟨entries, leads⟩ := enters
  exact ⟨entries, leads.at?_names⟩

theorem find_base (d : Disk) (p : Path) :
    d.find (d.base p) = walk d.root true maxLinks [] (d.namesOf p) := by
  unfold base
  split
  · rename_i empty
    simp only [Bool.and_eq_true, List.isEmpty_iff, Bool.not_eq_true'] at empty
    simp [find, lookUp, namesOf, Path.ofNames, empty]
  · rename_i notEmpty
    have look : (!p.absolute && p.names.isEmpty) = false := by
      cases relative : p.absolute <;> simp_all
    simp [find, lookUp, look]

theorem enters_iff_find_base :
    d.Enters p dir ↔ ∃ entries, d.find (d.base p) = .ok ⟨dir, .directory entries⟩ := by
  simp only [Enters, find_base, leads_iff_walk]

/-- Whether a directory is entered is a matter of the names that lead somewhere. -/
theorem enters_congr (absolute : p.absolute = q.absolute)
    (names : p.names.filter (!Path.isRedundant ·) = q.names.filter (!Path.isRedundant ·)) :
    d.Enters p dir ↔ d.Enters q dir := by
  have same (before : List String) (place : Place)
      (directory : ∃ entries, place.node = .directory entries) :
      Leads d.root true maxLinks [] (before ++ p.names) place ↔
        Leads d.root true maxLinks [] (before ++ q.names) place := by
    rw [← leads_filter_redundant directory, names, leads_filter_redundant directory]
  unfold Enters namesOf
  rw [absolute]
  cases q.absolute with
  | true =>
      simp only [if_true]
      exact exists_congr fun entries => same [] _ ⟨entries, rfl⟩
  | false =>
      simp only [Bool.false_eq_true, if_false]
      exact exists_congr fun entries => same d.current.names _ ⟨entries, rfl⟩

theorem enters_of_same (same : p.same q = true) : d.Enters p dir ↔ d.Enters q dir := by
  obtain ⟨absolute, components⟩ := Path.same_iff.mp same
  refine enters_congr absolute ?_
  rw [← filter_components p, components, filter_components]

theorem enters_stem : d.Enters ⟨p.absolute, p.stem⟩ dir ↔ d.Enters p dir :=
  enters_congr rfl (Path.filter_stem p)

/-! ## Children of a directory -/

section Child

variable (isName : Path.IsName name)

include isName

theorem enters_parent_child (d : Disk) (p : Path) (dir : List String) :
    ∃ parent, (p.child name).parent? = some parent ∧ (d.Enters parent dir ↔ d.Enters p dir) := by
  refine ⟨_, Path.parent?_child p isName, enters_congr rfl ?_⟩
  rw [Path.filter_trimEnd, Path.filter_stem]

/-- An entry of a directory belongs into that directory. -/
theorem slot_child (enters : d.Enters p dir) : d.slot (p.child name) = .ok ⟨dir, name⟩ := by
  obtain ⟨parent, above, same⟩ := enters_parent_child isName d p dir
  obtain ⟨entries, found⟩ := enters_iff_find_base.mp (same.mpr enters)
  simp only [slot, above, Path.fileName?_child p isName, found]
  rfl

/-- An entry that belongs anywhere belongs into the directory that its path enters. -/
theorem enters_of_slot_child {s : Slot} (belongs : d.slot (p.child name) = .ok s) :
    d.Enters p s.directory ∧ s.name = name := by
  obtain ⟨parent, above, same⟩ := enters_parent_child isName d p s.directory
  simp only [slot, above, Path.fileName?_child p isName] at belongs
  cases found : d.find (d.base parent) with
  | error fault => simp [found, bind, Except.bind] at belongs
  | ok place =>
      obtain ⟨names, node⟩ := place
      cases node with
      | directory entries =>
          simp only [found, bind, Except.bind, Except.ok.injEq] at belongs
          subst belongs
          exact ⟨same.mp (enters_iff_find_base.mpr ⟨entries, found⟩), rfl⟩
      | file f => simp [found, bind, Except.bind] at belongs
      | link target => simp [found, bind, Except.bind] at belongs

theorem leads_name {entries : List (String × Node)} {n : Node}
    (directory : root.at? dir = some (.directory entries))
    (there : root.at? (dir ++ [name]) = some n)
    (taken : followLast = false ∨ ∀ target, n ≠ .link target) (links : Nat) :
    Leads root followLast links dir [name] ⟨dir ++ [name], n⟩ := by
  have found : entries.lookup name = some n := by
    rwa [Node.at?_concat_of_directory directory] at there
  by_cases isLink : ∃ target, n = .link target
  · obtain ⟨target, rfl⟩ := isLink
    have notFollowed : followLast = false := taken.resolve_right fun never => never target rfl
    exact .stop directory isName.notRedundant isName.2.2 found notFollowed
  · exact .down directory isName.notRedundant isName.2.2 found
      (fun target same => isLink ⟨target, same⟩) (.arrive there)

theorem Leads.of_name (leads : Leads root followLast links dir [name] place) :
    (∃ entries, root.at? dir = some (.directory entries)) ∧
      (place.names = dir ++ [name] ∨
        followLast = true ∧ ∃ target, root.at? (dir ++ [name]) = some (.link target)) := by
  cases leads with
  | stay _ redundant _ => simp [isName.notRedundant] at redundant
  | up _ _ => exact absurd rfl isName.2.2
  | down directory _ _ _ _ onward =>
      cases onward with
      | arrive _ => exact ⟨⟨_, directory⟩, .inl rfl⟩
  | stop directory => exact ⟨⟨_, directory⟩, .inl rfl⟩
  | @follow _ _ _ _ target _ _ directory _ _ found followed _ =>
      refine ⟨⟨_, directory⟩, .inr ⟨by simpa using followed, target, ?_⟩⟩
      rw [Node.at?_concat_of_directory directory, found]

theorem namesOf_child (d : Disk) (p : Path) :
    d.namesOf (p.child name) = d.namesOf ⟨p.absolute, p.stem⟩ ++ [name] := by
  rw [Path.child_eq p isName.1, namesOf, namesOf]
  cases p.absolute <;> simp

theorem lookUp_child (followLast : Bool) (d : Disk) (p : Path) :
    d.lookUp followLast (p.child name) =
      walk d.root followLast maxLinks [] (d.namesOf ⟨p.absolute, p.stem⟩ ++ [name]) := by
  rw [lookUp, namesOf_child isName, Path.child_eq p isName.1]
  simp

theorem lookUp_child_eq {n : Node} (enters : d.Enters p dir)
    (there : d.root.at? (dir ++ [name]) = some n)
    (taken : followLast = false ∨ ∀ target, n ≠ .link target) :
    d.lookUp followLast (p.child name) = .ok ⟨dir ++ [name], n⟩ := by
  obtain ⟨entries, leads⟩ := enters_stem.mpr enters
  rw [lookUp_child isName]
  exact (leads.append (List.cons_ne_nil _ _)
    (leads_name isName leads.at?_names there taken)).walk_eq

/-- What the path of a child leads to stands under that name, unless a link is followed. -/
theorem of_lookUp_child (found : d.lookUp followLast (p.child name) = .ok place) :
    ∃ dir, d.Enters p dir ∧ (place.names = dir ++ [name] ∨
      followLast = true ∧ ∃ target, d.root.at? (dir ++ [name]) = some (.link target)) := by
  rw [lookUp_child isName] at found
  obtain ⟨mid, links', -, first, second⟩ :=
    (leads_of_walk found).split (List.cons_ne_nil _ _)
  obtain ⟨⟨entries, directory⟩, ends⟩ := second.of_name isName
  refine ⟨mid.names, enters_stem.mp ⟨entries, ?_⟩, ends⟩
  have there := first.at?_names
  obtain ⟨names, node⟩ := mid
  cases directory.symm.trans there
  exact first

/-- The directory of a child that can be read is entered. -/
theorem exists_enters_of_read {bytes : List UInt8} (reads : d.read (p.child name) = .ok bytes) :
    ∃ dir, d.Enters p dir := by
  unfold Disk.read file find at reads
  cases found : d.lookUp true (p.child name) with
  | error fault => simp [found, Except.map] at reads
  | ok place =>
      obtain ⟨dir, enters, -⟩ := of_lookUp_child isName found
      exact ⟨dir, enters⟩

end Child

end FunctionArchive.Disk
