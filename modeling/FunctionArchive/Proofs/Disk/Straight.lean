import FunctionArchive.Proofs.Disk.Listing
import FunctionArchive.Proofs.Disk.Place
import FunctionArchive.Proofs.Path.Plain

/-!
# Ways without links

Where every entry has the name of an entry, a real path is plain and leads through directories
alone (`IsTree.straight_of_realPath`). From such a way one sees at the next name whether a link
stands there (`Straight.isLink_iff`).

A leaf is a place for anything but a directory, so nothing stands below it: no leaf lies below
another (`IsLeaf.eq_of_prefix`).
-/

set_option autoImplicit false

namespace FunctionArchive

/-- Names of entries lead down. -/
theorem Path.Proper.leadsDown {names : List String} (proper : Path.Proper names) :
    Disk.LeadsDown names :=
  fun name member => ⟨(proper name member).notRedundant, (proper name member).2.2⟩

namespace Disk

open Path (Proper IsName)

variable {root node : Node} {followLast : Bool} {links : Nat}
  {here pending names front rest : List String} {name : String} {place : Place} {d : Disk}
  {p real : Path}

/-- What stands in front of something that stands in a tree is a directory. -/
theorem Node.directory_of_at?_append (there : root.at? (front ++ rest) = some node)
    (below : rest ≠ []) : ∃ entries, root.at? front = some (.directory entries) := by
  obtain ⟨next, others, rfl⟩ := List.exists_cons_of_ne_nil below
  rw [Node.at?_append] at there
  obtain ⟨inner, isInner, further⟩ := Option.bind_eq_some_iff.mp there
  cases inner with
  | directory entries => exact ⟨entries, isInner⟩
  | file f => cases further
  | link target => cases further

/-- What a directory is below of, or is, is a directory. -/
theorem Node.exists_directory_of_append {entries : List (String × Node)}
    (there : root.at? (front ++ rest) = some (.directory entries)) :
    ∃ outer, root.at? front = some (.directory outer) := by
  cases rest with
  | nil =>
      rw [List.append_nil] at there
      exact ⟨entries, there⟩
  | cons name rest => exact directory_of_at?_append there (List.cons_ne_nil _ _)

/-- A step upwards from a directory leads to a directory. -/
theorem Node.directory_of_dropLast {entries : List (String × Node)}
    (there : root.at? names = some (.directory entries)) :
    ∃ outer, root.at? names.dropLast = some (.directory outer) := by
  rcases List.eq_nil_or_concat names with rfl | ⟨front, last, rfl⟩
  · exact ⟨entries, there⟩
  · rw [List.concat_eq_append] at there ⊢
    rw [List.dropLast_concat]
    exact directory_of_at?_append there (List.cons_ne_nil _ _)

/-- No file is found by a path that ends with a step upwards or a redundant name. -/
theorem not_isFile_of_last (last : p.names.getLast? = some name)
    (noName : Path.isRedundant name = true ∨ name = "..") : d.isFile p = false := by
  obtain ⟨front, split⟩ := List.getLast?_eq_some_iff.mp last
  cases found : d.find p with
  | error fault => simp [isFile, found]
  | ok place =>
      obtain ⟨before, joined⟩ : ∃ before, d.namesOf p = before ++ [name] := by
        unfold namesOf
        split
        · exact ⟨front, split⟩
        · exact ⟨d.current.names ++ front, by simp [split]⟩
      have looked := found
      unfold find lookUp at looked
      split at looked
      · cases looked
      · rw [joined] at looked
        obtain ⟨mid, _, -, -, last⟩ := (leads_of_walk looked).split (List.cons_ne_nil _ _)
        have isNoName (kept : Path.isRedundant name = false) (notUp : name ≠ "..") : False :=
          noName.elim (fun redundant => nomatch kept.symm.trans redundant) notUp
        cases last with
        | down _ named notUp _ _ _ => exact (isNoName named notUp).elim
        | stop _ named notUp _ _ => exact (isNoName named notUp).elim
        | follow _ named notUp _ _ _ => exact (isNoName named notUp).elim
        | stay directory _ onward =>
            cases onward with
            | arrive there =>
                cases directory.symm.trans there
                simp [isFile, found]
        | up directory onward =>
            obtain ⟨outer, isOuter⟩ := Node.directory_of_dropLast directory
            cases onward with
            | arrive there =>
                cases isOuter.symm.trans there
                simp [isFile, found]

/-! ## Trees of proper names -/

/-- A tree as a disk holds it: a directory at the root, and every entry under the name of one. -/
structure IsTree (d : Disk) : Prop where
  root : ∃ entries, d.root = .directory entries
  proper : ∀ path ∈ d.allPaths, Proper path.names

theorem IsTree.proper_of_at? (tree : d.IsTree) (there : d.root.at? names = some node) :
    Proper names :=
  tree.proper _ (mem_allPaths_of_at? there)

/-! ## Straight ways -/

/-- Names on which no link stands. -/
structure Straight (d : Disk) (names : List String) : Prop where
  proper : Proper names
  noLink : ∀ front, front <+: names → ∀ target, d.root.at? front ≠ some (.link target)

theorem Straight.of_prefix (straight : d.Straight names) (inFront : front <+: names) :
    d.Straight front :=
  ⟨straight.proper.of_prefix inFront, fun _ further => straight.noLink _ (further.trans inFront)⟩

theorem Straight.concat (straight : d.Straight names) (isName : IsName name)
    (noLink : ∀ target, d.root.at? (names ++ [name]) ≠ some (.link target)) :
    d.Straight (names ++ [name]) := by
  refine ⟨Path.proper_append.mpr ⟨straight.proper, Path.proper_singleton.mpr isName⟩, ?_⟩
  intro front inFront
  rcases List.prefix_concat_iff.mp inFront with rfl | before
  · exact noLink
  · exact straight.noLink front before

/-- Where something other than a link stands, no link stands on the way to it. -/
theorem straight_of_proper (proper : Proper names) (there : d.root.at? names = some node)
    (notLink : ∀ target, node ≠ .link target) : d.Straight names := by
  refine ⟨proper, ?_⟩
  rintro front ⟨rest, rfl⟩ target isLink
  cases rest with
  | nil =>
      rw [List.append_nil] at there
      exact notLink target (Option.some.inj (there.symm.trans isLink))
  | cons next others =>
      obtain ⟨entries, directory⟩ := Node.directory_of_at?_append there (List.cons_ne_nil _ _)
      cases directory.symm.trans isLink

theorem IsTree.straight_of_at? (tree : d.IsTree) (there : d.root.at? names = some node)
    (notLink : ∀ target, node ≠ .link target) : d.Straight names :=
  straight_of_proper (tree.proper_of_at? there) there notLink

/-- Links are followed to something that is none. -/
theorem Leads.notLink (leads : Leads root true links here pending place)
    (noRoot : ∀ target, root ≠ .link target)
    (noStart : ∀ target, root.at? here ≠ some (.link target)) (target : String) :
    place.node ≠ .link target := by
  induction leads with
  | arrive there =>
      rintro rfl
      exact noStart target there
  | stay _ _ _ ih => exact ih noStart
  | @up _ here _ _ _ directory _ ih =>
      refine ih fun target isLink => ?_
      rcases List.eq_nil_or_concat here with rfl | ⟨front, last, rfl⟩
      · exact noStart target isLink
      · rw [List.concat_eq_append] at directory isLink
        rw [List.dropLast_concat] at isLink
        obtain ⟨entries, there⟩ := Node.directory_of_at?_append directory (List.cons_ne_nil _ _)
        cases there.symm.trans isLink
  | down directory _ _ found notLink _ ih =>
      refine ih fun target isLink => ?_
      rw [Node.at?_concat_of_directory directory, found] at isLink
      exact notLink target (Option.some.inj isLink)
  | stop _ _ _ _ notFollowed => cases notFollowed
  | @follow _ here _ _ text _ _ _ _ _ _ _ _ ih =>
      refine ih ?_
      split
      · intro target isLink
        exact noRoot target (Option.some.inj isLink)
      · exact noStart

/-- Where the root is a directory, a path leads to something that is no link. -/
theorem notLink_of_find {entries : List (String × Node)} (directory : d.root = .directory entries)
    (found : d.find p = .ok place) (target : String) : place.node ≠ .link target := by
  have noRoot (target : String) : d.root ≠ .link target := by
    rw [directory]
    nofun
  unfold find lookUp at found
  split at found
  · cases found
  · exact (leads_of_walk found).notLink noRoot
      (fun target isLink => noRoot target (Option.some.inj isLink)) target

theorem IsTree.notLink_of_find (tree : d.IsTree) (found : d.find p = .ok place) (target : String) :
    place.node ≠ .link target := by
  obtain ⟨entries, root⟩ := tree.root
  exact Disk.notLink_of_find root found target

theorem IsTree.straight_of_realPath (tree : d.IsTree) (found : d.realPath p = .ok real) :
    real = .ofNames real.names ∧ d.Straight real.names := by
  unfold realPath at found
  cases result : d.find p with
  | error fault => simp [result, Except.map] at found
  | ok place =>
      simp only [result, Except.map, Except.ok.injEq] at found
      subst found
      exact ⟨rfl, tree.straight_of_at? (at?_of_find result) (tree.notLink_of_find result)⟩

/-- A look-up along names on which no link stands goes through these names. -/
theorem Leads.names_eq (leads : Leads root followLast links here pending place)
    (proper : Proper pending)
    (noLink : ∀ front, front <+: pending → ∀ target,
      root.at? (here ++ front) ≠ some (.link target)) :
    place.names = here ++ pending := by
  induction leads with
  | arrive => rw [List.append_nil]
  | @stay _ _ _ name _ _ _ redundant _ _ =>
      simp [(proper name List.mem_cons_self).notRedundant] at redundant
  | up _ _ _ => exact absurd rfl (proper ".." List.mem_cons_self).2.2
  | @down _ here rest name _ _ _ _ _ _ _ _ _ ih =>
      rw [ih (fun other member => proper other (.tail _ member)) fun front inFront target => ?_]
      · simp
      · rw [List.append_assoc, List.singleton_append]
        exact noLink (name :: front) (List.cons_prefix_cons.mpr ⟨rfl, inFront⟩) target
  | @stop _ here name target _ directory _ _ found _ =>
      refine absurd ?_ (noLink [name] List.prefix_rfl target)
      rw [Node.at?_concat_of_directory directory, found]
  | @follow _ here rest name target _ _ directory _ _ found _ _ _ =>
      refine absurd ?_ (noLink [name] (List.prefix_append [name] rest) target)
      rw [Node.at?_concat_of_directory directory, found]

theorem Straight.enters_eq {dir : List String} (straight : d.Straight names)
    (enters : d.Enters (.ofNames names) dir) : dir = names := by
  obtain ⟨entries, leads⟩ := enters
  exact leads.names_eq straight.proper straight.noLink

theorem Straight.enters {entries : List (String × Node)} (straight : d.Straight names)
    (directory : d.root.at? names = some (.directory entries)) :
    d.Enters (.ofNames names) names :=
  ⟨entries, leads_of_at? directory straight.proper.leadsDown nofun⟩

/-- Whether a link stands at the next name on a straight way is seen there. -/
theorem Straight.isLink_iff (straight : d.Straight names) (isName : IsName name) :
    d.isLink (.ofNames (names ++ [name])) = true ↔
      ∃ target, d.root.at? (names ++ [name]) = some (.link target) := by
  rw [← straight.proper.child_eq isName.1]
  constructor
  · intro crossed
    unfold isLink findEntry at crossed
    cases found : d.lookUp false ((Path.ofNames names).child name) with
    | error fault => simp [found] at crossed
    | ok place =>
        obtain ⟨real, node⟩ := place
        cases node with
        | file f => simp [found] at crossed
        | directory entries => simp [found] at crossed
        | link target =>
            obtain ⟨dir, enters, named | followed⟩ := of_lookUp_child isName found
            · have same := straight.enters_eq enters
              subst same
              have there := at?_of_lookUp found
              rw [named] at there
              exact ⟨target, there⟩
            · exact absurd followed.1 (by decide)
  · rintro ⟨target, there⟩
    obtain ⟨entries, directory⟩ := Node.directory_of_at?_append there (List.cons_ne_nil _ _)
    have found := lookUp_child_eq isName (straight.enters directory) there (.inl rfl)
    simp [isLink, findEntry, found]

/-! ## Leaves -/

/-- A place in a directory at which no directory stands. -/
structure IsLeaf (d : Disk) (names : List String) : Prop where
  proper : Proper names
  above : ∃ entries, d.root.at? names.dropLast = some (.directory entries)
  notDirectory : ∀ entries, d.root.at? names ≠ some (.directory entries)

theorem IsLeaf.eq_of_prefix (leaf : d.IsLeaf front) (leaf' : d.IsLeaf names)
    (inFront : front <+: names) : front = names := by
  obtain ⟨rest, rfl⟩ := inFront
  rcases List.eq_nil_or_concat rest with rfl | ⟨middle, last, rfl⟩
  · rw [List.append_nil]
  · exfalso
    obtain ⟨entries, above⟩ := leaf'.above
    rw [List.concat_eq_append, ← List.append_assoc, List.dropLast_concat] at above
    cases middle with
    | nil =>
        rw [List.append_nil] at above
        exact leaf.notDirectory entries above
    | cons next others =>
        obtain ⟨entries, directory⟩ := Node.directory_of_at?_append above (List.cons_ne_nil _ _)
        exact leaf.notDirectory entries directory

/-- What stands in a tree and is no directory is a leaf. -/
theorem IsTree.isLeaf_of_at? (tree : d.IsTree) (there : d.root.at? names = some node)
    (notDirectory : ∀ entries, node ≠ .directory entries) : d.IsLeaf names := by
  refine ⟨tree.proper_of_at? there, ?_, fun entries directory => ?_⟩
  · rcases List.eq_nil_or_concat names with rfl | ⟨front, last, rfl⟩
    · obtain ⟨entries, root⟩ := tree.root
      exact ⟨entries, congrArg some root⟩
    · rw [List.concat_eq_append] at there
      rw [List.concat_eq_append, List.dropLast_concat]
      exact Node.directory_of_at?_append there (List.cons_ne_nil _ _)
  · exact notDirectory entries (Option.some.inj (there.symm.trans directory))

end Disk

end FunctionArchive
