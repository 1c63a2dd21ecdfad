import FunctionArchive.Proofs.Checksum
import FunctionArchive.Proofs.Disk.Moves
import FunctionArchive.Proofs.Disk.Inside

/-!
# Growing a tree on a disk

A tree is tidy if all its directories are (`tidy_directory_iff`), and it stays so when something
tidy is set in it under a proper name (`Tidy.set`). No leaf of a tidy tree is listed twice
(`nodup_leaves`).

A tree is put where nothing stood, and everything done below that place is done to the tree alone
(`Plot.create`, `Plot.write`, `Plot.touch`). What a tree looks like from outside, name by name, is
its `shape`. Setting a leaf changes the shape there (`shape_set`), and creating directories adds
those that are missing on the way, and succeeds unless something else stands in it
(`Plot.createDirectories`).
-/

set_option autoImplicit false

namespace FunctionArchive

namespace Checksum

open Disk (Node)

variable {n x : Node} {names : List String} {change : Option Node → Option Node} {name : String}
  {entries : List (String × Node)}

theorem tidy_directory_iff : Tidy (.directory entries) ↔ (entries.map Prod.fst).Nodup ∧
    ∀ entry ∈ entries, (Path.IsName entry.1 ∧ '\x00' ∉ entry.1.toList) ∧ Tidy entry.2 := by
  constructor
  · intro isTidy
    obtain ⟨different, named⟩ := isTidy [] entries rfl
    refine ⟨different, fun entry member => ⟨named entry member, ?_⟩⟩
    have found : entries.lookup entry.1 = some entry.2 := (mem_of_lookup_iff different).mpr member
    exact isTidy.lookup found
  · rintro ⟨different, all⟩
    exact tidy_directory different (fun entry member => (all entry member).1)
      fun entry member => (all entry member).2

theorem tidy_hollow : Tidy (.directory []) :=
  tidy_directory List.nodup_nil (List.forall_mem_nil _) (List.forall_mem_nil _)

/-! ## Changes -/

/-- An entry of a directory is set or stays as it was. -/
theorem mem_alterEntry {entry : String × Node}
    (member : entry ∈ Node.alterEntry name change entries) :
    entry ∈ entries ∨ entry.1 = name ∧ change (entries.lookup name) = some entry.2 := by
  induction entries with
  | nil =>
      cases made : change none with
      | none => simp [Node.alterEntry_nil, made] at member
      | some m =>
          obtain rfl : entry = (name, m) := by simpa [Node.alterEntry_nil, made] using member
          exact .inr ⟨rfl, made⟩
  | cons first rest ih =>
      obtain ⟨key, m⟩ := first
      by_cases same : key = name
      · subst same
        cases made : change (some m) with
        | none =>
            simp only [Node.alterEntry_here, made] at member
            exact .inl (List.mem_cons_of_mem _ (List.mem_filter.mp member).1)
        | some m' =>
            simp only [Node.alterEntry_here, made] at member
            rcases List.mem_cons.mp member with rfl | later
            · exact .inr ⟨rfl, by simp [made]⟩
            · exact .inl (List.mem_cons_of_mem _ later)
      · have different : (name == key) = false := by simpa using fun h => same h.symm
        rw [Node.alterEntry_later same] at member
        rcases List.mem_cons.mp member with rfl | later
        · exact .inl List.mem_cons_self
        · rcases ih later with before | ⟨named, made⟩
          · exact .inl (List.mem_cons_of_mem _ before)
          · exact .inr ⟨named, by rwa [List.lookup_cons, different]⟩

theorem nodup_alterEntry (different : (entries.map Prod.fst).Nodup) :
    ((Node.alterEntry name change entries).map Prod.fst).Nodup := by
  induction entries with
  | nil => cases made : change none <;> simp [Node.alterEntry_nil, made]
  | cons first rest ih =>
      obtain ⟨key, m⟩ := first
      obtain ⟨new, others⟩ := List.nodup_cons.mp different
      by_cases same : key = name
      · subst same
        cases made : change (some m) with
        | none =>
            simp only [Node.alterEntry_here, made]
            exact others.sublist (List.filter_sublist.map Prod.fst)
        | some m' =>
            simp only [Node.alterEntry_here, made]
            exact different
      · rw [Node.alterEntry_later same, List.map_cons]
        refine List.nodup_cons.mpr ⟨fun again => ?_, ih others⟩
        obtain ⟨entry, member, rfl⟩ := List.mem_map.mp again
        rcases mem_alterEntry member with before | ⟨named, -⟩
        · exact new (List.mem_map.mpr ⟨entry, before, rfl⟩)
        · exact same named

/-- A directory stays tidy when an entry of a proper name becomes something tidy. -/
theorem Tidy.alterEntry (isTidy : Tidy (.directory entries))
    (named : Path.IsName name ∧ '\x00' ∉ name.toList)
    (tidies : ∀ m, change (entries.lookup name) = some m → Tidy m) :
    Tidy (.directory (Node.alterEntry name change entries)) := by
  obtain ⟨different, all⟩ := tidy_directory_iff.mp isTidy
  refine tidy_directory_iff.mpr ⟨nodup_alterEntry different, fun entry member => ?_⟩
  rcases mem_alterEntry member with before | ⟨rfl, made⟩
  · exact all entry before
  · exact ⟨named, tidies _ made⟩

/-- A tree stays tidy when something tidy is set in it. -/
theorem Tidy.set (isTidy : Tidy n) (isTidy' : Tidy x)
    (named : ∀ part ∈ names, Path.IsName part ∧ '\x00' ∉ part.toList) :
    Tidy (n.alter (fun _ => some x) names) := by
  induction names generalizing n with
  | nil => cases n <;> exact isTidy
  | cons name rest ih =>
      cases n with
      | file f => cases rest <;> exact isTidy
      | link target => cases rest <;> exact isTidy
      | directory entries =>
          obtain ⟨isName, others⟩ := List.forall_mem_cons.mp named
          cases rest with
          | nil =>
              refine isTidy.alterEntry isName fun m made => ?_
              cases made
              exact isTidy'
          | cons next rest =>
              refine isTidy.alterEntry isName fun m made => ?_
              obtain ⟨inner, found, rfl⟩ := Option.map_eq_some_iff.mp made
              exact ih (isTidy.lookup found) others

/-! ## Leaves -/

mutual

/-- No leaf of a tidy tree is listed twice. -/
theorem nodup_leaves (n : Node) (tidy : Tidy n) : (n.leaves.map Prod.fst).Nodup := by
  match n with
  | .file f => simp [Node.leaves]
  | .link target => simp [Node.leaves]
  | .directory [] => simp [Node.leaves]
  | .directory (entry :: rest) =>
      rw [Node.leaves]
      · exact nodup_leavesOf (entry :: rest) tidy
      · simp

theorem nodup_leavesOf (entries : List (String × Node)) (tidy : Tidy (.directory entries)) :
    ((Node.leavesOf entries).map Prod.fst).Nodup := by
  match entries with
  | [] => exact List.nodup_nil
  | (name, n) :: rest =>
      obtain ⟨different, all⟩ := tidy_directory_iff.mp tidy
      obtain ⟨new, others⟩ := List.nodup_cons.mp different
      obtain ⟨⟨-, inside⟩, later⟩ := List.forall_mem_cons.mp all
      have below := (nodup_leaves n inside).map (List.cons_injective (a := name))
      rw [Node.leavesOf, List.map_append, List.nodup_append, List.map_map]
      refine ⟨?_, nodup_leavesOf rest (tidy_directory_iff.mpr ⟨others, later⟩), ?_⟩
      · rw [List.map_map] at below
        exact below
      · rintro names first names' second rfl
        obtain ⟨⟨inner, leaf⟩, -, rfl⟩ := List.mem_map.mp first
        obtain ⟨⟨names, leaf'⟩, listed, same⟩ := List.mem_map.mp second
        obtain ⟨name', n', deeper, member, split, -⟩ := mem_leavesOf.mp listed
        subst split
        obtain rfl : name' = name := (List.cons.inj same).1
        exact new (List.mem_map.mpr ⟨_, member, rfl⟩)

end

end Checksum

namespace Disk

open Checksum (Tidy tidy_hollow)

/-! ## Shapes -/

namespace Node

variable {n m leaf : Node} {front names : List String} {name : String}

/-- What stands at some names, seen from outside. -/
def shape (n : Node) (names : List String) : Option Node := (n.at? names).map outline

/-- A directory, seen from outside. -/
abbrev hollow : Node := .directory []

/-- A file, a link or an empty directory. -/
def Bare (n : Node) : Prop := n.outline = n

theorem bare_file (f : File) : Bare (.file f) := rfl

theorem bare_hollow : Bare hollow := rfl

theorem Bare.at?_cons (bare : Bare n) (name : String) (rest : List String) :
    n.at? (name :: rest) = none := by
  cases n with
  | file f => rfl
  | link target => rfl
  | directory entries =>
      cases bare
      rfl

theorem shape_eq_hollow : n.shape names = some hollow ↔
    ∃ entries, n.at? names = some (.directory entries) := by
  unfold shape
  constructor
  · intro same
    obtain ⟨m, there, looks⟩ := Option.map_eq_some_iff.mp same
    have looks : m.outline = outline (.directory []) := looks
    obtain ⟨entries, rfl⟩ := eq_directory_of_outline looks
    exact ⟨entries, there⟩
  · rintro ⟨entries, there⟩
    rw [there]
    rfl

theorem shape_eq_none : n.shape names = none ↔ n.at? names = none := Option.map_eq_none_iff

/-- Something stands only below directories. -/
theorem shape_of_below {back : List String} (there : n.shape (front ++ back) = some m)
    (below : back ≠ []) : n.shape front = some hollow := by
  obtain ⟨name, rest, rfl⟩ := List.exists_cons_of_ne_nil below
  obtain ⟨x, found, -⟩ := Option.map_eq_some_iff.mp there
  rw [at?_append] at found
  obtain ⟨y, above, inside⟩ := Option.bind_eq_some_iff.mp found
  cases y with
  | file f => cases inside
  | link target => cases inside
  | directory entries => exact shape_eq_hollow.mpr ⟨entries, above⟩

/-- Where a leaf takes the place of another leaf or of nothing, only that place looks different. -/
theorem shape_set (bare : Bare m) (above : n.shape front = some hollow)
    (old : n.shape (front ++ [name]) = none ∨
      ∃ leaf, n.at? (front ++ [name]) = some leaf ∧ Bare leaf) :
    (n.alter (fun _ => some m) (front ++ [name])).shape =
      Function.update n.shape (front ++ [name]) (some m) := by
  obtain ⟨entries, directory⟩ := shape_eq_hollow.mp above
  have set : (n.alter (fun _ => some m) (front ++ [name])).at? (front ++ [name]) = some m :=
    at?_alter directory name
  funext names
  by_cases inside : front ++ [name] <+: names
  · obtain ⟨deeper, rfl⟩ := inside
    cases deeper with
    | nil =>
        rw [List.append_nil, Function.update_self, shape, set, Option.map_some, bare]
    | cons next rest =>
        have nothing : n.at? (front ++ [name] ++ next :: rest) = none := by
          rw [at?_append]
          rcases old with absent | ⟨leaf, there, isBare⟩
          · rw [shape_eq_none.mp absent, Option.bind_none]
          · rw [there, Option.bind_some, isBare.at?_cons]
        rw [Function.update_of_ne (by simp), shape, shape, nothing, at?_append, set,
          Option.bind_some, bare.at?_cons]
  · have different : names ≠ front ++ [name] := by
      rintro rfl
      exact inside List.prefix_rfl
    rw [Function.update_of_ne different]
    exact outline_at?_alter inside _ n

end Node

/-! ## Trees on a disk -/

/-- A place on a disk where nothing stands, below a directory that a path enters. -/
structure Plot (made : Disk) (p : Path) (dir : List String) (fresh : String) : Prop where
  enters : made.Enters p dir
  isFresh : Path.IsName fresh
  absent : made.root.at? (dir ++ [fresh]) = none

namespace Plot

variable {made : Disk} {p : Path} {dir front names : List String} {fresh name : String} {n : Node}

/-- The disk with a tree at the place. -/
def plant (made : Disk) (dir : List String) (fresh : String) (n : Node) : Disk :=
  made.put (dir ++ [fresh]) (some n)

variable (plot : Plot made p dir fresh)

include plot

theorem at?_site (n : Node) : (plant made dir fresh n).root.at? (dir ++ [fresh]) = some n :=
  at?_put plot.enters fresh (some n)

theorem at?_below (n : Node) (names : List String) :
    (plant made dir fresh n).root.at? (dir ++ [fresh] ++ names) = n.at? names := by
  rw [Node.at?_append, plot.at?_site]
  rfl

theorem enters_site (n : Node) : (plant made dir fresh n).Enters p dir :=
  plot.enters.beside plot.absent _

/-- Everything that was there before is there beside the tree. -/
theorem extends_plant (n : Node) : made.Extends (plant made dir fresh n) :=
  ⟨Node.extends_alter plot.absent _, rfl, rfl⟩

/-- Below the place there is room to work. -/
theorem stage {entries : List (String × Node)} (isRoot : n = .directory entries) :
    Stage made (dir ++ [fresh]) (fun names => ∃ target, n.at? names = some (.link target))
      (plant made dir fresh n) := by
  refine ⟨put_remove plot.absent n, ⟨entries, ?_⟩, fun names target there => ⟨target, ?_⟩⟩
  · rw [plot.at?_site, isRoot]
  · rwa [plot.at?_below] at there

omit plot in
/-- A change below the place is a change of the tree. -/
theorem put_below (n : Node) (x : Option Node) (front : List String) (name : String) :
    (plant made dir fresh n).put (dir ++ [fresh] ++ front ++ [name]) x =
      plant made dir fresh (n.alter (fun _ => x) (front ++ [name])) := by
  rw [List.append_assoc]
  exact put_put_below made n x (by simp) (by simp)

theorem enters_below (proper : ∀ part ∈ names, Path.IsName part)
    (directory : n.shape names = some Node.hollow) :
    (plant made dir fresh n).Enters ((p.child fresh).below names) (dir ++ [fresh] ++ names) := by
  induction names using List.reverseRecOn with
  | nil =>
      obtain ⟨entries, there⟩ := Node.shape_eq_hollow.mp directory
      have site := plot.at?_site n
      rw [show n = .directory entries from Option.some.inj there] at site ⊢
      rw [List.append_nil]
      exact (plot.enters_site _).child plot.isFresh site
  | append_singleton front last ih =>
      obtain ⟨entries, there⟩ := Node.shape_eq_hollow.mp directory
      have above := ih (fun part member => proper part (by simp [member]))
        (Node.shape_of_below directory (by simp))
      have stands := plot.at?_below n (front ++ [last])
      rw [there, ← List.append_assoc] at stands
      rw [Path.below_concat, ← List.append_assoc]
      exact above.child (proper last (by simp)) stands

/-! ## Leaves -/

section Leaf

variable (proper : ∀ part ∈ front ++ [name], Path.IsName part)
  (above : n.shape front = some Node.hollow)

include proper above

theorem enters_above :
    (plant made dir fresh n).Enters ((p.child fresh).below front) (dir ++ [fresh] ++ front) :=
  plot.enters_below (fun part member => proper part (by simp [member])) above

omit proper above in
theorem at?_leaf (n : Node) :
    (plant made dir fresh n).root.at? (dir ++ [fresh] ++ front ++ [name]) =
      n.at? (front ++ [name]) := by
  rw [List.append_assoc, plot.at?_below]

/-- An entry is created where none was. -/
theorem create (absent : n.shape (front ++ [name]) = none) (node : Node) :
    (plant made dir fresh n).create ((p.child fresh).below (front ++ [name])) node =
      .ok (plant made dir fresh (n.alter (fun _ => some node) (front ++ [name]))) := by
  have isName : Path.IsName name := proper name (by simp)
  have enters := plot.enters_above proper above
  have unoccupied : (plant made dir fresh n).occupant? ⟨dir ++ [fresh] ++ front, name⟩ = none := by
    rw [occupant?, Slot.names, plot.at?_leaf]
    exact Node.shape_eq_none.mp absent
  rw [Path.below_concat, ← put_below]
  simp only [Disk.create, slot_child isName enters, bind, Except.bind, unoccupied, Slot.names]

/-- A file is written where no entry was. -/
theorem write (absent : n.shape (front ++ [name]) = none) (data : List UInt8) :
    (plant made dir fresh n).write ((p.child fresh).below (front ++ [name])) data =
      .ok (plant made dir fresh
        (n.alter (fun _ => some (.file ⟨data, newFileMode, made.now⟩)) (front ++ [name]))) := by
  have unoccupied : (plant made dir fresh n).root.at?
      (dir ++ [fresh] ++ front ++ [name]) = none := by
    rw [plot.at?_leaf]
    exact Node.shape_eq_none.mp absent
  rw [Path.below_concat, write_absent (plot.enters_above proper above) (proper name (by simp))
    unoccupied, put_below]
  rfl

/-- A file in the tree is changed there. -/
theorem touch {f : File} (there : n.at? (front ++ [name]) = some (.file f)) (change : File → File) :
    (plant made dir fresh n).touch ((p.child fresh).below (front ++ [name])) change =
      .ok (plant made dir fresh
        (n.alter (fun _ => some (.file (change f))) (front ++ [name]))) := by
  have found : (plant made dir fresh n).find ((p.child fresh).below (front ++ [name])) =
      .ok ⟨dir ++ [fresh] ++ front ++ [name], .file f⟩ := by
    rw [Path.below_concat]
    refine lookUp_child_eq (proper name (by simp)) (plot.enters_above proper above) ?_ (.inr nofun)
    rw [plot.at?_leaf, there]
  simp only [Disk.touch, found, bind, Except.bind, put_below]

end Leaf

/-! ## Directories -/

/-- On the way through some names there are only directories. -/
def Open (n : Node) (names : List String) : Prop :=
  ∀ before m, before <+: names → n.shape before = some m → m = Node.hollow

omit plot in
theorem Open.of_prefix (isOpen : Open n names) (inFront : front <+: names) : Open n front :=
  fun before m prefixed => isOpen before m (prefixed.trans inFront)

/-- Nothing is created below a directory that is not there. -/
theorem create_missing (proper : ∀ part ∈ front ++ [name], Path.IsName part) (isOpen : Open n front)
    (missing : n.shape front = none) (node : Node) :
    (plant made dir fresh n).create ((p.child fresh).below (front ++ [name])) node =
      .error .notFound := by
  have properFront : ∀ part ∈ front, Path.IsName part := fun part member =>
    proper part (by simp [member])
  have isName : Path.IsName name := proper name (by simp)
  obtain ⟨entries, leads⟩ := enters_stem.mpr (plot.enters_site n)
  have properBelow : ∀ part ∈ fresh :: front, Path.IsName part :=
    List.forall_mem_cons.mpr ⟨plot.isFresh, properFront⟩
  have lost (links : Nat) : walk (plant made dir fresh n).root true links dir (fresh :: front) =
      .error .notFound := by
    refine walk_missing properBelow ⟨entries, leads.at?_names⟩ (fun before m prefixed there => ?_)
      ?_ links
    · cases before with
      | nil =>
          rw [List.append_nil] at there
          exact ⟨entries, Option.some.inj (there.symm.trans leads.at?_names)⟩
      | cons first rest =>
          obtain ⟨rfl, inFront⟩ := List.cons_prefix_cons.mp prefixed
          rw [← List.singleton_append, ← List.append_assoc, plot.at?_below] at there
          have looks : n.shape rest = some m.outline := by rw [Node.shape, there, Option.map_some]
          have hollow : m.outline = Node.outline (.directory []) := isOpen rest _ inFront looks
          exact Node.eq_directory_of_outline hollow
    · rw [← List.singleton_append, ← List.append_assoc, plot.at?_below]
      exact Node.shape_eq_none.mp missing
  obtain ⟨parent, above, -⟩ := enters_parent_child isName (plant made dir fresh n)
    ((p.child fresh).below front) []
  have notFound : (plant made dir fresh n).find ((plant made dir fresh n).base
      ((p.child fresh).below front)) = .error .notFound := by
    obtain ⟨links', onward⟩ := leads.walk_append (List.cons_ne_nil fresh front) true
    rw [find_base, ← lost links', ← onward, Path.below_eq plot.isFresh properFront]
    unfold namesOf
    cases p.absolute <;> simp
  have belongs := Path.parent?_below plot.isFresh proper (p := p)
  have named : ((p.child fresh).below (front ++ [name])).fileName? = some name := by
    rw [Path.below_concat, Path.fileName?_child _ isName]
  simp only [Disk.create, slot, belongs, named, notFound, bind, Except.bind]

/-- A tree after directories have been created on the way through some names. -/
structure Grown (n : Node) (names : List String) (n' : Node) : Prop where
  added : ∀ before, before <+: names → n'.shape before = some Node.hollow
  kept : ∀ elsewhere, ¬ elsewhere <+: names → n'.shape elsewhere = n.shape elsewhere
  tidy : (∀ part ∈ names, '\x00' ∉ part.toList) → Tidy n → Tidy n'

omit plot in
theorem Open.hollow (isOpen : Open n names) : n.shape [] = some Node.hollow := by
  have looks : n.shape [] = some n.outline := rfl
  rw [looks, isOpen [] _ List.nil_prefix looks]

omit plot in
/-- Nothing has to be created where there is a directory. -/
theorem grown_self (directory : n.shape names = some Node.hollow) : Grown n names n := by
  refine ⟨?_, fun _ _ => rfl, fun _ => id⟩
  rintro before ⟨back, rfl⟩
  by_cases here : back = []
  · rwa [here, List.append_nil] at directory
  · exact Node.shape_of_below directory here

omit plot in
/-- The last directory is created when those above it are there. -/
theorem Grown.concat {n' : Node} (proper : ∀ part ∈ front ++ [name], Path.IsName part)
    (grown : Grown n front n') (absent : n'.shape (front ++ [name]) = none) :
    Grown n (front ++ [name]) (n'.alter (fun _ => some Node.hollow) (front ++ [name])) := by
  have set := Node.shape_set Node.bare_hollow (grown.added front List.prefix_rfl) (.inl absent)
  refine ⟨fun before prefixed => ?_, fun elsewhere off => ?_, fun without isTidy => ?_⟩
  · rw [set]
    rcases List.prefix_concat_iff.mp prefixed with rfl | inFront
    · rw [Function.update_self]
    · rw [Function.update_of_ne, grown.added before inFront]
      rintro rfl
      have short := inFront.length_le
      simp at short
  · have notFront : ¬ elsewhere <+: front := fun inFront =>
      off (inFront.trans (List.prefix_append _ _))
    rw [set, Function.update_of_ne, grown.kept elsewhere notFront]
    rintro rfl
    exact off List.prefix_rfl
  · have before := grown.tidy (fun part member => without part (by simp [member])) isTidy
    exact before.set tidy_hollow (fun part member => ⟨proper part member, without part member⟩)

theorem below_notEmpty (proper : ∀ part ∈ names, Path.IsName part) :
    (!((p.child fresh).below names).absolute && ((p.child fresh).below names).names.isEmpty) =
      false := by
  simp [Path.below_eq plot.isFresh proper]

/-- A directory that is there is found to be one. -/
theorem createDirectories_there (proper : ∀ part ∈ names, Path.IsName part)
    (directory : n.shape names = some Node.hollow) (bound : Nat) :
    createDirectoriesFrom (bound + 1) (plant made dir fresh n) ((p.child fresh).below names) =
      .ok (plant made dir fresh n) := by
  have notEmpty := plot.below_notEmpty proper
  have enters := plot.enters_below proper directory
  have refused := create_of_enters enters notEmpty Node.hollow
  simp only [createDirectoriesFrom, createDirectory, notEmpty, refused,
    isDirectory_of_enters enters notEmpty, if_true, Bool.false_eq_true, if_false]

omit plot in
theorem concat_not_below (front : List String) (name : String) : ¬ front ++ [name] <+: front :=
  fun inFront => by simpa using inFront.length_le

section Next

variable {n' : Node} (proper : ∀ part ∈ front ++ [name], Path.IsName part)
  (grown : Grown n front n') (absent : n.shape (front ++ [name]) = none)

include proper grown absent

/-- Below directories that have been created the next one is created. -/
theorem createDirectory_next :
    (plant made dir fresh n').createDirectory ((p.child fresh).below (front ++ [name])) =
        .ok (plant made dir fresh (n'.alter (fun _ => some Node.hollow) (front ++ [name]))) ∧
      Grown n (front ++ [name]) (n'.alter (fun _ => some Node.hollow) (front ++ [name])) := by
  have absent' : n'.shape (front ++ [name]) = none := by
    rw [grown.kept _ (concat_not_below front name), absent]
  exact ⟨plot.create proper (grown.added front List.prefix_rfl) absent' _,
    grown.concat proper absent'⟩

/-- It has not been there. -/
theorem not_isDirectory_next :
    (plant made dir fresh n').isDirectory ((p.child fresh).below (front ++ [name])) = false := by
  have unfound : (plant made dir fresh n').find ((p.child fresh).below (front ++ [name])) =
      .error .notFound := by
    rw [Path.below_concat]
    refine lookUp_child_absent (plot.enters_above proper (grown.added front List.prefix_rfl))
      (proper name (by simp)) ?_
    rw [plot.at?_leaf]
    refine Node.shape_eq_none.mp ?_
    rw [grown.kept _ (concat_not_below front name), absent]
  simp only [isDirectory, unfound]

end Next

/-- Directories are created below the place unless something else stands in the way. -/
theorem createDirectories (proper : ∀ part ∈ names, Path.IsName part) (isOpen : Open n names) :
    ∃ n', (plant made dir fresh n).createDirectories ((p.child fresh).below names) =
      .ok (plant made dir fresh n') ∧ Grown n names n' := by
  unfold Disk.createDirectories
  have enough : names.length < ((p.child fresh).below names).names.length + 1 := by
    simp only [Path.below_eq plot.isFresh proper, List.length_append]
    omega
  generalize ((p.child fresh).below names).names.length + 1 = bound at enough
  obtain ⟨bound, rfl⟩ := Nat.exists_eq_add_one_of_ne_zero (Nat.ne_zero_of_lt enough)
  induction names using List.reverseRecOn generalizing bound with
  | nil => exact ⟨n, plot.createDirectories_there proper isOpen.hollow _, grown_self isOpen.hollow⟩
  | append_singleton front last ih =>
      have openFront := isOpen.of_prefix (List.prefix_append front [last])
      cases whole : n.shape (front ++ [last]) with
      | some m =>
          obtain rfl := isOpen _ m List.prefix_rfl whole
          exact ⟨n, plot.createDirectories_there proper whole _, grown_self whole⟩
      | none =>
          cases above : n.shape front with
          | some m =>
              obtain rfl := openFront front m List.prefix_rfl above
              obtain ⟨created, grown⟩ := plot.createDirectory_next proper (grown_self above) whole
              refine ⟨_, ?_, grown⟩
              simp only [createDirectoriesFrom, plot.below_notEmpty proper, created,
                Bool.false_eq_true, if_false]
          | none =>
              have missing := plot.create_missing proper openFront above Node.hollow
              obtain ⟨less, rfl⟩ : ∃ less, bound = less + 1 := Nat.exists_eq_add_one_of_ne_zero (by
                simp only [List.length_append, List.length_singleton] at enough
                omega)
              obtain ⟨n', createdAbove, grownAbove⟩ := ih
                (fun part member => proper part (by simp [member])) openFront less
                (by simp only [List.length_append, List.length_singleton] at enough; omega)
              obtain ⟨created, grown⟩ := plot.createDirectory_next proper grownAbove whole
              have absent := plot.not_isDirectory_next proper grownAbove whole
              refine ⟨_, ?_, grown⟩
              rw [createDirectoriesFrom, plot.below_notEmpty proper]
              simp only [createDirectory, missing, Path.parent?_below plot.isFresh proper,
                createdAbove, bind, Except.bind, absent, Bool.false_eq_true, if_false]
              exact created

end Plot

end Disk

end FunctionArchive
