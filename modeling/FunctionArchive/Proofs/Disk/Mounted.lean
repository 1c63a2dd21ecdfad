import FunctionArchive.Proofs.Disk.Straight
import FunctionArchive.Resolution

/-!
# A tree that stands somewhere

A tree can stand at any place of a file system. It keeps its entries there; only a link to an
absolute path, which starts from the root of the tree, then starts from that place
(`Node.mounted`).

A way through a tree `Climbs` if it leads above the root. From anywhere else it leads to the same
below the place of the tree, whatever that place is (`Hosts.walk_eq`), so what is asked about a path
below it is answered by the tree alone (`Hosts.lookUp_eq`). If no link of the tree leads above the
root, a way through it can do so only by a step upwards in the path itself (`Inside.append`).
-/

set_option autoImplicit false

namespace FunctionArchive

/-- The spelling of names without slashes is read back, but for a lone empty name. -/
theorem Path.ofString_text {names : List String} (noSlash : ∀ name ∈ names, '/' ∉ name.toList)
    (notBlank : names ≠ [""]) : ofString (ofNames names).text = ofNames names := by
  have chars : (ofNames names).text.toList = '/' :: ("/".intercalate names).toList := by
    simp [text, ofNames]
  cases names with
  | nil => decide
  | cons name rest =>
      have parts := split_intercalate noSlash (List.cons_ne_nil name rest)
      cases spelled : ("/".intercalate (name :: rest)).toList with
      | nil =>
          rw [spelled] at parts
          exact absurd parts.symm notBlank
      | cons first others =>
          rw [spelled] at chars parts
          unfold ofString
          rw [chars]
          exact congrArg ofNames parts

/-- An absolute path has an empty name only in front of another. -/
theorem Path.names_ne_blank {text : String} (absolute : (ofString text).absolute = true) :
    (ofString text).names ≠ [""] := by
  intro blank
  unfold ofString at absolute blank
  split at absolute
  · cases absolute
  · rename_i spelled
    rw [spelled] at blank
    cases blank
  · rename_i rest notRoot spelled
    rw [spelled] at blank
    cases rest with
    | nil => exact notRoot rfl
    | cons first others =>
        have parts : (first :: others).splitOn '/' = [[]] := by
          simpa [split, List.map_eq_singleton_iff] using blank
        have whole : ['/'].intercalate ((first :: others).splitOn '/') = first :: others :=
          List.intercalate_splitOn '/'
        rw [parts] at whole
        cases whole
  · cases absolute

namespace Disk

open Path (Proper IsName)

/-! ## Trees at their places -/

/-- The text of a link in a tree that stands at `site`. An absolute path starts from the tree. -/
def mountedText (site : List String) (text : String) : String :=
  if (Path.ofString text).absolute then
    (Path.ofNames (site ++ (Path.ofString text).names)).text
  else text

namespace Node

mutual

/-- A tree as it stands at `site`. -/
def mounted (site : List String) : Node → Node
  | .file f => .file f
  | .link text => .link (mountedText site text)
  | .directory entries => .directory (mountedEntries site entries)

/-- The entries of a directory as they stand at `site`. -/
def mountedEntries (site : List String) : List (String × Node) → List (String × Node)
  | [] => []
  | (name, n) :: rest => (name, n.mounted site) :: mountedEntries site rest

end

variable {site : List String}

theorem mountedEntries_eq (entries : List (String × Node)) :
    mountedEntries site entries = entries.map fun entry => (entry.1, entry.2.mounted site) := by
  induction entries with
  | nil => rfl
  | cons entry rest ih => rw [mountedEntries, ih, List.map_cons]

theorem lookup_mountedEntries (entries : List (String × Node)) (name : String) :
    (mountedEntries site entries).lookup name = (entries.lookup name).map (mounted site) := by
  induction entries with
  | nil => rfl
  | cons entry rest ih =>
      rw [mountedEntries, List.lookup_cons, List.lookup_cons]
      split
      · rfl
      · exact ih

theorem at?_mounted (n : Node) (names : List String) :
    (n.mounted site).at? names = (n.at? names).map (mounted site) := by
  induction names generalizing n with
  | nil => rfl
  | cons name rest ih =>
      cases n with
      | file f => rfl
      | link text => rfl
      | directory entries =>
          rw [mounted]
          simp only [at?, child?, lookup_mountedEntries]
          cases entries.lookup name with
          | none => rfl
          | some inner => exact ih inner

end Node

/-- An absolute link of a mounted tree leads below the place of the tree. -/
theorem ofString_mountedText {site : List String} (proper : Proper site) (text : String) :
    Path.ofString (mountedText site text) =
      if (Path.ofString text).absolute then .ofNames (site ++ (Path.ofString text).names)
      else Path.ofString text := by
  unfold mountedText
  split
  · rename_i absolute
    refine Path.ofString_text (List.forall_mem_append.mpr
      ⟨proper.noSlash, Path.noSlash_ofString text⟩) fun blank => ?_
    cases site with
    | nil => exact Path.names_ne_blank absolute blank
    | cons first rest =>
        obtain ⟨rfl, -⟩ : first = "" ∧ rest ++ (Path.ofString text).names = [] := by
          simpa using blank
        exact proper.not_blank
  · rfl

/-- The tree as a file system of its own. -/
def ofTree (tree : Node) : Disk := ⟨tree, .root, 0⟩

/-- A tree stands at `site`, below directories in which nothing else but directories stands, none of
them for installed packages. -/
structure Hosts (d : Disk) (site : List String) (tree : Node) : Prop where
  proper : Proper site
  there : d.root.at? site = some (tree.mounted site)
  above : ∀ front name node, front <+: site → front ≠ site →
    d.root.at? (front ++ [name]) = some node →
      name ≠ Resolution.packagesName ∧ ∃ entries, node = .directory entries

/-! ## Ways that lead above a tree -/

section Climbing

variable {tree : Node} {here names front rest : List String}

/-- Some names lead above the root of a tree when they are followed from the directory `here`. -/
inductive Climbs (tree : Node) : List String → List String → Prop
  | out {rest : List String} : Climbs tree [] (".." :: rest)
  | back {here rest : List String} (inside : here ≠ [])
      (onward : Climbs tree here.dropLast rest) : Climbs tree here (".." :: rest)
  | stay {here rest : List String} {name : String} (redundant : Path.isRedundant name = true)
      (onward : Climbs tree here rest) : Climbs tree here (name :: rest)
  | down {here rest : List String} {name : String} {node : Node}
      (named : Path.isRedundant name = false) (notUp : name ≠ "..")
      (found : tree.at? (here ++ [name]) = some node) (notLink : ∀ target, node ≠ .link target)
      (onward : Climbs tree (here ++ [name]) rest) : Climbs tree here (name :: rest)
  | follow {here rest : List String} {name target : String}
      (named : Path.isRedundant name = false) (notUp : name ≠ "..")
      (found : tree.at? (here ++ [name]) = some (.link target))
      (onward : Climbs tree (if (Path.ofString target).absolute then [] else here)
        ((Path.ofString target).names ++ rest)) : Climbs tree here (name :: rest)

/-- Names that do not lead above the root of a tree when they are followed from there. -/
def Inside (tree : Node) (names : List String) : Prop := ¬ Climbs tree [] names

/-- No link of a tree leads above its root. -/
def LinksStay (tree : Node) : Prop :=
  ∀ here name target, tree.at? (here ++ [name]) = some (.link target) →
    ¬ Climbs tree (if (Path.ofString target).absolute then [] else here)
      (Path.ofString target).names

theorem not_climbs_nil : ¬ Climbs tree here [] := by
  intro climbs
  cases climbs

theorem Climbs.append (climbs : Climbs tree here names) (rest : List String) :
    Climbs tree here (names ++ rest) := by
  induction climbs with
  | out => exact .out
  | back inside _ ih => exact .back inside ih
  | stay redundant _ ih => exact .stay redundant ih
  | down named notUp found notLink _ ih => exact .down named notUp found notLink ih
  | follow named notUp found _ ih =>
      rw [List.append_assoc] at ih
      exact .follow named notUp found ih

/-- Where no link leads above the root, names that go down or stay do not either. -/
theorem Climbs.of_append (links : LinksStay tree) (climbs : Climbs tree here (front ++ rest))
    (level : ".." ∉ rest) : Climbs tree here front := by
  generalize split : front ++ rest = names at climbs
  induction climbs generalizing front rest with
  | out =>
      cases front with
      | nil =>
          rw [List.nil_append] at split
          exact absurd (split ▸ List.mem_cons_self) level
      | cons name front =>
          cases split
          exact .out
  | back inside _ ih =>
      cases front with
      | nil =>
          rw [List.nil_append] at split
          exact absurd (split ▸ List.mem_cons_self) level
      | cons name front =>
          cases split
          exact .back inside (ih level rfl)
  | stay redundant _ ih =>
      cases front with
      | nil =>
          cases split
          exact ih (fun up => level (List.mem_cons_of_mem _ up)) (List.nil_append _)
      | cons name front =>
          cases split
          exact .stay redundant (ih level rfl)
  | down named notUp found notLink _ ih =>
      cases front with
      | nil =>
          cases split
          have none := ih (fun up => level (List.mem_cons_of_mem _ up)) (List.nil_append _)
          exact absurd none not_climbs_nil
      | cons name front =>
          cases split
          exact .down named notUp found notLink (ih level rfl)
  | @follow here' rest' name' target named notUp found _ ih =>
      cases front with
      | nil =>
          cases split
          exact absurd (ih (fun up => level (List.mem_cons_of_mem _ up)) rfl) (links _ _ _ found)
      | cons name front =>
          cases split
          exact .follow named notUp found (ih level (List.append_assoc _ _ _))

theorem inside_nil : Inside tree [] := not_climbs_nil

theorem Inside.append (inside : Inside tree names) (links : LinksStay tree) (level : ".." ∉ rest) :
    Inside tree (names ++ rest) :=
  fun climbs => inside (climbs.of_append links level)

theorem inside_of_level (links : LinksStay tree) (level : ".." ∉ names) : Inside tree names :=
  inside_nil.append links level

theorem Inside.of_append (inside : Inside tree (names ++ rest)) : Inside tree names :=
  fun climbs => inside (climbs.append rest)

/-- What leads above the root from where some names lead does so behind these names. -/
theorem Climbs.of_leads {links : Nat} {place : Place}
    (leads : Leads tree true links here names place)
    (climbs : Climbs tree place.names rest) : Climbs tree here (names ++ rest) := by
  induction leads with
  | arrive => exact climbs
  | stay _ redundant _ ih => exact .stay redundant (ih climbs)
  | @up links here _ _ _ _ _ ih =>
      cases here with
      | nil => exact .out
      | cons first others => exact .back (List.cons_ne_nil _ _) (ih climbs)
  | down directory named notUp found notLink _ ih =>
      refine .down named notUp ?_ notLink (ih climbs)
      rw [Node.at?_concat_of_directory directory, found]
  | stop _ _ _ _ notFollowed => cases notFollowed
  | follow directory named notUp found _ _ ih =>
      have there := (Node.at?_concat_of_directory directory _).trans found
      have onward := ih climbs
      rw [List.append_assoc] at onward
      exact .follow named notUp there onward

/-- A straight way to something that is no link does not matter. -/
theorem Climbs.of_straight {node : Node} (there : tree.at? (here ++ names) = some node)
    (notLink : ∀ target, node ≠ .link target) (down : LeadsDown names)
    (climbs : Climbs tree here (names ++ rest)) : Climbs tree (here ++ names) rest := by
  induction names generalizing here with
  | nil => simpa using climbs
  | cons name others ih =>
      obtain ⟨named, notUp⟩ := down name List.mem_cons_self
      have downOthers : LeadsDown others := fun other member =>
        down other (List.mem_cons_of_mem _ member)
      rw [List.append_cons] at there ⊢
      cases climbs with
      | out => exact absurd rfl notUp
      | back => exact absurd rfl notUp
      | stay redundant =>
          rw [named] at redundant
          cases redundant
      | down _ _ _ _ onward => exact ih there downOthers onward
      | follow _ _ found _ =>
          cases others with
          | nil =>
              rw [List.append_nil, found] at there
              exact absurd (Option.some.inj there).symm (notLink _)
          | cons next others =>
              obtain ⟨inner, isDirectory⟩ :=
                Node.directory_of_at?_append there (List.cons_ne_nil next others)
              rw [found] at isDirectory
              cases isDirectory

/-- A redundant name more changes nothing. -/
theorem Climbs.insert_redundant {name : String} (redundant : Path.isRedundant name = true)
    (climbs : Climbs tree here (front ++ rest)) : Climbs tree here (front ++ name :: rest) := by
  generalize split : front ++ rest = names at climbs
  induction climbs generalizing front with
  | out =>
      cases front with
      | nil =>
          cases split
          exact .stay redundant .out
      | cons first front =>
          cases split
          exact .out
  | back inside onward ih =>
      cases front with
      | nil =>
          cases split
          exact .stay redundant (.back inside onward)
      | cons first front =>
          cases split
          exact .back inside (ih rfl)
  | stay redundant' onward ih =>
      cases front with
      | nil =>
          cases split
          exact .stay redundant (.stay redundant' onward)
      | cons first front =>
          cases split
          exact .stay redundant' (ih rfl)
  | down named notUp found notLink onward ih =>
      cases front with
      | nil =>
          cases split
          exact .stay redundant (.down named notUp found notLink onward)
      | cons first front =>
          cases split
          exact .down named notUp found notLink (ih rfl)
  | follow named notUp found onward ih =>
      cases front with
      | nil =>
          cases split
          exact .stay redundant (.follow named notUp found onward)
      | cons first front =>
          cases split
          have further := ih (List.append_assoc _ _ _)
          rw [List.append_assoc] at further
          exact .follow named notUp found further

theorem Climbs.of_filter (front : List String)
    (climbs : Climbs tree here (front ++ names.filter (!Path.isRedundant ·))) :
    Climbs tree here (front ++ names) := by
  induction names generalizing front with
  | nil => exact climbs
  | cons name others ih =>
      cases redundant : Path.isRedundant name with
      | true =>
          rw [List.filter_cons_of_neg (by simp [redundant])] at climbs
          exact (ih front climbs).insert_redundant redundant
      | false =>
          rw [List.filter_cons_of_pos (by simp [redundant]), List.append_cons] at climbs
          rw [List.append_cons]
          exact ih _ climbs

/-- Redundant names do not lead above the root. -/
theorem Inside.filter (inside : Inside tree names) :
    Inside tree (names.filter (!Path.isRedundant ·)) :=
  fun climbs => inside (Climbs.of_filter [] climbs)

end Climbing

/-! ## Looking paths up below a tree -/

/-- A straight way through directories is a way to go on from its end. -/
theorem walk_straight {root : Node} {here names rest : List String} {followLast : Bool}
    {links : Nat}
    {entries : List (String × Node)} (there : root.at? (here ++ names) = some (.directory entries))
    (down : LeadsDown names) :
    walk root followLast links here (names ++ rest) =
      walk root followLast links (here ++ names) rest := by
  induction names generalizing here with
  | nil => rw [List.append_nil, List.nil_append]
  | cons name others ih =>
      obtain ⟨named, notUp⟩ := down name List.mem_cons_self
      have onward := @ih (here ++ [name]) (by simpa using there)
        fun other member => down other (List.mem_cons_of_mem _ member)
      obtain ⟨above, isAbove⟩ := Node.directory_of_at?_append there (List.cons_ne_nil _ _)
      obtain ⟨inner, found⟩ : ∃ inner, above.lookup name = some (.directory inner) := by
        rw [← Node.at?_concat_of_directory isAbove]
        cases others with
        | nil => exact ⟨entries, there⟩
        | cons next others =>
            rw [List.append_cons] at there
            exact Node.directory_of_at?_append there (List.cons_ne_nil _ _)
      rw [List.append_assoc, List.singleton_append] at onward
      rw [List.cons_append, walk, isAbove]
      simp only [named, Bool.false_eq_true, if_false, beq_iff_eq, notUp, found]
      exact onward

/-- The same from the root on. -/
theorem walk_straight_root {root : Node} {names rest : List String} {followLast : Bool}
    {links : Nat}
    {entries : List (String × Node)} (there : root.at? names = some (.directory entries))
    (down : LeadsDown names) :
    walk root followLast links [] (names ++ rest) = walk root followLast links names rest :=
  walk_straight there down

variable {d : Disk} {site : List String} {tree : Node} {here names pending : List String}
  {followLast : Bool} {links : Nat}

/-- A place of a tree, as the disk names it on which the tree stands at `site`. -/
def Place.mounted (site : List String) (p : Place) : Place :=
  ⟨site ++ p.names, p.node.mounted site⟩

namespace Hosts

theorem at?_eq (hosts : d.Hosts site tree) (names : List String) :
    d.root.at? (site ++ names) = (tree.at? names).map (Node.mounted site) := by
  rw [Node.at?_append, hosts.there, Option.bind_some, Node.at?_mounted]

/-- The directories on the way to a tree. -/
theorem directory_above (hosts : d.Hosts site tree) {front : List String} (inFront : front <+: site)
    (strict : front ≠ site) : ∃ entries, d.root.at? front = some (.directory entries) := by
  obtain ⟨rest, rfl⟩ := inFront
  refine Node.directory_of_at?_append hosts.there ?_
  rintro rfl
  exact strict (List.append_nil front).symm

/-- The way to a tree leads straight down. -/
theorem enter (hosts : d.Hosts site tree) (pending : List String) :
    walk d.root followLast links [] (site ++ pending) =
      walk d.root followLast links site pending := by
  rcases List.eq_nil_or_concat site with rfl | ⟨front, last, rfl⟩
  · rfl
  · rw [List.concat_eq_append] at hosts ⊢
    have there := hosts.there
    obtain ⟨-, entries, directory⟩ :=
      hosts.above front last _ (List.prefix_append _ _) (by simp) there
    rw [directory] at there
    exact walk_straight there hosts.proper.leadsDown

/-- What a name leads to in a directory on the way to a tree: to a directory, not that of installed
packages, or to nothing. -/
theorem find_above (hosts : d.Hosts site tree) {front : List String} {name : String}
    (inFront : front <+: site) (strict : front ≠ site) (isName : IsName name) :
    (∃ real entries, d.find (.ofNames (front ++ [name])) = .ok ⟨real, .directory entries⟩ ∧
        name ≠ Resolution.packagesName) ∨
      d.find (.ofNames (front ++ [name])) = .error .notFound := by
  obtain ⟨entries, directory⟩ := hosts.directory_above inFront strict
  have proper : Proper (front ++ [name]) :=
    Path.proper_append.mpr ⟨hosts.proper.of_prefix inFront, Path.proper_singleton.mpr isName⟩
  cases there : d.root.at? (front ++ [name]) with
  | some node =>
      obtain ⟨notPackages, inner, rfl⟩ := hosts.above front name node inFront strict there
      exact .inl ⟨_, inner, find_of_at? there proper.leadsDown (by rintro target ⟨⟩), notPackages⟩
  | none =>
      rw [Node.at?_concat_of_directory directory] at there
      have way : walk d.root true maxLinks [] (front ++ [name]) =
          walk d.root true maxLinks ([] ++ front) [name] :=
        walk_straight directory (hosts.proper.of_prefix inFront).leadsDown
      have last : walk d.root true maxLinks front [name] = .error .notFound := by
        simp [walk, directory, isName.notRedundant, isName.2.2, there]
      refine .inr ?_
      simp only [find, lookUp, namesOf, Path.ofNames, Bool.not_true, Bool.false_and,
        Bool.false_eq_true, if_false, if_true]
      rw [way, List.nil_append, last]

theorem isFile_above (hosts : d.Hosts site tree) {front : List String} {name : String}
    (inFront : front <+: site) (strict : front ≠ site) (isName : IsName name) :
    d.isFile (.ofNames (front ++ [name])) = false := by
  rcases hosts.find_above inFront strict isName with ⟨real, entries, found, -⟩ | absent
  · simp [isFile, found]
  · simp [isFile, absent]

theorem packages_above (hosts : d.Hosts site tree) {front : List String} (inFront : front <+: site)
    (strict : front ≠ site) :
    d.isDirectory (.ofNames (front ++ [Resolution.packagesName])) = false := by
  have isName : IsName Resolution.packagesName := by decide
  rcases hosts.find_above inFront strict isName with ⟨real, entries, -, notPackages⟩ | absent
  · exact absurd rfl notPackages
  · simp [isDirectory, absent]

theorem fetch_above (hosts : d.Hosts site tree) {front : List String} (inFront : front <+: site)
    (strict : front ≠ site) :
    Manifests.fetch d (.ofNames (front ++ [Manifest.fileName])) = .ok none := by
  have isName : IsName Manifest.fileName := by decide
  rcases hosts.find_above inFront strict isName with ⟨real, entries, found, -⟩ | absent
  · simp [Manifests.fetch, read, file, found, Except.map]
  · simp [Manifests.fetch, read, file, absent, Except.map]

/-- Names that do not lead above the tree lead to the same wherever the tree stands. -/
theorem walk_eq (hosts : d.Hosts site tree) (stays : ¬ Climbs tree here pending) :
    walk d.root followLast links (site ++ here) pending =
      (walk tree followLast links here pending).map (Place.mounted site) := by
  fun_induction walk tree followLast links here pending with
  | case1 links here node there => simp [walk, hosts.at?_eq, there, Except.map, Place.mounted]
  | case2 links here absent => simp [walk, hosts.at?_eq, absent, Except.map]
  | case3 links here name rest absent => simp [walk, hosts.at?_eq, absent, Except.map]
  | case4 links here name rest f there =>
      simp [walk, hosts.at?_eq, there, Except.map, Node.mounted]
  | case5 links here name rest target there =>
      simp [walk, hosts.at?_eq, there, Except.map, Node.mounted]
  | case6 links here name rest entries directory redundant ih =>
      have onward := ih fun climbs => stays (.stay redundant climbs)
      simp [walk, hosts.at?_eq, directory, Node.mounted, redundant, onward]
  | case7 links here name rest entries directory named up ih =>
      cases eq_of_beq up
      have notRoot : here ≠ [] := by
        rintro rfl
        exact stays .out
      have onward := ih fun climbs => stays (.back notRoot climbs)
      rw [← List.dropLast_append_of_ne_nil notRoot] at onward
      simp [walk, hosts.at?_eq, directory, Node.mounted, Path.isRedundant, onward]
  | case8 links here name rest entries directory named notUp absent =>
      simp [walk, hosts.at?_eq, directory, Node.mounted, named, notUp, absent,
        Node.lookup_mountedEntries, Except.map]
  | case9 links here name rest entries directory named notUp target found stop =>
      simp [walk, hosts.at?_eq, directory, Node.mounted, named, notUp, found,
        Node.lookup_mountedEntries, Except.map, stop, Place.mounted]
  | case10 here name rest entries directory named notUp target found followed =>
      simp [walk, hosts.at?_eq, directory, Node.mounted, named, notUp, found,
        Node.lookup_mountedEntries, Except.map, followed]
  | case11 here name rest entries directory named notUp target found followed links path ih =>
      have named' : Path.isRedundant name = false := by simpa using named
      have notUp' : name ≠ ".." := by simpa using notUp
      have there := (Node.at?_concat_of_directory directory name).trans found
      have onward := ih fun climbs => stays (.follow named' notUp' there climbs)
      have text := ofString_mountedText hosts.proper target
      rw [walk, hosts.at?_eq, directory]
      simp only [Option.map_some, Node.mounted, Node.lookup_mountedEntries, found, named,
        notUp, followed,
        text, Bool.false_eq_true, if_false]
      have isPath : Path.ofString target = path := rfl
      rw [isPath]
      clear_value path
      refine Eq.trans ?_ onward
      cases absolute : path.absolute with
      | true => simp [Path.ofNames, hosts.enter]
      | false => simp [absolute]
  | case12 links here name rest entries directory named notUp node notLink found ih =>
      have named' : Path.isRedundant name = false := by simpa using named
      have notUp' : name ≠ ".." := by simpa using notUp
      have there := (Node.at?_concat_of_directory directory name).trans found
      have onward := ih fun climbs =>
        stays (.down named' notUp' there (fun target => notLink target) climbs)
      rw [walk, hosts.at?_eq, directory]
      simp only [Option.map_some, Node.mounted, Node.lookup_mountedEntries, found, named, notUp,
        Bool.false_eq_true, if_false]
      rw [← onward, ← List.append_assoc]
      cases node with
      | link target => exact absurd rfl (notLink target)
      | file f => rfl
      | directory inner => rfl

/-- A path of the tree leads to the same wherever the tree stands. -/
theorem lookUp_eq (hosts : d.Hosts site tree) (inside : Inside tree names) :
    d.lookUp followLast (.ofNames (site ++ names)) =
      ((ofTree tree).lookUp followLast (.ofNames names)).map (Place.mounted site) := by
  have way : walk d.root followLast maxLinks (site ++ []) names =
      (walk tree followLast maxLinks [] names).map (Place.mounted site) := hosts.walk_eq inside
  rw [List.append_nil] at way
  simp only [lookUp, namesOf, Path.ofNames, ofTree, Bool.not_true, Bool.false_and,
    Bool.false_eq_true,
    if_false, if_true]
  rw [hosts.enter]
  exact way

theorem isFile_eq (hosts : d.Hosts site tree) (inside : Inside tree names) :
    d.isFile (.ofNames (site ++ names)) = (ofTree tree).isFile (.ofNames names) := by
  simp only [isFile, find, hosts.lookUp_eq inside]
  rcases (ofTree tree).lookUp true (.ofNames names) with _ | ⟨_, _ | _ | _⟩ <;> rfl

theorem isDirectory_eq (hosts : d.Hosts site tree) (inside : Inside tree names) :
    d.isDirectory (.ofNames (site ++ names)) = (ofTree tree).isDirectory (.ofNames names) := by
  simp only [isDirectory, find, hosts.lookUp_eq inside]
  rcases (ofTree tree).lookUp true (.ofNames names) with _ | ⟨_, _ | _ | _⟩ <;> rfl

theorem isLink_eq (hosts : d.Hosts site tree) (inside : Inside tree names) :
    d.isLink (.ofNames (site ++ names)) = (ofTree tree).isLink (.ofNames names) := by
  simp only [isLink, findEntry, hosts.lookUp_eq inside]
  rcases (ofTree tree).lookUp false (.ofNames names) with _ | ⟨_, _ | _ | _⟩ <;> rfl

theorem realPath_eq (hosts : d.Hosts site tree) (inside : Inside tree names) :
    d.realPath (.ofNames (site ++ names)) =
      ((ofTree tree).realPath (.ofNames names)).map fun real => .ofNames (site ++ real.names) := by
  simp only [realPath, find, hosts.lookUp_eq inside]
  rcases (ofTree tree).lookUp true (.ofNames names) with _ | _ <;> rfl

theorem file_eq (hosts : d.Hosts site tree) (inside : Inside tree names) :
    d.file (.ofNames (site ++ names)) = (ofTree tree).file (.ofNames names) := by
  simp only [file, find, hosts.lookUp_eq inside]
  rcases (ofTree tree).lookUp true (.ofNames names) with _ | ⟨_, _ | _ | _⟩ <;> rfl

end Hosts

end Disk

end FunctionArchive
