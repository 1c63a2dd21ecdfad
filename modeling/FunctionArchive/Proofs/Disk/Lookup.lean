import FunctionArchive.Disk.Walk

/-!
# Where a look-up leads

A look-up that ends somewhere passes through directories, one name at a time. `Leads` lists the
steps that it can take: a redundant name stays where it is, `..` goes up, any other name goes down
or, if a link stands there, starts again at the text of the link. A look-up has a result exactly
when such steps lead to it (`leads_iff_walk`), so what holds of all results is proved by induction
on the steps.

What a look-up ends with stands in the tree under the names that it reports (`Leads.at?_names`), so
every real path is among the paths of the file system (`realPath_mem_allPaths`). Redundant names
in front of a name that leads somewhere do not matter, neither to the result nor to the refusal
(`find_eq_of_same`).
-/

set_option autoImplicit false

namespace FunctionArchive.Disk

/-- The steps of a sequence that comes to an end have all been made. -/
theorem ok_of_bind {ε α β : Type} {first : Except ε α} {next : α → Except ε β} {b : β}
    (done : (first >>= next) = .ok b) : ∃ a, first = .ok a ∧ next a = .ok b := by
  cases first with
  | error fault => cases done
  | ok a => exact ⟨a, rfl, done⟩

/-! ## Names in a tree -/

namespace Node

theorem at?_append (n : Node) (front rest : List String) :
    n.at? (front ++ rest) = (n.at? front).bind (·.at? rest) := by
  induction front generalizing n with
  | nil => rfl
  | cons name front ih =>
      simp only [List.cons_append, at?]
      cases n.child? name with
      | none => rfl
      | some inner => exact ih inner

/-- What stands below a directory is what its entry of that name is. -/
theorem at?_concat_of_directory {n : Node} {names : List String} {entries : List (String × Node)}
    (here : n.at? names = some (.directory entries)) (name : String) :
    n.at? (names ++ [name]) = entries.lookup name := by
  rw [at?_append, here]
  simp only [Option.bind_some, at?, child?]
  cases entries.lookup name <;> rfl

theorem mem_descendantsOf {entries : List (String × Node)} {name : String} {n : Node}
    (member : (name, n) ∈ entries) :
    [name] ∈ descendantsOf entries ∧
      ∀ names ∈ n.descendants, name :: names ∈ descendantsOf entries := by
  induction entries with
  | nil => cases member
  | cons entry rest ih =>
      rcases List.mem_cons.mp member with rfl | later
      · refine ⟨by simp [descendantsOf], fun names inside => ?_⟩
        simp [descendantsOf, inside]
      · obtain ⟨itself, below⟩ := ih later
        refine ⟨by simp [descendantsOf, itself], fun names inside => ?_⟩
        simp [descendantsOf, below names inside]

theorem mem_of_lookup {entries : List (String × Node)} {name : String} {n : Node}
    (found : entries.lookup name = some n) : (name, n) ∈ entries := by
  obtain ⟨front, back, split, -⟩ := List.lookup_eq_some_iff.mp found
  simp [split]

/-- Everything that stands in a tree is listed among its descendants. -/
theorem mem_descendants_of_at? {n m : Node} {name : String} {rest : List String}
    (there : n.at? (name :: rest) = some m) : name :: rest ∈ n.descendants := by
  induction rest generalizing n name with
  | nil =>
      cases n with
      | file f => simp [at?, child?] at there
      | link target => simp [at?, child?] at there
      | directory entries =>
          obtain ⟨inner, found, -⟩ := Option.bind_eq_some_iff.mp there
          exact (mem_descendantsOf (mem_of_lookup found)).1
  | cons next rest ih =>
      cases n with
      | file f => simp [at?, child?] at there
      | link target => simp [at?, child?] at there
      | directory entries =>
          obtain ⟨inner, found, below⟩ := Option.bind_eq_some_iff.mp there
          exact (mem_descendantsOf (mem_of_lookup found)).2 _ (ih below)

/-- What is listed below something that stands in a tree is listed in the tree. -/
theorem mem_descendants_append {n m : Node} {front names : List String}
    (there : n.at? front = some m) (below : names ∈ m.descendants) :
    front ++ names ∈ n.descendants := by
  induction front generalizing n with
  | nil =>
      cases there
      exact below
  | cons name front ih =>
      cases n with
      | file f => cases there
      | link target => cases there
      | directory entries =>
          obtain ⟨inner, found, further⟩ := Option.bind_eq_some_iff.mp there
          exact (mem_descendantsOf (mem_of_lookup found)).2 _ (ih further)

end Node

theorem mem_allPaths_of_at? {d : Disk} {names : List String} {n : Node}
    (there : d.root.at? names = some n) : Path.ofNames names ∈ d.allPaths := by
  cases names with
  | nil => exact List.mem_cons_self
  | cons name rest =>
      exact List.mem_cons_of_mem _ (List.mem_map_of_mem (Node.mem_descendants_of_at? there))

/-! ## The steps of a look-up -/

/-- The steps by which the look-up of some names, from the directory `here` on, leads to a place
through at most so many links. -/
inductive Leads (root : Node) (followLast : Bool) :
    Nat → List String → List String → Place → Prop
  | arrive {links : Nat} {here : List String} {node : Node} (there : root.at? here = some node) :
      Leads root followLast links here [] ⟨here, node⟩
  | stay {links : Nat} {here rest : List String} {name : String}
      {entries : List (String × Node)} {place : Place}
      (directory : root.at? here = some (.directory entries))
      (redundant : Path.isRedundant name = true)
      (onward : Leads root followLast links here rest place) :
      Leads root followLast links here (name :: rest) place
  | up {links : Nat} {here rest : List String} {entries : List (String × Node)} {place : Place}
      (directory : root.at? here = some (.directory entries))
      (onward : Leads root followLast links here.dropLast rest place) :
      Leads root followLast links here (".." :: rest) place
  | down {links : Nat} {here rest : List String} {name : String}
      {entries : List (String × Node)} {node : Node} {place : Place}
      (directory : root.at? here = some (.directory entries))
      (named : Path.isRedundant name = false) (notUp : name ≠ "..")
      (found : entries.lookup name = some node) (notLink : ∀ target, node ≠ .link target)
      (onward : Leads root followLast links (here ++ [name]) rest place) :
      Leads root followLast links here (name :: rest) place
  | stop {links : Nat} {here : List String} {name target : String}
      {entries : List (String × Node)}
      (directory : root.at? here = some (.directory entries))
      (named : Path.isRedundant name = false) (notUp : name ≠ "..")
      (found : entries.lookup name = some (.link target)) (notFollowed : followLast = false) :
      Leads root followLast links here [name] ⟨here ++ [name], .link target⟩
  | follow {links : Nat} {here rest : List String} {name target : String}
      {entries : List (String × Node)} {place : Place}
      (directory : root.at? here = some (.directory entries))
      (named : Path.isRedundant name = false) (notUp : name ≠ "..")
      (found : entries.lookup name = some (.link target))
      (followed : (rest.isEmpty && !followLast) = false)
      (onward : Leads root followLast links
        (if (Path.ofString target).absolute then [] else here)
        ((Path.ofString target).names ++ rest) place) :
      Leads root followLast (links + 1) here (name :: rest) place

variable {root : Node} {followLast : Bool} {links : Nat} {here pending : List String}
  {place : Place}

theorem Leads.walk_eq (leads : Leads root followLast links here pending place) :
    walk root followLast links here pending = .ok place := by
  induction leads with
  | arrive there => simp [walk, there]
  | stay directory redundant _ ih => simp [walk, directory, redundant, ih]
  | up directory _ ih => simp [walk, directory, Path.isRedundant, ih]
  | @down _ _ _ _ _ node _ directory named notUp found notLink _ ih =>
      cases node with
      | link target => exact absurd rfl (notLink target)
      | file f => simp [walk, directory, named, notUp, found, ih]
      | directory inner => simp [walk, directory, named, notUp, found, ih]
  | stop directory named notUp found notFollowed =>
      simp [walk, directory, named, notUp, found, notFollowed]
  | follow directory named notUp found followed _ ih =>
      simp [walk, directory, named, notUp, found, followed, ih]

theorem leads_of_walk (result : walk root followLast links here pending = .ok place) :
    Leads root followLast links here pending place := by
  fun_induction walk root followLast links here pending with
  | case1 links here node there =>
      cases result
      exact .arrive there
  | case2 | case3 | case4 | case5 => simp at result
  | case6 links here name rest entries directory redundant ih =>
      exact .stay directory redundant (ih result)
  | case7 links here name rest entries directory named up ih =>
      cases eq_of_beq up
      exact .up directory (ih result)
  | case8 => simp at result
  | case9 links here name rest entries directory named notUp target found stop =>
      obtain ⟨empty, notFollowed⟩ : rest = [] ∧ followLast = false := by simpa using stop
      subst empty
      cases result
      exact .stop directory (by simpa using named) (by simpa using notUp) found notFollowed
  | case10 => simp at result
  | case11 here name rest entries directory named notUp target found followed links path ih =>
      exact .follow directory (by simpa using named) (by simpa using notUp) found
        (by simpa using followed) (ih result)
  | case12 links here name rest entries directory named notUp node notLink found ih =>
      exact .down directory (by simpa using named) (by simpa using notUp) found
        (fun target => notLink target) (ih result)

/-- A look-up has a result exactly when steps lead to it. -/
theorem leads_iff_walk :
    Leads root followLast links here pending place ↔
      walk root followLast links here pending = .ok place :=
  ⟨Leads.walk_eq, leads_of_walk⟩

/-- What a look-up ends with stands under the names that it reports. -/
theorem Leads.at?_names (leads : Leads root followLast links here pending place) :
    root.at? place.names = some place.node := by
  induction leads with
  | arrive there => exact there
  | stop directory _ _ found _ => rw [Node.at?_concat_of_directory directory, found]
  | stay _ _ _ ih | up _ _ ih | down _ _ _ _ _ _ ih | follow _ _ _ _ _ _ ih => exact ih

/-! ## Results in terms of paths -/

variable {d : Disk} {p q : Path} {place : Place}

theorem at?_of_lookUp {followLast : Bool} (found : d.lookUp followLast p = .ok place) :
    d.root.at? place.names = some place.node := by
  unfold lookUp at found
  split at found
  · cases found
  · exact (leads_of_walk found).at?_names

theorem at?_of_find (found : d.find p = .ok place) : d.root.at? place.names = some place.node :=
  at?_of_lookUp found

theorem realPath_mem_allPaths {real : Path} (found : d.realPath p = .ok real) :
    real ∈ d.allPaths := by
  unfold realPath at found
  cases result : d.find p with
  | error fault => simp [result, Except.map] at found
  | ok place =>
      simp only [result, Except.map, Except.ok.injEq] at found
      subst found
      exact mem_allPaths_of_at? (at?_of_find result)

/-! ## Redundant names -/

section Redundant

variable {root : Node} {followLast : Bool}

/-- A redundant name asks for a directory, and so does any name that leads somewhere. -/
theorem walk_redundant_cons {links : Nat} {here rest : List String} {name next : String}
    (redundant : Path.isRedundant name = true) :
    walk root followLast links here (name :: next :: rest) =
      walk root followLast links here (next :: rest) := by
  rw [walk]
  split
  · rename_i absent
    simp [walk, absent]
  · rename_i f there
    simp [walk, there]
  · rename_i target there
    simp [walk, there]
  · rename_i entries there
    simp [redundant]

/-- A redundant name may be left out in front of another name. -/
theorem walk_drop_redundant {name next : String} {rest : List String}
    (redundant : Path.isRedundant name = true) (links : Nat) (here front : List String) :
    walk root followLast links here (front ++ name :: next :: rest) =
      walk root followLast links here (front ++ next :: rest) := by
  induction links using Nat.strongRecOn generalizing here front with
  | ind links outer =>
  induction front generalizing here with
  | nil => exact walk_redundant_cons redundant
  | cons first front ih =>
      have notLast : (front ++ name :: next :: rest).isEmpty = false := by cases front <;> rfl
      have notLast' : (front ++ next :: rest).isEmpty = false := by cases front <;> rfl
      simp only [List.cons_append]
      conv => lhs; rw [walk]
      conv => rhs; rw [walk]
      cases there : root.at? here with
      | none => rfl
      | some node =>
          cases node with
          | file f => rfl
          | link target => rfl
          | directory entries =>
              simp only [ih, notLast, notLast']
              cases links with
              | zero => rfl
              | succ links =>
                  simp only [← List.append_assoc, outer links (Nat.lt_succ_self links)]

theorem filter_components (p : Path) :
    p.components.filter (!Path.isRedundant ·) = p.names.filter (!Path.isRedundant ·) := by
  unfold Path.components
  split
  · rename_i rest _ names
    simp [names, Path.isRedundant]
  · simp

/-- A path whose last name leads somewhere by itself. -/
def EndsInName (p : Path) : Prop :=
  ∃ front last, p.names = front ++ [last] ∧ Path.isRedundant last = false

theorem walk_filter_redundant {last : String} (named : Path.isRedundant last = false)
    (links : Nat) (here front before : List String) :
    walk root followLast links here (before ++ (front ++ [last])) =
      walk root followLast links here
        (before ++ (front ++ [last]).filter (!Path.isRedundant ·)) := by
  induction front generalizing before with
  | nil => simp [named]
  | cons name front ih =>
      cases redundant : Path.isRedundant name with
      | false =>
          have moved := ih (before ++ [name])
          simp only [List.append_assoc, List.singleton_append] at moved
          simpa [redundant] using moved
      | true =>
          obtain ⟨next, rest, split⟩ : ∃ next rest, front ++ [last] = next :: rest :=
            List.exists_cons_of_ne_nil (by simp)
          rw [List.cons_append, split, walk_drop_redundant redundant, ← split, ih before]
          simp [redundant]

end Redundant

/-- Paths that denote the same and end in a name lead to the same, or are refused alike. -/
theorem find_eq_of_same {p q : Path} (same : p.same q = true) (named : EndsInName p)
    (named' : EndsInName q) (d : Disk) : d.find p = d.find q := by
  obtain ⟨absolute, components⟩ : p.absolute = q.absolute ∧ p.components = q.components := by
    simpa [Path.same] using same
  have filtered : p.names.filter (!Path.isRedundant ·) = q.names.filter (!Path.isRedundant ·) := by
    rw [← filter_components, components, filter_components]
  obtain ⟨front, last, names, leads⟩ := named
  obtain ⟨front', last', names', leads'⟩ := named'
  have written (before : List String) :
      walk d.root true maxLinks [] (before ++ p.names) =
        walk d.root true maxLinks [] (before ++ p.names.filter (!Path.isRedundant ·)) := by
    rw [names]
    exact walk_filter_redundant leads maxLinks [] front before
  have written' (before : List String) :
      walk d.root true maxLinks [] (before ++ q.names) =
        walk d.root true maxLinks [] (before ++ q.names.filter (!Path.isRedundant ·)) := by
    rw [names']
    exact walk_filter_redundant leads' maxLinks [] front' before
  have notEmpty : p.names.isEmpty = false := by simp [names]
  have notEmpty' : q.names.isEmpty = false := by simp [names']
  simp only [find, lookUp, namesOf, absolute, notEmpty, notEmpty', Bool.and_false]
  cases q.absolute with
  | true =>
      have left := written []
      rw [filtered] at left
      exact left.trans (written' []).symm
  | false =>
      have left := written d.current.names
      rw [filtered] at left
      exact left.trans (written' d.current.names).symm

end FunctionArchive.Disk
