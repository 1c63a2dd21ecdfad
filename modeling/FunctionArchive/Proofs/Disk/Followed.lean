import FunctionArchive.Proofs.Checksum
import FunctionArchive.Proofs.Disk.Moves
import FunctionArchive.Proofs.Disk.Straight
import FunctionArchive.Proofs.Disk.Walks

/-!
# Walks that follow links

A walk lists the files below a directory as someone finds them who opens each path in turn, links
included, so what it lists is said in terms of paths alone: the names that lead to a file past no
name to be skipped, each list of names once (`filesBelow_exact`).

It comes to an end with a list exactly where no link that it meets is broken or leads back to a
directory that it came through (`filesBelow_ok_iff`). What is below a skipped name does not
matter for either.
-/

set_option autoImplicit false

namespace FunctionArchive

/-! ## Paths below another -/

namespace Path

variable {p q : Path} {name : String}

/-- The path on which these names follow those of another. -/
def inside (p : Path) (names : List String) : Path := ⟨p.absolute, p.names ++ names⟩

@[simp] theorem inside_nil (p : Path) : p.inside [] = p := by simp [inside]

@[simp] theorem inside_inside (p : Path) (front back : List String) :
    (p.inside front).inside back = p.inside (front ++ back) := by simp [inside]

theorem inside_inj {names names' : List String} :
    p.inside names = p.inside names' ↔ names = names' := by simp [inside]

/-- Redundant names at the end do not change what a path denotes. -/
theorem components_trimEnd (absolute : Bool) (names : List String) :
    (⟨absolute, trimEnd absolute names⟩ : Path).components =
      (⟨absolute, names⟩ : Path).components := by
  by_cases dotted : absolute = false ∧ names.head? = some "."
  · obtain ⟨rfl, starts⟩ := dotted
    obtain ⟨rest, rfl⟩ := List.head?_eq_some_iff.mp starts
    rw [trimEnd_dot]
    show "." :: (trimEnd true rest).filter (!isRedundant ·) = "." :: rest.filter (!isRedundant ·)
    rw [filter_trimEnd]
  · rw [components_eq_filter fun relative starts => dotted ⟨relative, head?_of_trimEnd starts⟩,
      components_eq_filter fun relative starts => dotted ⟨relative, starts⟩, filter_trimEnd]

/-- However a directory is spelled, its children are what the names behind it denote. -/
theorem child_same_inside (isName : IsName name) (alike : q.same p = true) :
    (q.child name).same (p.inside [name]) = true := by
  obtain ⟨absolute, components⟩ := same_iff.mp alike
  refine same_iff.mpr ⟨?_, ?_⟩
  · rw [child_eq q isName.1]
    exact absolute
  · rw [components_child q isName, components, inside,
      components_concat p.absolute p.names isName.notRedundant, components_trimEnd]

end Path

namespace Disk

open FunctionArchive.Path (IsName Proper)
open FunctionArchive.Checksum (Tidy mem_of_lookup_iff)

variable {d : Disk} {p path : Path} {name : String} {rest names here : List String}
  {entries : List (String × Node)} {node : Node} {place : Place} {followLast : Bool}
  {skip : String → Bool} {above : List Ancestor} {depth : Nat}

theorem namesOf_inside (d : Disk) (p : Path) (names : List String) :
    d.namesOf (p.inside names) = d.namesOf p ++ names := by
  unfold namesOf Path.inside
  split <;> simp

theorem leads_of_find (found : d.find p = .ok place) :
    Leads d.root true maxLinks [] (d.namesOf p) place := by
  unfold find lookUp at found
  split at found
  · cases found
  · exact leads_of_walk found

theorem lookUp_inside (followLast : Bool) (d : Disk) (p : Path) (name : String)
    (rest : List String) : d.lookUp followLast (p.inside (name :: rest)) =
      walk d.root followLast maxLinks [] (d.namesOf p ++ name :: rest) := by
  rw [lookUp, namesOf_inside]
  simp [Path.inside]

theorem find_child (isName : IsName name) (alike : path.same p = true) :
    d.find (path.child name) = d.find (p.inside [name]) := by
  refine find_eq_of_same (Path.child_same_inside isName alike) ?_ ?_ d
  · exact ⟨path.stem, name, by rw [Path.child_eq path isName.1], isName.notRedundant⟩
  · exact ⟨p.names, name, rfl, isName.notRedundant⟩

theorem isFile_iff : d.isFile p = true ↔ ∃ real f, d.find p = .ok ⟨real, .file f⟩ := by
  unfold isFile
  split <;> simp_all

/-- Where the root is a directory, what is found is a file if it is no directory. -/
theorem isFile_of_find {top : List (String × Node)} (root : d.root = .directory top)
    (found : d.find p = .ok place) (other : ∀ below, place.node ≠ .directory below) :
    d.isFile p = true := by
  obtain ⟨real, node⟩ := place
  cases node with
  | file f => exact isFile_iff.mpr ⟨real, f, found⟩
  | link target => exact absurd rfl (notLink_of_find root found target)
  | directory below => exact absurd rfl (other below)

theorem isLink_iff : d.isLink p = true ↔ ∃ real target,
    d.findEntry p = .ok ⟨real, .link target⟩ := by
  unfold isLink
  split <;> simp_all

/-! ## Entries -/

/-- A link stands for what its path leads to, unless that is a directory above. -/
theorem resolveEntry_link {target : String} :
    resolveEntry d above path names (.link target) = .ok place ↔
      d.find path = .ok place ∧ ∀ ancestor ∈ above, ∀ below,
        place ≠ ⟨ancestor.names, .directory below⟩ := by
  cases found : d.find path with
  | error fault => simp only [resolveEntry, found, reduceCtorEq, false_and]
  | ok reached =>
      obtain ⟨real, reached⟩ := reached
      have fine (different : ∀ below, reached ≠ .directory below) :
          (Except.ok ⟨real, reached⟩ : Except Fault Place) = .ok place ↔
            (Except.ok ⟨real, reached⟩ : Except Fault Place) = .ok place ∧
              ∀ ancestor ∈ above, ∀ below, place ≠ ⟨ancestor.names, .directory below⟩ := by
        refine ⟨fun same => ⟨same, ?_⟩, And.left⟩
        cases same
        exact fun ancestor _ below same => different below (congrArg Place.node same)
      cases reached with
      | file f =>
          simp only [resolveEntry, found]
          exact fine (by simp)
      | link text =>
          simp only [resolveEntry, found]
          exact fine (by simp)
      | directory below =>
          simp only [resolveEntry, found]
          cases fresh : above.find? (·.names == real) with
          | none =>
              refine ⟨fun same => ⟨same, ?_⟩, And.left⟩
              cases same
              rintro ancestor isAbove below' same
              cases same
              simpa using List.find?_eq_none.mp fresh ancestor isAbove
          | some ancestor =>
              simp only [reduceCtorEq, false_iff]
              rintro ⟨same, notAbove⟩
              cases same
              have back : ancestor.names = real := by simpa using List.find?_some fresh
              exact notAbove ancestor (List.mem_of_find?_eq_some fresh) below (by rw [back])

/-- What more names lead on from is a directory. -/
theorem exists_directory (proper : Proper rest) (more : rest ≠ [])
    (looked : d.lookUp followLast (p.inside (name :: rest)) = .ok place) :
    ∃ real below, d.find (p.inside [name]) = .ok ⟨real, .directory below⟩ := by
  have joined : d.namesOf p ++ name :: rest = (d.namesOf p ++ [name]) ++ rest := by simp
  rw [lookUp_inside, joined] at looked
  obtain ⟨mid, links, -, first, second⟩ := (leads_of_walk looked).split more
  obtain ⟨next, others, rfl⟩ := List.exists_cons_of_ne_nil more
  have isNext := proper next List.mem_cons_self
  obtain ⟨below, node, directory, -⟩ := second.entry isNext.notRedundant isNext.2.2
  obtain ⟨real, other⟩ := mid
  cases first.at?_names.symm.trans directory
  exact ⟨real, below, by rw [find, lookUp_inside, first.walk_eq]⟩

section Entry

variable (isName : IsName name) (found : d.find p = .ok ⟨here, .directory entries⟩)

include isName

/-- What lies behind a name lies behind an entry of that name. -/
theorem exists_entry (found : d.find p = .ok ⟨here, .directory entries⟩)
    (looked : d.lookUp followLast (p.inside (name :: rest)) = .ok place) :
    ∃ node, entries.lookup name = some node := by
  rw [lookUp_inside] at looked
  obtain ⟨mid, links, -, first, second⟩ := (leads_of_walk looked).split (List.cons_ne_nil _ _)
  cases (leads_of_find found).walk_eq.symm.trans first.walk_eq
  obtain ⟨entries', node, directory, there⟩ := second.entry isName.notRedundant isName.2.2
  cases first.at?_names.symm.trans directory
  exact ⟨node, there⟩

include found

/-- An entry is found under its name, unless it is a link and links are followed. -/
theorem lookUp_entry (there : entries.lookup name = some node)
    (taken : followLast = false ∨ ∀ target, node ≠ .link target) :
    d.lookUp followLast (p.inside [name]) = .ok ⟨here ++ [name], node⟩ := by
  have directory := at?_of_find found
  have entry : d.root.at? (here ++ [name]) = some node := by
    rw [Node.at?_concat_of_directory directory, there]
  rw [lookUp_inside]
  exact ((leads_of_find found).append (List.cons_ne_nil _ _)
    (leads_name isName directory entry taken)).walk_eq

theorem isLink_entry (there : entries.lookup name = some node) :
    d.isLink (p.inside [name]) = true ↔ ∃ target, node = .link target := by
  rw [isLink_iff, findEntry, lookUp_entry isName found there (.inl rfl)]
  simp

/-- An entry stands for what its path leads to. It is refused where that is nothing, or where a link
leads to a directory above. -/
theorem resolveEntry_eq_ok (alike : path.same p = true) (there : entries.lookup name = some node) :
    resolveEntry d above (path.child name) (here ++ [name]) node = .ok place ↔
      d.find (p.inside [name]) = .ok place ∧ (d.isLink (p.inside [name]) = true →
        ∀ ancestor ∈ above, ∀ below, place ≠ ⟨ancestor.names, .directory below⟩) := by
  rw [isLink_entry isName found there]
  by_cases isLink : ∃ target, node = .link target
  · obtain ⟨target, rfl⟩ := isLink
    rw [resolveEntry_link, find_child isName alike]
    exact and_congr_right fun _ => ⟨fun fresh _ => fresh, fun fresh => fresh ⟨target, rfl⟩⟩
  · have notLink (target : String) : node ≠ .link target := fun same => isLink ⟨target, same⟩
    rw [resolveEntry_self notLink, find, lookUp_entry isName found there (.inr notLink)]
    exact ⟨fun same => ⟨same, fun link => absurd link isLink⟩, And.left⟩

end Entry

/-! ## One step of a walk -/

/-- The answers to some questions, one for each. -/
theorem mapM_eq_ok {α β ε : Type} [Inhabited β] {f : α → Except ε β} {items : List α}
    {answers : List β} : items.mapM f = .ok answers ↔
      ∃ answer : α → β, (∀ item ∈ items, f item = .ok (answer item)) ∧
        answers = items.map answer := by
  constructor
  · intro answered
    refine ⟨fun item => (f item).toOption.getD default, ?_⟩
    induction items generalizing answers with
    | nil =>
        cases answered
        exact ⟨List.forall_mem_nil _, rfl⟩
    | cons item rest ih =>
        rw [List.mapM_cons] at answered
        obtain ⟨first, isFirst, answered⟩ := ok_of_bind answered
        obtain ⟨others, areOthers, answered⟩ := ok_of_bind answered
        cases answered
        obtain ⟨each, rfl⟩ := ih areOthers
        refine ⟨List.forall_mem_cons.mpr ⟨?_, each⟩, ?_⟩
        · simp [isFirst, Except.toOption]
        · simp [isFirst, Except.toOption]
  · rintro ⟨answer, each, rfl⟩
    induction items with
    | nil => rfl
    | cons item rest ih =>
        obtain ⟨first, others⟩ := List.forall_mem_cons.mp each
        rw [List.mapM_cons, first, ih others]
        rfl

/-- Answers to some questions, put together. -/
theorem flatten_mapM_eq_ok {α β ε : Type} {f : α → Except ε (List β)} {items : List α}
    {found : List β} : (items.mapM f >>= fun groups => .ok groups.flatten) = .ok found ↔
      ∃ group : α → List β, (∀ item ∈ items, f item = .ok (group item)) ∧
        found = items.flatMap group := by
  constructor
  · intro walked
    obtain ⟨groups, listed, flattened⟩ := ok_of_bind walked
    cases flattened
    obtain ⟨group, each, rfl⟩ := mapM_eq_ok.mp listed
    exact ⟨group, each, List.flatMap_def.symm⟩
  · rintro ⟨group, each, rfl⟩
    rw [mapM_eq_ok.mpr ⟨group, each, rfl⟩]
    exact congrArg Except.ok List.flatMap_def.symm

/-- What a walk lists of an entry of the directory at a path. -/
inductive ListsOf (d : Disk) (skip : String → Bool) (depth : Nat) (above : List Ancestor)
    (path : Path) (here : List String) : String × Node → List (List String) → Prop
  | skipped {name : String} {node : Node} {place : Place}
      (stands : resolveEntry d above (path.child name) (here ++ [name]) node = .ok place)
      (skipped : skip name = true) : ListsOf d skip depth above path here (name, node) []
  | directory {name : String} {node : Node} {real : List String} {below : List (String × Node)}
      {files : List (List String)}
      (stands : resolveEntry d above (path.child name) (here ++ [name]) node =
        .ok ⟨real, .directory below⟩)
      (kept : skip name = false)
      (walked : filesFrom d skip depth above (path.child name) real below = .ok files) :
      ListsOf d skip depth above path here (name, node) (files.map (name :: ·))
  | single {name : String} {node : Node} {place : Place}
      (stands : resolveEntry d above (path.child name) (here ++ [name]) node = .ok place)
      (kept : skip name = false) (other : ∀ below, place.node ≠ .directory below) :
      ListsOf d skip depth above path here (name, node) [[name]]

theorem ListsOf.stands {group : List (List String)}
    (lists : ListsOf d skip depth above path here (name, node) group) :
    ∃ place, resolveEntry d above (path.child name) (here ++ [name]) node = .ok place := by
  cases lists with
  | skipped stands _ => exact ⟨_, stands⟩
  | directory stands _ _ => exact ⟨_, stands⟩
  | single stands _ _ => exact ⟨_, stands⟩

/-- It has gone through a directory unless that is skipped. -/
theorem ListsOf.walked {group : List (List String)} {real : List String}
    {below : List (String × Node)} (lists : ListsOf d skip depth above path here (name, node) group)
    (stands : resolveEntry d above (path.child name) (here ++ [name]) node =
      .ok ⟨real, .directory below⟩) (kept : skip name = false) :
    ∃ files, filesFrom d skip depth above (path.child name) real below = .ok files := by
  cases lists with
  | skipped _ skipped => cases kept.symm.trans skipped
  | directory stands' _ walked =>
      cases stands.symm.trans stands'
      exact ⟨_, walked⟩
  | single stands' _ other =>
      cases stands.symm.trans stands'
      exact absurd rfl (other below)

/-- A walk lists what it lists of each entry, in the order of their names. -/
theorem filesFrom_eq_ok {files : List (List String)} :
    filesFrom d skip (depth + 1) above path here entries = .ok files ↔
      ∃ group : String × Node → List (List String),
        (∀ entry ∈ entries, ListsOf d skip depth (⟨path, here⟩ :: above) path here entry
          (group entry)) ∧
        files = (entries.mergeSort fun a b => a.1 ≤ b.1).flatMap group := by
  rw [filesFrom]
  refine flatten_mapM_eq_ok.trans (exists_congr fun group => and_congr_left fun _ => ?_)
  simp only [List.mem_mergeSort]
  refine forall₂_congr fun entry _ => ?_
  obtain ⟨name, node⟩ := entry
  generalize group (name, node) = listed
  constructor
  · intro answered
    obtain ⟨place, stands, answered⟩ := ok_of_bind answered
    split at answered
    · rename_i skipped
      cases answered
      exact .skipped stands skipped
    · rename_i kept
      obtain ⟨real, other⟩ := place
      split at answered
      · rename_i below directory
        cases directory
        obtain ⟨files, walked, renamed⟩ := ok_of_bind answered
        cases renamed
        exact .directory stands (Bool.eq_false_iff.mpr kept) walked
      · rename_i different
        cases answered
        exact .single stands (Bool.eq_false_iff.mpr kept) different
  · intro lists
    cases lists with
    | skipped stands skipped =>
        simp only [stands, skipped]
        rfl
    | directory stands kept walked =>
        simp only [stands, kept]
        simp only [bind, Except.bind, walked]
        rfl
    | single stands kept other =>
        rename_i place
        obtain ⟨real, reached⟩ := place
        simp only [stands, kept]
        cases reached with
        | directory below => exact absurd rfl (other below)
        | file f => rfl
        | link target => rfl

/-! ## What a walk finds -/

/-- Names of entries none of which is to be skipped. -/
structure Passes (skip : String → Bool) (names : List String) : Prop where
  proper : Proper names
  kept : ∀ name ∈ names, skip name = false

theorem passes_nil : Passes skip [] := ⟨Path.proper_nil, List.forall_mem_nil _⟩

theorem passes_cons : Passes skip (name :: rest) ↔
    IsName name ∧ skip name = false ∧ Passes skip rest := by
  constructor
  · rintro ⟨proper, kept⟩
    obtain ⟨isName, proper⟩ := List.forall_mem_cons.mp proper
    obtain ⟨first, kept⟩ := List.forall_mem_cons.mp kept
    exact ⟨isName, first, proper, kept⟩
  · rintro ⟨isName, first, proper, kept⟩
    exact ⟨List.forall_mem_cons.mpr ⟨isName, proper⟩, List.forall_mem_cons.mpr ⟨first, kept⟩⟩

/-- Names that lead from a path to a file below it, past none that is to be skipped. -/
structure LeadsToFile (d : Disk) (skip : String → Bool) (p : Path) (names : List String) :
    Prop where
  below : names ≠ []
  passes : Passes skip names
  isFile : d.isFile (p.inside names) = true

/-- The files below a directory are its files and the files below its directories. -/
theorem leadsToFile_cons : d.LeadsToFile skip p (name :: rest) ↔
    IsName name ∧ skip name = false ∧
      (rest = [] ∧ d.isFile (p.inside [name]) = true ∨
        d.LeadsToFile skip (p.inside [name]) rest) := by
  constructor
  · rintro ⟨-, passes, isFile⟩
    obtain ⟨isName, kept, passes⟩ := passes_cons.mp passes
    refine ⟨isName, kept, ?_⟩
    rcases List.eq_nil_or_concat rest with rfl | ⟨front, last, some⟩
    · exact .inl ⟨rfl, isFile⟩
    · exact .inr ⟨by simp [some], passes, by rwa [Path.inside_inside]⟩
  · rintro ⟨isName, kept, ⟨rfl, isFile⟩ | ⟨-, passes, isFile⟩⟩
    · exact ⟨List.cons_ne_nil _ _, passes_cons.mpr ⟨isName, kept, passes_nil⟩, isFile⟩
    · exact ⟨List.cons_ne_nil _ _, passes_cons.mpr ⟨isName, kept, passes⟩,
        by rwa [Path.inside_inside] at isFile⟩

/-- Where more names lead to a file, a directory is. -/
theorem LeadsToFile.directory (leads : d.LeadsToFile skip (p.inside [name]) rest) :
    ∃ real below, d.find (p.inside [name]) = .ok ⟨real, .directory below⟩ := by
  obtain ⟨below, passes, isFile⟩ := leads
  obtain ⟨real, f, reached⟩ := isFile_iff.mp isFile
  rw [Path.inside_inside, List.singleton_append] at reached
  exact exists_directory passes.proper below reached

section Exact

variable {files : List (List String)} (found : d.find p = .ok ⟨here, .directory entries⟩)
  (alike : path.same p = true)

include found alike

/-- What is listed of an entry leads to files by its name, if this is so for what is listed of a
directory further down. -/
theorem ListsOf.exact (lists : ListsOf d skip depth above path here (name, node) files)
    (isName : IsName name) (there : entries.lookup name = some node)
    (inner : ∀ {real below found}, d.find (p.inside [name]) = .ok ⟨real, .directory below⟩ →
      filesFrom d skip depth above (path.child name) real below = .ok found →
        found.Nodup ∧ ∀ names, names ∈ found ↔ d.LeadsToFile skip (p.inside [name]) names) :
    files.Nodup ∧ ∀ names, names ∈ files ↔
      ∃ rest, names = name :: rest ∧ d.LeadsToFile skip p (name :: rest) := by
  cases lists with
  | skipped stands skipped =>
      refine ⟨List.nodup_nil, fun names => ⟨fun member => absurd member List.not_mem_nil, ?_⟩⟩
      rintro ⟨rest, -, leads⟩
      cases skipped.symm.trans (leadsToFile_cons.mp leads).2.1
  | directory stands kept walked =>
      obtain ⟨reached, -⟩ := (resolveEntry_eq_ok isName found alike there).mp stands
      obtain ⟨once, exact⟩ := inner reached walked
      have noFile : d.isFile (p.inside [name]) = false := by rw [isFile, reached]
      refine ⟨once.map fun _ _ => List.tail_eq_of_cons_eq, fun names => ?_⟩
      simp only [List.mem_map, exact, leadsToFile_cons, isName, kept, noFile]
      aesop
  | single stands kept other =>
      obtain ⟨reached, -⟩ := (resolveEntry_eq_ok isName found alike there).mp stands
      obtain ⟨top, root⟩ : ∃ top, d.root.at? [] = some (.directory top) :=
        Node.exists_directory_of_append (at?_of_find found)
      have isFile := isFile_of_find (Option.some.inj root) reached other
      have noDirectory (rest : List String) : ¬d.LeadsToFile skip (p.inside [name]) rest := by
        intro leads
        obtain ⟨real, below, directory⟩ := leads.directory
        cases reached.symm.trans directory
        exact other below rfl
      refine ⟨List.nodup_singleton _, fun names => ?_⟩
      simp only [List.mem_singleton, leadsToFile_cons, isName, kept, isFile, noDirectory]
      aesop

/-- A walk that comes to an end lists exactly the names that lead to files, each once. -/
theorem filesFrom_exact (tidy : Tidy d.root)
    (walked : filesFrom d skip depth above path here entries = .ok files) :
    files.Nodup ∧ ∀ names, names ∈ files ↔ d.LeadsToFile skip p names := by
  induction depth generalizing above p path here entries files with
  | zero => cases walked
  | succ depth ih =>
      obtain ⟨group, lists, rfl⟩ := filesFrom_eq_ok.mp walked
      obtain ⟨different, areNames⟩ := tidy here entries (at?_of_find found)
      have each (entry : String × Node) (member : entry ∈ entries) :
          (group entry).Nodup ∧ ∀ names, names ∈ group entry ↔
            ∃ rest, names = entry.1 :: rest ∧ d.LeadsToFile skip p (entry.1 :: rest) := by
        obtain ⟨name, node⟩ := entry
        have isName : IsName name := (areNames _ member).1
        exact (lists _ member).exact found alike isName ((mem_of_lookup_iff different).mpr member)
          fun reached walked => ih reached (Path.child_same_inside isName alike) walked
      have sorted : ((entries.mergeSort fun a b => a.1 ≤ b.1).map Prod.fst).Nodup :=
        ((List.mergeSort_perm _ _).map _).nodup_iff.mpr different
      constructor
      · refine List.nodup_flatMap.mpr ⟨fun entry member => (each entry ?_).1, ?_⟩
        · exact List.mem_mergeSort.mp member
        · -- What is listed of an entry begins with its name, and no two entries share theirs.
          refine (List.pairwise_map.mp sorted).imp_of_mem ?_
          intro entry other member member' different names listed listed'
          obtain ⟨rest, rfl, -⟩ := ((each entry (List.mem_mergeSort.mp member)).2 _).mp listed
          obtain ⟨rest', same, -⟩ := ((each other (List.mem_mergeSort.mp member')).2 _).mp listed'
          exact different (List.cons.inj same).1
      · intro names
        simp only [List.mem_flatMap, List.mem_mergeSort]
        constructor
        · rintro ⟨entry, member, listed⟩
          obtain ⟨rest, rfl, leads⟩ := ((each entry member).2 names).mp listed
          exact leads
        · intro leads
          obtain ⟨name, rest, rfl⟩ := List.exists_cons_of_ne_nil leads.below
          obtain ⟨real, f, reached⟩ := isFile_iff.mp leads.isFile
          obtain ⟨node, there⟩ := exists_entry (leadsToFile_cons.mp leads).1 found reached
          have member := Node.mem_of_lookup there
          exact ⟨(name, node), member, ((each _ member).2 _).mpr ⟨rest, rfl, leads⟩⟩

end Exact

/-! ## Where a walk comes to an end -/

/-- A link on a way down leads to the directory at this real path. -/
def LeadsBack (d : Disk) (skip : String → Bool) (p : Path) (real : List String) : Prop :=
  ∃ front name below, Passes skip front ∧ IsName name ∧
    d.isLink (p.inside (front ++ [name])) = true ∧
    d.find (p.inside (front ++ [name])) = .ok ⟨real, .directory below⟩

/-- Every link that is met on a way down from a path can be followed, and none leads back to a
directory on the way to it. A link cannot be followed that is broken, or on a way through more links
than a path may lead through. -/
structure Walkable (d : Disk) (skip : String → Bool) (p : Path) : Prop where
  follows : ∀ front name, Passes skip front → IsName name →
    d.isLink (p.inside (front ++ [name])) = true →
      ∃ place, d.find (p.inside (front ++ [name])) = .ok place
  returns : ∀ front real below, Passes skip front →
    d.find (p.inside front) = .ok ⟨real, .directory below⟩ → ¬d.LeadsBack skip (p.inside front) real

section Inside

variable (isName : IsName name) (kept : skip name = false)

include isName kept

theorem LeadsBack.outside {real : List String} (back : d.LeadsBack skip (p.inside [name]) real) :
    d.LeadsBack skip p real := by
  obtain ⟨front, last, below, passes, isLast, isLink, reached⟩ := back
  rw [Path.inside_inside, List.singleton_append, ← List.cons_append] at isLink reached
  exact ⟨name :: front, last, below, passes_cons.mpr ⟨isName, kept, passes⟩, isLast,
    isLink, reached⟩

theorem Walkable.inside (walkable : d.Walkable skip p) : d.Walkable skip (p.inside [name]) := by
  constructor
  · intro front last passes isLast isLink
    rw [Path.inside_inside, List.singleton_append, ← List.cons_append] at isLink ⊢
    exact walkable.follows _ last (passes_cons.mpr ⟨isName, kept, passes⟩) isLast isLink
  · intro front real below passes reached
    rw [Path.inside_inside, List.singleton_append] at reached ⊢
    exact walkable.returns _ real below (passes_cons.mpr ⟨isName, kept, passes⟩) reached

end Inside

/-- What is known of the entries of a directory, and of the ways down from those that are
directories, is known of the ways down from the directory itself. -/
theorem walkable_of_entries (found : d.find p = .ok ⟨here, .directory entries⟩)
    (self : ⟨path, here⟩ ∈ above)
    (entry : ∀ name, IsName name → d.isLink (p.inside [name]) = true →
      ∃ place, d.find (p.inside [name]) = .ok place ∧ ∀ ancestor ∈ above, ∀ below,
        place ≠ ⟨ancestor.names, .directory below⟩)
    (inner : ∀ name real below, IsName name → skip name = false →
      d.find (p.inside [name]) = .ok ⟨real, .directory below⟩ → d.Walkable skip (p.inside [name]) ∧
        ∀ ancestor ∈ above, ¬d.LeadsBack skip (p.inside [name]) ancestor.names) :
    d.Walkable skip p ∧ ∀ ancestor ∈ above, ¬d.LeadsBack skip p ancestor.names := by
  -- A link further down lies in a directory of which all this is known.
  have outer {next name : String} {front : List String} (isName : IsName name)
      (passes : Passes skip (next :: front))
      (isLink : d.isLink (p.inside (next :: (front ++ [name]))) = true) :
      Passes skip front ∧ d.Walkable skip (p.inside [next]) ∧
        ∀ ancestor ∈ above, ¬d.LeadsBack skip (p.inside [next]) ancestor.names := by
    obtain ⟨isNext, kept, passes⟩ := passes_cons.mp passes
    obtain ⟨real, target, looked⟩ := isLink_iff.mp isLink
    have proper := Path.proper_append.mpr ⟨passes.proper, Path.proper_singleton.mpr isName⟩
    obtain ⟨real, below, reached⟩ := exists_directory proper (by simp) looked
    exact ⟨passes, inner next real below isNext kept reached⟩
  have clear : ∀ ancestor ∈ above, ¬d.LeadsBack skip p ancestor.names := by
    rintro ancestor isAbove ⟨front, name, below, passes, isName, isLink, reached⟩
    cases front with
    | nil =>
        obtain ⟨place, reached', fresh⟩ := entry name isName isLink
        cases reached.symm.trans reached'
        exact fresh ancestor isAbove below rfl
    | cons next front =>
        obtain ⟨passes, -, clear⟩ := outer isName passes isLink
        exact clear ancestor isAbove
          ⟨front, name, below, passes, isName, by rwa [Path.inside_inside],
            by rwa [Path.inside_inside]⟩
  refine ⟨⟨fun front name passes isName isLink => ?_,
    fun front real below passes reached back => ?_⟩,
    clear⟩
  · cases front with
    | nil =>
        obtain ⟨place, reached, -⟩ := entry name isName isLink
        exact ⟨place, reached⟩
    | cons next front =>
        obtain ⟨passes, walkable, -⟩ := outer isName passes isLink
        have follows := walkable.follows front name passes isName
        rw [Path.inside_inside] at follows
        exact follows isLink
  · cases front with
    | nil =>
        rw [Path.inside_nil] at reached back
        cases found.symm.trans reached
        exact clear _ self back
    | cons next front =>
        obtain ⟨last, name, _, passes', isName, isLink, _⟩ := id back
        have isLink' : d.isLink (p.inside (next :: ((front ++ last) ++ [name]))) = true := by
          simpa using isLink
        have onward : Passes skip (next :: (front ++ last)) :=
          ⟨Path.proper_append.mpr ⟨passes.proper, passes'.proper⟩,
            List.forall_mem_append.mpr ⟨passes.kept, passes'.kept⟩⟩
        have walkable := (outer isName onward isLink').2.1
        have returns := walkable.returns front real below (passes_cons.mp passes).2.2
        rw [Path.inside_inside] at returns
        exact returns reached back

section Ends

variable (found : d.find p = .ok ⟨here, .directory entries⟩) (alike : path.same p = true)

include found alike

/-- Where links can be followed and lead nowhere back, a walk comes to an end. -/
theorem Walkable.exists_filesFrom (tidy : Tidy d.root) (walkable : d.Walkable skip p)
    (clear : ∀ ancestor ∈ above, ¬d.LeadsBack skip p ancestor.names)
    (enough : d.bound above here entries ≤ depth) :
    ∃ files, filesFrom d skip depth above path here entries = .ok files := by
  induction depth generalizing above p path here entries with
  | zero => exact absurd enough (Nat.not_le.mpr (d.bound_pos above here entries))
  | succ depth ih =>
      obtain ⟨different, areNames⟩ := tidy here entries (at?_of_find found)
      -- The directory itself joins those above, and no link below leads back to it either.
      have clear' : ∀ ancestor ∈ ⟨path, here⟩ :: above, ¬d.LeadsBack skip p ancestor.names :=
        List.forall_mem_cons.mpr
          ⟨by simpa using walkable.returns [] here entries passes_nil (by simpa using found), clear⟩
      have each (entry : String × Node) (member : entry ∈ entries) :
          ∃ group, ListsOf d skip depth (⟨path, here⟩ :: above) path here entry group := by
        obtain ⟨name, node⟩ := entry
        have isName : IsName name := (areNames _ member).1
        have there := (mem_of_lookup_iff different).mpr member
        obtain ⟨place, reached⟩ : ∃ place, d.find (p.inside [name]) = .ok place := by
          by_cases isLink : d.isLink (p.inside [name]) = true
          · exact walkable.follows [] name passes_nil isName isLink
          · rw [isLink_entry isName found there] at isLink
            exact ⟨_, lookUp_entry isName found there
              (.inr fun target same => isLink ⟨target, same⟩)⟩
        have stands : resolveEntry d (⟨path, here⟩ :: above) (path.child name)
            (here ++ [name]) node =
            .ok place := by
          refine (resolveEntry_eq_ok isName found alike there).mpr ⟨reached, ?_⟩
          rintro isLink ancestor isAbove below rfl
          exact clear' ancestor isAbove ⟨[], name, below, passes_nil, isName, isLink, reached⟩
        cases kept : skip name with
        | true => exact ⟨_, .skipped stands kept⟩
        | false =>
            by_cases directory : ∃ below, place.node = .directory below
            · obtain ⟨real, node⟩ := place
              obtain ⟨below, rfl⟩ := directory
              obtain ⟨files, walked⟩ := ih reached (Path.child_same_inside isName alike)
                (walkable.inside isName kept)
                (fun ancestor isAbove back => clear' ancestor isAbove (back.outside isName kept))
                (Nat.le_of_lt_succ ((bound_lt member stands rfl).trans_le enough))
              exact ⟨_, .directory stands kept walked⟩
            · exact ⟨_, .single stands kept fun below same => directory ⟨below, same⟩⟩
      choose! group lists using each
      exact ⟨_, filesFrom_eq_ok.mpr ⟨group, lists, rfl⟩⟩

/-- Where a walk comes to an end, links can be followed and lead nowhere back. -/
theorem walkable_of_filesFrom {files : List (List String)}
    (walked : filesFrom d skip depth above path here entries = .ok files) :
    d.Walkable skip p ∧ ∀ ancestor ∈ ⟨path, here⟩ :: above, ¬d.LeadsBack skip p ancestor.names := by
  induction depth generalizing above p path here entries files with
  | zero => cases walked
  | succ depth ih =>
      obtain ⟨group, lists, -⟩ := filesFrom_eq_ok.mp walked
      refine walkable_of_entries found List.mem_cons_self ?_ ?_
      · intro name isName isLink
        obtain ⟨real, target, looked⟩ := isLink_iff.mp isLink
        obtain ⟨node, there⟩ := exists_entry isName found looked
        obtain ⟨place, stands⟩ := (lists _ (Node.mem_of_lookup there)).stands
        obtain ⟨reached, fresh⟩ := (resolveEntry_eq_ok isName found alike there).mp stands
        exact ⟨place, reached, fresh isLink⟩
      · intro name real below isName kept reached
        obtain ⟨node, there⟩ := exists_entry isName found reached
        have listed := lists _ (Node.mem_of_lookup there)
        obtain ⟨place, stands⟩ := listed.stands
        cases reached.symm.trans ((resolveEntry_eq_ok isName found alike there).mp stands).1
        obtain ⟨files, walked⟩ := listed.walked stands kept
        obtain ⟨walkable, clear⟩ := ih reached (Path.child_same_inside isName alike) walked
        exact ⟨walkable, (List.forall_mem_cons.mp clear).2⟩

end Ends

/-! ## The files below a directory -/

variable (tidy : Tidy d.root) (directory : d.isDirectory p = true)

include directory in
theorem filesBelow_eq (skip : String → Bool) :
    ∃ here entries, d.find p = .ok ⟨here, .directory entries⟩ ∧
      d.filesBelow skip p = filesFrom d skip d.walkDepth [] p here entries := by
  unfold isDirectory at directory
  split at directory
  · rename_i here entries found
    exact ⟨here, entries, found, by rw [filesBelow, found]⟩
  · cases directory

include tidy directory

/-- What is listed below a directory is the names that lead to files, each once. -/
theorem filesBelow_exact {files : List (List String)} (walked : d.filesBelow skip p = .ok files) :
    files.Nodup ∧ ∀ names, names ∈ files ↔ d.LeadsToFile skip p names := by
  obtain ⟨here, entries, found, whole⟩ := filesBelow_eq directory skip
  exact filesFrom_exact found (Path.same_iff.mpr ⟨rfl, rfl⟩) tidy (whole.symm.trans walked)

/-- The files below a directory can be listed exactly where every link can be followed and none
leads back to a directory that it was reached through. -/
theorem filesBelow_ok_iff :
    (∃ files, d.filesBelow skip p = .ok files) ↔ d.Walkable skip p := by
  obtain ⟨here, entries, found, whole⟩ := filesBelow_eq directory skip
  have self : p.same p = true := Path.same_iff.mpr ⟨rfl, rfl⟩
  rw [whole]
  constructor
  · rintro ⟨files, walked⟩
    exact (walkable_of_filesFrom found self walked).1
  · intro walkable
    exact walkable.exists_filesFrom found self tidy (List.forall_mem_nil _)
      (bound_le_walkDepth (at?_of_find found))

end Disk

end FunctionArchive
