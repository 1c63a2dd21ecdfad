import FunctionArchive.Proofs.Resolution.Links
import Mathlib

/-!
# Walking to what a reference means

The operating system looks a path up as a whole; the links of a resolved reference are collected
name by name, and every link is replaced by its real path before the walk goes on. Both come to the
same place. The walk is `Crosses`: from a path through some names, over the links that stand there,
in this order, and over no other. Wherever a look-up has a result, the walk that collects the links
comes to an end and arrives at that result (`linksTo_crosses`). The invariant of the walk is that
the path at which it stands leads to the directory that the look-up has reached, over no link at all
(`Disk.Stands`).

The whole of Mathlib is imported for the examples at the end: `cbv` evaluates them with equations of
library functions, such as `List.lookup`, that Mathlib declares.
-/

set_option autoImplicit false

namespace FunctionArchive

open Path (Proper IsName IsPart Descends Rooted)

namespace Disk

variable {d : Disk} {root : Node} {links : Nat} {here names rest : List String} {name : String}
  {place : Place} {p : Path}

/-! ## One name further -/

/-- The next name of a look-up leads on without a link, or a link stands there. -/
theorem Leads.next (leads : Leads root true links here (name :: rest) place)
    (kept : Path.isRedundant name = false) :
    (∃ there, Leads root true links there rest place ∧
        ∀ {followLast : Bool} {links' : Nat} {pending : List String} {place' : Place},
          Leads root followLast links' there pending place' →
            Leads root followLast links' here (name :: pending) place') ∨
      ∃ entries target, name ≠ ".." ∧ root.at? here = some (.directory entries) ∧
        entries.lookup name = some (.link target) := by
  cases leads with
  | stay _ redundant _ => simp [kept] at redundant
  | up directory onward => exact .inl ⟨_, onward, .up directory⟩
  | down directory named notUp found notLink onward =>
      exact .inl ⟨_, onward, .down directory named notUp found notLink⟩
  | stop _ _ _ _ notFollowed => cases notFollowed
  | follow directory _ notUp found _ _ => exact .inr ⟨_, _, notUp, directory, found⟩

/-- A look-up goes on through names that lead down to where something stands. -/
theorem Leads.behind {node : Node} {followLast : Bool} {pending : List String}
    (onward : Leads root followLast links (here ++ names) pending place)
    (there : root.at? (here ++ names) = some node) (down : LeadsDown names)
    (notLink : ∀ target, node ≠ .link target) :
    Leads root followLast links here (names ++ pending) place := by
  induction names generalizing here with
  | nil => simpa using onward
  | cons name rest ih =>
      have joined : here ++ name :: rest = (here ++ [name]) ++ rest := by simp
      rw [joined] at onward there
      obtain ⟨named, notUp⟩ := down name List.mem_cons_self
      have further := ih onward there fun other member => down other (.tail _ member)
      have outer := there
      rw [List.append_assoc] at outer
      obtain ⟨entries, directory⟩ := Node.directory_of_at?_append outer (by simp)
      cases inner : entries.lookup name with
      | none =>
          rw [Node.at?_append, Node.at?_concat_of_directory directory, inner] at there
          cases there
      | some next =>
          refine .down directory named notUp inner ?_ further
          rintro target rfl
          have isLink : root.at? (here ++ [name]) = some (.link target) := by
            rw [Node.at?_concat_of_directory directory, inner]
          cases rest with
          | nil =>
              rw [List.append_nil, isLink] at there
              exact notLink target (Option.some.inj there).symm
          | cons second others =>
              obtain ⟨entries', directory'⟩ :=
                Node.directory_of_at?_append there (List.cons_ne_nil _ _)
              cases isLink.symm.trans directory'

/-- A look-up does not depend on redundant names. -/
theorem Leads.filter_redundant (leads : Leads root true links here names place) :
    Leads root true links here (names.filter (!Path.isRedundant ·)) place := by
  have each (before after : List String)
      (leads : Leads root true links here (before ++ after) place) :
      Leads root true links here (before ++ after.filter (!Path.isRedundant ·)) place := by
    induction after generalizing before with
    | nil => exact leads
    | cons name rest ih =>
        cases redundant : Path.isRedundant name with
        | true =>
            rw [List.filter_cons_of_neg (by simp [redundant])]
            exact ih before (leads.remove_redundant redundant)
        | false =>
            rw [List.filter_cons_of_pos (by simp [redundant])]
            have moved := ih (before ++ [name]) (by simpa using leads)
            simpa using moved
  exact each [] names leads

/-! ## Where a walk stands -/

/-- A path that leads to a place over no link: what leads on from the place leads on from it. -/
structure Stands (d : Disk) (p : Path) (here : List String) : Prop where
  absolute : p.absolute = true
  spelled : p.stem = p.names
  onward : ∀ {followLast : Bool} {links : Nat} {pending : List String} {place : Place},
    Leads d.root followLast links here pending place →
      Leads d.root followLast links [] (p.names ++ pending) place

theorem Stands.lookUp (stands : d.Stands p here) {followLast : Bool} {pending : List String}
    (leads : Leads d.root followLast links here pending place) (enough : links ≤ maxLinks) :
    d.lookUp followLast ⟨true, p.names ++ pending⟩ = .ok place := by
  have whole := (stands.onward leads).more enough
  simp [Disk.lookUp, namesOf, whole.walk_eq]

theorem Stands.find {node : Node} (stands : d.Stands p here)
    (there : d.root.at? here = some node) : d.find p = .ok ⟨here, node⟩ := by
  have found : d.lookUp true ⟨true, p.names ++ []⟩ = .ok ⟨here, node⟩ :=
    stands.lookUp (.arrive there) (Nat.zero_le maxLinks)
  have spelled : (⟨true, p.names⟩ : Path) = p := by rw [← stands.absolute]
  rw [List.append_nil, spelled] at found
  exact found

/-- The path of an entry leads to where the next name leads without a link. -/
theorem Stands.child (stands : d.Stands p here) {there : List String} (part : IsPart name)
    (through : ∀ {followLast : Bool} {links : Nat} {pending : List String} {place : Place},
      Leads d.root followLast links there pending place →
        Leads d.root followLast links here (name :: pending) place) :
    d.Stands (p.child name) there := by
  have child : p.child name = ⟨true, p.names ++ [name]⟩ := by
    rw [Path.child_eq p part, stands.spelled, stands.absolute]
  rw [child]
  refine ⟨rfl, ?_, fun leads => ?_⟩
  · simp [Path.stem, part.1]
  · have whole := stands.onward (through leads)
    rw [List.append_assoc, List.singleton_append]
    exact whole

theorem Stands.lookUp_child (stands : d.Stands p here) (part : IsPart name) {followLast : Bool}
    (leads : Leads d.root followLast links here [name] place) (enough : links ≤ maxLinks) :
    d.lookUp followLast (p.child name) = .ok place := by
  rw [Path.child_eq p part, stands.spelled, stands.absolute]
  exact stands.lookUp leads enough

/-- A real path stands for itself. -/
theorem Straight.stands {node : Node} (straight : d.Straight here)
    (there : d.root.at? here = some node) : d.Stands (.ofNames here) here := by
  have down := straight.proper.leadsDown
  refine ⟨rfl, straight.proper.stem_eq, fun leads => ?_⟩
  rw [← List.nil_append here] at there
  refine Leads.behind leads there down fun target isLink => ?_
  exact straight.noLink here (List.prefix_refl _) target (isLink ▸ there)

end Disk

/-! ## The walk over the links -/

/-- The walk from a path through some names that collects the links on the way: at a link it goes
on from the real path of what the link leads to, at anything else from the path of the entry. -/
inductive Resolution.Crosses (d : Disk) : Path → List String → List Link → Path → Prop
  | arrive (here : Path) : Crosses d here [] [] here
  | pass {here last : Path} {name : String} {rest : List String} {links : List Link}
      (noLink : d.isLink (here.child name) = false)
      (onward : Crosses d (here.child name) rest links last) :
      Crosses d here (name :: rest) links last
  | cross {here target last : Path} {name : String} {rest : List String} {links : List Link}
      (isLink : d.isLink (here.child name) = true)
      (leads : d.realPath (here.child name) = .ok target)
      (onward : Crosses d target rest links last) :
      Crosses d here (name :: rest) (⟨here.child name, target⟩ :: links) last

/-- A link that is listed as it should be: it stands and leads where it is said to, and its
directory is a real path. -/
structure Disk.IsCrossing (d : Disk) (link : Link) : Prop extends d.HoldsLink link where
  parent : ∃ directory, link.path.parent? = some directory ∧ d.realPath directory = .ok directory

namespace Resolution

open Disk (Leads Place maxLinks)
open Query (Alike)

variable {d : Disk} {limit : Option Path}

theorem linksFrom_pass {here : Path} {name : String} {rest : List String} {links : List Link}
    (noLink : d.isLink (here.child name) = false)
    (onward : (linksFrom (here.child name) rest).answer d limit = .ok links) :
    (linksFrom here (name :: rest)).answer d limit = .ok links := by
  rw [linksFrom]
  refine Alike.answer_bind (a := false) (.test _) (congrArg Except.ok noLink) ?_ onward
  exact linksFrom_steady d rest _

theorem linksFrom_cross {here target : Path} {name : String} {rest : List String}
    {links : List Link} (isLink : d.isLink (here.child name) = true)
    (leads : d.realPath (here.child name) = .ok target)
    (onward : (linksFrom target rest).answer d limit = .ok links) :
    (linksFrom here (name :: rest)).answer d limit =
      .ok (⟨here.child name, target⟩ :: links) := by
  have further : Query.Steady d (do
      return ⟨here.child name, target⟩ :: (← linksFrom target rest) : Query (List Link)) :=
    .andThen (linksFrom_steady d rest target) fun _ => .pure rfl
  rw [linksFrom]
  refine Alike.answer_bind (a := true) (.test _) (congrArg Except.ok isLink) ?_ ?_
  · exact .andThen (realPath_steady d _) fun target =>
      .andThen (linksFrom_steady d rest target) fun _ => .pure rfl
  · refine Alike.answer_bind (realPath_steady d _) (answer_realPath leads) further ?_
    exact Alike.answer_bind (linksFrom_steady d rest target) onward (.pure rfl) rfl

/-- Where a look-up has a result, the links on the way can be collected, and the walk over them
arrives at that result. -/
theorem linksFrom_crosses (limit : Option Path) (tree : d.IsTree) {names : List String}
    (kept : ∀ name ∈ names, Path.isRedundant name = false ∧ '/' ∉ name.toList) {p : Path}
    {here : List String} {bound : Nat} {place : Place} (stands : d.Stands p here)
    (leads : Leads d.root true bound here names place) (enough : bound ≤ maxLinks) :
    ∃ links last, (linksFrom p names).answer d limit = .ok links ∧ Crosses d p names links last ∧
      d.find last = .ok place := by
  induction names generalizing p here bound with
  | nil =>
      cases leads with
      | arrive there => exact ⟨[], p, rfl, .arrive p, stands.find there⟩
  | cons name rest ih =>
      obtain ⟨⟨named, noSlash⟩, keptRest⟩ := List.forall_mem_cons.mp kept
      have part : IsPart name := ⟨fun empty => by simp [empty, Path.isRedundant] at named, noSlash⟩
      cases isLink : d.isLink (p.child name) with
      | false =>
          rcases leads.next named with ⟨there, onward, through⟩ | linked
          · obtain ⟨links, last, answered, crosses, found⟩ :=
              ih keptRest (stands.child part through) onward enough
            exact ⟨links, last, linksFrom_pass isLink answered, .pass isLink crosses, found⟩
          · obtain ⟨entries, target, notUp, directory, found⟩ := linked
            have entry : d.findEntry (p.child name) = .ok ⟨here ++ [name], .link target⟩ :=
              stands.lookUp_child part (.stop directory named notUp found rfl)
                (Nat.zero_le maxLinks)
            simp [Disk.isLink, entry] at isLink
      | true =>
          obtain ⟨mid, fewer, lessThan, first, onward⟩ :=
            Disk.Leads.pass
              (show Disk.Leads d.root true bound here ([name] ++ rest) place from leads)
          have real : d.realPath (p.child name) = .ok mid.path := by
            have found : d.find (p.child name) = .ok mid := stands.lookUp_child part first enough
            simp [Disk.realPath, found, Except.map]
          obtain ⟨-, straight⟩ := tree.straight_of_realPath real
          obtain ⟨links, last, answered, crosses, found⟩ :=
            ih keptRest (straight.stands first.at?_names) onward (lessThan.trans enough)
          exact ⟨_, last, linksFrom_cross isLink real answered, .cross isLink real crosses, found⟩

/-! ## From the deepest shared directory -/

/-- A path from the root lies within some directory above a real one. -/
theorem exists_base {here : List String} (proper : Proper here) {found : Path}
    (absolute : found.absolute = true) :
    ∃ base, base <+: here ∧ (Path.ofNames here).ancestors.find? found.isWithin =
      some (.ofNames base) ∧
      ∃ rest, found.relativeTo? (.ofNames base) = some rest ∧ found.components = base ++ rest := by
  have within : found.isWithin (.ofNames []) = true := by
    rw [Path.isWithin_iff]
    exact ⟨absolute, List.nil_prefix⟩
  have root : Path.ofNames [] ∈ (Path.ofNames here).ancestors :=
    (proper.mem_ancestors _).mpr ⟨[], List.nil_prefix, rfl⟩
  cases shared : (Path.ofNames here).ancestors.find? found.isWithin with
  | none => exact absurd within (List.find?_eq_none.mp shared _ root)
  | some directory =>
      obtain ⟨base, inFront, rfl⟩ := (proper.mem_ancestors _).mp (List.mem_of_find?_eq_some shared)
      refine ⟨base, inFront, rfl, ?_⟩
      have isWithin := List.find?_some shared
      obtain ⟨-, rest, split⟩ := (Path.isWithin_iff _ _).mp isWithin
      rw [(proper.of_prefix inFront).components_eq] at split
      refine ⟨rest, ?_, split.symm⟩
      unfold Path.relativeTo?
      rw [(proper.of_prefix inFront).components_eq, ← split]
      simp [absolute, Path.ofNames]

/-- The links on the way to a path that leads somewhere can be collected, and the walk over them
from the deepest shared directory arrives where the path leads. -/
theorem linksTo_crosses (limit : Option Path) (tree : d.IsTree) {here : List String}
    (straight : d.Straight here) {found : Path} (rooted : found.Rooted) {place : Place}
    (leads : d.find found = .ok place) :
    ∃ base rest links last,
      (Path.ofNames here).ancestors.find? found.isWithin = some (.ofNames base) ∧
      base <+: here ∧ found.relativeTo? (.ofNames base) = some rest ∧
      found.components = base ++ rest ∧
      (linksTo (.ofNames here) found).answer d limit = .ok links ∧
      Crosses d (.ofNames base) rest links last ∧ d.find last = .ok place := by
  obtain ⟨base, inFront, shared, rest, relative, split⟩ :=
    exists_base straight.proper rooted.absolute
  have components : found.names.filter (!Path.isRedundant ·) = base ++ rest := by
    rw [← split, Path.components_of_absolute rooted.absolute]
  have whole : Leads d.root true maxLinks [] (base ++ rest) place := by
    rw [← components]
    refine Disk.Leads.filter_redundant (Disk.leads_of_walk ?_)
    simpa [Disk.find, Disk.lookUp, Disk.namesOf, rooted.absolute] using leads
  obtain ⟨mid, fewer, enough, first, onward⟩ := whole.pass
  have straightBase := straight.of_prefix inFront
  have arrives : mid.names = base := by
    simpa using first.names_eq straightBase.proper (by simpa using straightBase.noLink)
  have kept : ∀ name ∈ rest, Path.isRedundant name = false ∧ '/' ∉ name.toList := by
    intro name member
    have inside : name ∈ found.names.filter (!Path.isRedundant ·) := by simp [components, member]
    obtain ⟨among, notRedundant⟩ := List.mem_filter.mp inside
    exact ⟨by simpa using notRedundant, rooted.noSlash name among⟩
  have there : d.root.at? base = some mid.node := arrives ▸ first.at?_names
  rw [arrives] at onward
  obtain ⟨links, last, answered, crosses, isLast⟩ :=
    linksFrom_crosses limit tree kept (straightBase.stands there) onward enough
  refine ⟨base, rest, links, last, shared, inFront, relative, split, ?_, crosses, isLast⟩
  unfold linksTo
  rw [shared]
  simpa [relative] using answered

/-- A file that is found on the way from a real script has a real path and links to it. -/
theorem exists_links (limit : Option Path) (tree : d.IsTree) {requirer found : Path}
    (isReal : d.IsReal requirer) (rooted : found.Rooted) (isFile : d.isFile found = true) :
    ∃ path links, d.realPath found = .ok path ∧
      (linksTo (startOf requirer) found).answer d limit = .ok links := by
  obtain ⟨here, start, straight⟩ := tree.startOf_real isReal
  cases leads : d.find found with
  | error fault => simp [Disk.isFile, leads] at isFile
  | ok place =>
      obtain ⟨base, rest, links, last, -, -, -, -, crossed, -, -⟩ :=
        linksTo_crosses limit tree straight rooted leads
      exact ⟨place.path, links, by simp [Disk.realPath, leads, Except.map], start ▸ crossed⟩

/-! ## Walks over real directories -/

/-- Through names of entries the walk goes from real path to real path. -/
theorem Crosses.straight (tree : d.IsTree) {start last : Path} {names : List String}
    {links : List Link} (crosses : Crosses d start names links last) (proper : Proper names)
    {here : List String} (starts : start = .ofNames here) (straight : d.Straight here) :
    (∃ there, last = .ofNames there ∧ d.Straight there) ∧ ∀ link ∈ links, d.IsCrossing link := by
  induction crosses generalizing here with
  | arrive => exact ⟨⟨here, starts, straight⟩, List.forall_mem_nil _⟩
  | @pass _ _ name _ _ noLink _ ih =>
      subst starts
      obtain ⟨isName, properRest⟩ := List.forall_mem_cons.mp proper
      have next := straight.proper.child_eq isName.1
      refine ih properRest next (straight.concat isName fun target there => ?_)
      rw [next, (straight.isLink_iff isName).mpr ⟨target, there⟩] at noLink
      cases noLink
  | @cross _ target _ name _ _ isLink leads _ ih =>
      subst starts
      obtain ⟨isName, properRest⟩ := List.forall_mem_cons.mp proper
      have next := straight.proper.child_eq isName.1
      obtain ⟨isTarget, straightTarget⟩ := tree.straight_of_realPath leads
      obtain ⟨arrives, others⟩ := ih properRest isTarget straightTarget
      refine ⟨arrives, List.forall_mem_cons.mpr ⟨?_, others⟩⟩
      rw [next] at isLink leads ⊢
      obtain ⟨text, there⟩ := (straight.isLink_iff isName).mp isLink
      have properLink := tree.proper_of_at? there
      refine ⟨⟨Path.plain_ofNames.mpr properLink, ⟨text, there⟩, leads⟩, ?_⟩
      refine ⟨.ofNames here, properLink.parent?_concat, ?_⟩
      obtain ⟨entries, directory⟩ := Disk.Node.directory_of_at?_append there (List.cons_ne_nil _ _)
      have found := Disk.find_of_at? directory straight.proper.leadsDown nofun
      simp [Disk.realPath, found, Except.map, Place.path]

/-! ## The links of a resolved reference -/

variable {extensions : List String} {reference : String} {requirer : Path}

variable (d limit extensions reference requirer) in
/-- The path under which a reference is found, as it is before the links on it are resolved. -/
inductive FindsAt : Path → Prop
  | path {found : Path} (relative : Reference.isRelative reference = true)
      (stands : (pathFile extensions
        (Path.normalize d.current ((startOf requirer).child reference))).answer d limit =
          .ok (some found)) : FindsAt found
  | installed {place : Installed} (bare : Reference.isRelative reference = false)
      (stands : (installed extensions reference (startOf requirer)).answer d limit =
        .ok (some place)) : FindsAt place.path

/-- A reference is resolved by the real path of what it finds and by the links on the way there. -/
theorem resolve_findsAt : Query.Yields d limit (resolve extensions reference requirer)
    fun resolution =>
    ∀ path package links, resolution = .resolved path package links →
      ∃ found, FindsAt d limit extensions reference requirer found ∧
        d.realPath found = .ok path ∧
        (linksTo (startOf requirer) found).answer d limit = .ok links := by
  unfold resolve
  split
  · exact .pure nofun
  · split
    · rename_i relative
      refine .bind (normalized_yields _) ?_
      rintro _ rfl
      refine .bind (pathFile_steady d extensions _).yields_answer ?_
      rintro (_ | found) stands
      · exact .throw _
      · refine .bind (.askDisk fun path real => real) fun path real => ?_
        refine .bind (linksTo_steady d _ _).yields_answer fun links crossed => .pure ?_
        rintro _ _ _ ⟨⟩
        exact ⟨found, .path relative stands, real, crossed⟩
    · rename_i bare
      refine .bind (installed_steady d extensions _ _).yields_answer ?_
      rintro (_ | place) stands
      · refine .bind (tolerance_alike d _ _).yields ?_
        rintro (_ | reason) -
        · exact .throw _
        · exact .pure nofun
      · refine .bind (.askDisk fun path real => real) fun path real => ?_
        refine .bind (linksTo_steady d _ _).yields_answer fun links crossed => .pure ?_
        rintro _ _ _ ⟨⟩
        exact ⟨place.path, .installed (by simpa using bare) stands, real, crossed⟩

/-- What a direct reference finds, it finds by a path that never leads upwards. -/
theorem FindsAt.descends (noSlash : ∀ extension ∈ extensions, '/' ∉ extension.toList)
    {here : List String} (start : startOf requirer = .ofNames here) (proper : Proper here)
    (direct : Reference.IsDirect reference) {found : Path}
    (finds : FindsAt d limit extensions reference requirer found) : found.Descends := by
  have plain : (Path.ofNames here).Plain := Path.plain_ofNames.mpr proper
  have knowing := Manifests.faithful_empty limit d
  cases finds with
  | path relative stands =>
      rw [start] at stands
      have descends := ((plain.descends.toRooted.child reference).normalize d.current).descends
      exact (pathFile_findsBelow noSlash descends knowing rfl).value _ stands _ rfl
  | installed bare stands =>
      have notUp : ".." ∉ (Path.ofString reference).names := by
        rcases direct with relative | notUp
        · cases bare.symm.trans relative
        · exact notUp
      have descend : ∀ directory ∈ (Path.ofNames here).ancestors, directory.Descends := by
        intro directory above
        obtain ⟨front, inFront, rfl⟩ := (proper.mem_ancestors _).mp above
        exact (Path.plain_ofNames.mpr (proper.of_prefix inFront)).descends
      rw [start] at stands
      exact (installedNext_findsBelow noSlash descend notUp knowing rfl).value _ stands _ rfl

/-- The links of a resolved reference reproduce its path: the walk from the deepest directory above
the script in which the reference is found goes over these links, in this order and over no others,
and ends at the path; the path is real, and each link stands in a real directory and leads where it
is said to. Extensions are taken to be parts of names. -/
theorem resolve_crosses (tree : d.IsTree)
    (noSlash : ∀ extension ∈ extensions, '/' ∉ extension.toList) (isReal : d.IsReal requirer)
    (direct : Reference.IsDirect reference) {known : Manifests} (faithful : known.Faithful d)
    {path : Path} {package : Option Path} {links : List Link}
    (resolved : (((resolve extensions reference requirer) d).run known).1 =
      .ok (.resolved path package links)) :
    d.realPath path = .ok path ∧ (∀ link ∈ links, d.IsCrossing link) ∧
      ∃ found base rest, FindsAt d known.boundary extensions reference requirer found ∧
        d.realPath found = .ok path ∧
        (startOf requirer).ancestors.find? found.isWithin = some base ∧
        found.relativeTo? base = some rest ∧ Crosses d base rest links path := by
  obtain ⟨here, start, straight⟩ := tree.startOf_real isReal
  obtain ⟨found, finds, real, crossed⟩ :=
    (resolve_findsAt faithful rfl).value _ resolved _ _ _ rfl
  have descends := finds.descends noSlash start straight.proper direct
  obtain ⟨place, leads, isPath⟩ := Disk.find_of_realPath real
  obtain ⟨base, rest, links', last, shared, inFront, relative, split, crossed', crosses, isLast⟩ :=
    linksTo_crosses known.boundary tree straight descends.toRooted leads
  rw [start, crossed'] at crossed
  cases crossed
  have proper : Proper rest :=
    (Path.proper_append.mp (split ▸ descends.proper_components)).2
  obtain ⟨⟨there, arrives, isStraight⟩, crossings⟩ :=
    crosses.straight tree proper rfl (straight.of_prefix inFront)
  subst arrives isPath
  have names : place.names = there := by
    have walked : Leads d.root true maxLinks [] there place := Disk.leads_of_walk isLast
    simpa using walked.names_eq isStraight.proper (by simpa using isStraight.noLink)
  have same : place.path = .ofNames there := by rw [Place.path, names]
  refine ⟨?_, crossings, found, .ofNames base, rest, finds, real, ?_, relative, ?_⟩
  · rw [same]
    simp [Disk.realPath, isLast, Except.map, same]
  · rw [start]
    exact shared
  · rw [same]
    exact crosses

/-! ## A link that is crossed, and one that is misnamed -/

namespace LinkedSample

def emptyFile : Disk.Node := .file ⟨[], 0o644, 0⟩

def scriptPath : Path := .ofNames ["a.js"]

/-- A script beside a link to a directory. -/
def linkedDirectory : Disk where
  root := .directory [("a.js", emptyFile), ("lib", .link "store"),
    ("store", .directory [("b.js", emptyFile)])]
  current := .root
  now := 0

theorem resolve_linkedDirectory :
    (resolve [] "./lib/b.js" scriptPath).answer linkedDirectory none =
      .ok (.resolved (.ofNames ["store", "b.js"]) none
        [⟨.ofNames ["lib"], .ofNames ["store"]⟩]) := by
  have found : Path.normalize linkedDirectory.current ((startOf scriptPath).child "./lib/b.js") =
      .ofNames ["lib", "b.js"] := by cbv
  have first : (.ofNames ["lib", "b.js"] :: List.map (Path.ofNames ["lib", "b.js"]).appendToName
      []).find? linkedDirectory.isFile = some (.ofNames ["lib", "b.js"]) := by cbv
  have stands : (pathFile [] (Path.normalize linkedDirectory.current
      ((startOf scriptPath).child "./lib/b.js"))).answer linkedDirectory none =
        .ok (some (.ofNames ["lib", "b.js"])) := by
    rw [found]
    exact Alike.answer_bind (a := some (.ofNames ["lib", "b.js"])) (file_steady _ _ _)
      (congrArg Except.ok first) (.pure rfl) rfl
  exact resolve_relative (by cbv) (by cbv) stands (by cbv) (by cbv)

/-- A package directory beside a link, with an extension that leads to the link. -/
def climbingExtension : Disk where
  root := .directory [("a.js", emptyFile), ("b.js", emptyFile),
    ("node_modules", .directory [("p", .directory []), ("x", .link "../b.js")])]
  current := .root
  now := 0

/-- The place at which the link is reported. -/
def climbingPath : Path := .ofNames ["node_modules", "p", "..", "x"]

end LinkedSample

section Example

open LinkedSample

theorem resolve_crosses_linkedDirectory :
    linkedDirectory.IsCrossing ⟨.ofNames ["lib"], .ofNames ["store"]⟩ := by
  have paths : linkedDirectory.allPaths = [.root, scriptPath, .ofNames ["lib"], .ofNames ["store"],
      .ofNames ["store", "b.js"]] := rfl
  have tree : linkedDirectory.IsTree := by
    refine ⟨⟨_, rfl⟩, ?_⟩
    rw [paths]
    simp only [Path.Proper, Path.IsName, Path.IsPart]
    decide
  have noSlash : ∀ extension ∈ ([] : List String), '/' ∉ extension.toList := List.forall_mem_nil _
  obtain ⟨-, crossings, -⟩ := resolve_crosses tree noSlash ⟨scriptPath, by cbv⟩
    (.inl (by cbv)) (Manifests.faithful_empty none _) resolve_linkedDirectory
  exact crossings _ (List.mem_singleton_self _)

/-- An extension that leads upwards makes the resolution report a link whose directory is not a
real path. -/
theorem resolve_climbingExtension :
    (resolve ["../x"] "p/" scriptPath).answer climbingExtension none =
        .ok (.resolved (.ofNames ["b.js"]) (some (.ofNames ["node_modules", "p"]))
          [⟨climbingPath, .ofNames ["b.js"]⟩]) ∧
      climbingPath.parent? = some (.ofNames ["node_modules", "p", ".."]) ∧
      climbingExtension.realPath (.ofNames ["node_modules", "p", ".."]) =
        .ok (.ofNames ["node_modules"]) := by
  have start : startOf scriptPath = .root := by decide
  have package : packageIn "p/" .root = .ofNames ["node_modules", "p"] := by cbv
  have missing : Manifests.fetch climbingExtension
      ((packageIn "p/" .root).child Manifest.fileName) = .ok none := by
    rw [package]
    cbv
  have first : (((Path.root.child packagesName).child "p/") ::
      ["../x"].map ((Path.root.child packagesName).child "p/").appendToName).find?
        climbingExtension.isFile = some climbingPath := by
    have spelled : (Path.root.child packagesName).child "p/" =
        .ofNames ["node_modules", "p", ""] := by cbv
    have appended : (Path.ofNames ["node_modules", "p", ""]).appendToName "../x" =
        climbingPath := by
      cbv
    rw [spelled, List.map_singleton, appended]
    cbv
  have stands : (installedIn ["../x"] (Path.root.child packagesName) "p/").answer
      climbingExtension none = .ok (some climbingPath) := by
    refine Alike.answer_bind (a := none) (exported_steady _ _ _) (exported_none missing rfl)
      (pathFile_steady _ _ _) ?_
    exact Alike.answer_bind (a := some climbingPath) (file_steady _ _ _)
      (congrArg Except.ok first) (.pure rfl) rfl
  have place : (installed ["../x"] "p/" (startOf scriptPath)).answer climbingExtension none =
      .ok (some ⟨climbingPath, some (.ofNames ["node_modules", "p"])⟩) := by
    rw [start]
    exact installedNext_here (by decide) (by cbv) stands (by rw [package]; cbv)
      (by rw [package]; cbv)
  have crossed : (linksTo (startOf scriptPath) climbingPath).answer climbingExtension none =
      .ok [⟨climbingPath, .ofNames ["b.js"]⟩] := by
    rw [start]
    cbv
  refine ⟨?_, by decide, by cbv⟩
  exact resolve_installed (by cbv) (by cbv) place (by cbv) crossed

end Example

end Resolution

end FunctionArchive
