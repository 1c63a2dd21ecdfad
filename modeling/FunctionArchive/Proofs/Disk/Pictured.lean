import FunctionArchive.Proofs.Disk.Followed
import FunctionArchive.Proofs.Disk.Mounted
import FunctionArchive.Proofs.Layout.Ways
import FunctionArchive.Proofs.Resolution.Crossing

/-!
# Copies of a part of a tree

A copy of a part of a tree (`Pictures`) has no files and directories but those of the tree, and its
links lead straight to where the links of the tree lead by whatever way. What a path leads to in the
copy it leads to in the tree (`Pictures.find`), unless the tree takes more links on the way than a
path may lead through: each link of the copy stands for a way of at least one link (`Leads.cost`),
so the copy refuses no path for its links that the tree does not refuse (`Pictures.refused`).

Nothing is said here about what the copy lacks. What is found in it by a path whose links it has is
the subject of `FunctionArchive.Proofs.Resolution.Carried`.
-/

set_option autoImplicit false

namespace FunctionArchive.Disk

open FunctionArchive.Path (Proper IsName mounted)
open Layout (wayTo)

variable {root : Node} {links : Nat} {here front names : List String} {name : String}
  {place mid : Place}

/-! ## What a look-up costs -/

/-- Something stands where a look-up starts. -/
theorem Leads.start (leads : Leads root true links here names place) :
    ∃ node, root.at? here = some node := by
  cases leads with
  | arrive there => exact ⟨_, there⟩
  | stay directory _ _ | up directory _ | down directory _ _ _ _ _ | stop directory _ _ _ _
  | follow directory _ _ _ _ _ => exact ⟨_, directory⟩

/-- A look-up is refused for one of three reasons. -/
theorem walk_refused {followLast : Bool} {pending : List String} {fault : Fault}
    (refused : walk root followLast links here pending = .error fault) :
    fault = .notFound ∨ fault = .notDirectory ∨ fault = .tooManyLinks := by
  fun_induction walk root followLast links here pending <;> simp_all

/-- A look-up uses up some links, and what is looked up behind it goes on with the rest of them. -/
theorem Leads.cost (leads : Leads root true links here front mid) :
    ∃ cost ≤ links, ∀ bound back, walk root true bound here (front ++ back) =
      if bound < cost then .error .tooManyLinks
      else walk root true (bound - cost) mid.names back := by
  induction leads with
  | arrive => exact ⟨0, Nat.zero_le _, fun bound back => by simp⟩
  | stay directory redundant _ ih =>
      obtain ⟨cost, enough, further⟩ := ih
      exact ⟨cost, enough, fun bound back => by simp [walk, directory, redundant, further]⟩
  | up directory _ ih =>
      obtain ⟨cost, enough, further⟩ := ih
      exact ⟨cost, enough, fun bound back => by
        simp [walk, directory, Path.isRedundant, further]⟩
  | @down _ _ _ _ _ node _ directory named notUp found notLink _ ih =>
      obtain ⟨cost, enough, further⟩ := ih
      refine ⟨cost, enough, fun bound back => ?_⟩
      cases node with
      | link target => exact absurd rfl (notLink target)
      | file f => simp [walk, directory, named, notUp, found, further]
      | directory inner => simp [walk, directory, named, notUp, found, further]
  | stop _ _ _ _ notFollowed => cases notFollowed
  | follow directory named notUp found _ _ ih =>
      obtain ⟨cost, enough, further⟩ := ih
      refine ⟨cost + 1, Nat.succ_le_succ enough, fun bound back => ?_⟩
      cases bound with
      | zero => simp [walk, directory, named, notUp, found]
      | succ bound =>
          have onward := further bound back
          rw [List.append_assoc] at onward
          simp [walk, directory, named, notUp, found, onward]

/-- A look-up without links does not matter to what is looked up behind it. -/
theorem Leads.free (leads : Leads root true 0 here front mid) (bound : Nat) (back : List String) :
    walk root true bound here (front ++ back) = walk root true bound mid.names back := by
  obtain ⟨cost, enough, further⟩ := leads.cost
  obtain rfl := Nat.le_zero.mp enough
  simpa using further bound back

/-- A look-up through other many links has the same result, or too few of them. -/
theorem Leads.bounded (leads : Leads root true links here names place) (bound : Nat) :
    walk root true bound here names = .error .tooManyLinks ∨
      walk root true bound here names = .ok place := by
  obtain ⟨cost, -, further⟩ := leads.cost
  have result := further bound []
  rw [List.append_nil] at result
  by_cases few : bound < cost
  · exact .inl (by rw [result, if_pos few])
  · exact .inr (by rw [result, if_neg few]; simp [walk, leads.at?_names])

/-- Going up from a directory takes no links. -/
theorem leads_ups {entries : List (String × Node)}
    (directory : root.at? here = some (.directory entries)) (steps : Nat) :
    ∃ node, Leads root true 0 here (List.replicate steps "..")
      ⟨here.take (here.length - steps), node⟩ := by
  induction steps generalizing here entries with
  | zero => exact ⟨.directory entries, by simpa using .arrive directory⟩
  | succ steps ih =>
      obtain ⟨outer, above⟩ := Node.directory_of_dropLast directory
      obtain ⟨node, further⟩ := ih above
      have taken : here.dropLast.take (here.dropLast.length - steps) =
          here.take (here.length - (steps + 1)) := by
        rw [List.dropLast_eq_take, List.take_take, List.length_take]
        congr 1
        omega
      rw [taken] at further
      exact ⟨node, .up directory further⟩

/-- Where nothing stands at the end of a way without links, a look-up is refused, but not for its
links. -/
theorem walk_absent (proper : Proper names) (absent : root.at? (here ++ names) = none)
    (noLink : ∀ front, front <+: names → ∀ target, root.at? (here ++ front) ≠ some (.link target))
    (bound : Nat) (back : List String) :
    walk root true bound here (names ++ back) = .error .notFound ∨
      walk root true bound here (names ++ back) = .error .notDirectory := by
  induction names generalizing here with
  | nil =>
      rw [List.append_nil] at absent
      cases back <;> simp [walk, absent]
  | cons name rest ih =>
      obtain ⟨isName, properRest⟩ := List.forall_mem_cons.mp proper
      have named : Path.isRedundant name = false := isName.notRedundant
      cases at_here : root.at? here with
      | none => simp [walk, at_here]
      | some node =>
          cases node with
          | file f => simp [walk, at_here]
          | link target => simp [walk, at_here]
          | directory entries =>
              have next := Node.at?_concat_of_directory at_here name
              have further := @ih (here ++ [name]) properRest (by simpa using absent)
                fun front inFront target => by
                  simpa using noLink (name :: front)
                    (List.cons_prefix_cons.mpr ⟨rfl, inFront⟩) target
              have noLinkHere := noLink [name] (List.cons_prefix_cons.mpr ⟨rfl, List.nil_prefix⟩)
              cases found : entries.lookup name with
              | none => simp [walk, at_here, named, isName.2.2, found]
              | some node =>
                  cases node with
                  | link target => exact absurd (next.trans found) (noLinkHere target)
                  | file f => simpa [walk, at_here, named, isName.2.2, found] using further
                  | directory inner => simpa [walk, at_here, named, isName.2.2, found] using further

/-! ## Copies -/

/-- One is a copy of the other: both are files with the same data, or directories, or links. -/
inductive Node.Copies : Node → Node → Prop
  | file {f f' : File} (same : f.data = f'.data) : Copies (.file f) (.file f')
  | directory (entries entries' : List (String × Node)) :
      Copies (.directory entries) (.directory entries')
  | link (text text' : String) : Copies (.link text) (.link text')

/-- What stands at `site` is a copy of a part of what stands at `base` on another disk. Its links
lead straight to the copies of what the links of the other disk lead to. -/
structure Pictures (d' : Disk) (site : List String) (d : Disk) (base : List String) : Prop where
  straight : d'.Straight site
  straight' : d.Straight base
  root : ∃ entries, d'.root.at? site = some (.directory entries)
  copies : ∀ names node, d'.root.at? (site ++ names) = some node →
    ∃ node', d.root.at? (base ++ names) = some node' ∧ node.Copies node'
  link : ∀ names text, d'.root.at? (site ++ names) = some (.link text) →
    ∃ front name target, names = front ++ [name] ∧
      d.realPath (.ofNames (base ++ names)) = .ok (.ofNames (base ++ target)) ∧
      target ≠ front ∧ text = "/".intercalate (wayTo target front)

/-- The way from a directory to a target, if no link is on it. -/
theorem leads_wayTo {site origin : List String} (target : List String)
    {entries : List (String × Node)}
    (directory : root.at? (site ++ origin) = some (.directory entries)) :
    ∃ node, Leads root true 0 (site ++ origin)
      (List.replicate (origin.length - (Layout.commonFront origin target).length) "..")
      ⟨site ++ Layout.commonFront origin target, node⟩ := by
  obtain ⟨node, leads⟩ :=
    leads_ups directory (origin.length - (Layout.commonFront origin target).length)
  obtain ⟨rest, split⟩ := (Layout.commonFront_prefix origin target).1
  have taken : (site ++ origin).take ((site ++ origin).length -
      (origin.length - (Layout.commonFront origin target).length)) =
        site ++ Layout.commonFront origin target := by
    have enough : (Layout.commonFront origin target).length ≤ origin.length :=
      (Layout.commonFront_prefix origin target).1.length_le
    have length : (site ++ origin).length -
        (origin.length - (Layout.commonFront origin target).length) =
          (site ++ Layout.commonFront origin target).length := by
      simp only [List.length_append]
      omega
    rw [length]
    nth_rewrite 2 [← split]
    rw [← List.append_assoc, List.take_left]
  rw [taken] at leads
  exact ⟨node, leads⟩

namespace Pictures

variable {d d' : Disk} {site base target rest : List String} {p : Path} {text onDisk : String}
  {bound : Nat} {node : Node}

/-- A directory of the copy is one of the tree. -/
theorem directory (pictures : Pictures d' site d base) {entries : List (String × Node)}
    (there : d'.root.at? (site ++ names) = some (.directory entries)) :
    ∃ entries', d.root.at? (base ++ names) = some (.directory entries') := by
  obtain ⟨node, found, copies⟩ := pictures.copies names _ there
  cases copies
  exact ⟨_, found⟩

/-- The base is a directory. -/
theorem root' (pictures : Pictures d' site d base) :
    ∃ entries, d.root.at? base = some (.directory entries) := by
  obtain ⟨entries, root⟩ := pictures.root
  rw [← List.append_nil site] at root
  obtain ⟨entries', root'⟩ := pictures.directory root
  exact ⟨entries', by simpa using root'⟩

/-- The way to what is below the site, or the base, is the way from there. -/
theorem walk_below (pictures : Pictures d' site d base) (bound : Nat) (names : List String) :
    walk d'.root true bound [] (site ++ names) = walk d'.root true bound site names ∧
      walk d.root true bound [] (base ++ names) = walk d.root true bound base names := by
  obtain ⟨_, root⟩ := pictures.root
  obtain ⟨_, root'⟩ := pictures.root'
  exact ⟨walk_straight_root root pictures.straight.proper.leadsDown,
    walk_straight_root root' pictures.straight'.proper.leadsDown⟩

/-! ## Crossing a link -/

/-- A link of the tree takes at least one link to get to its target. -/
theorem cross_tree (tree : d.IsTree)
    (there : d.root.at? (base ++ (front ++ [name])) = some (.link onDisk))
    (leads : d.realPath (.ofNames (base ++ (front ++ [name]))) = .ok (.ofNames (base ++ target))) :
    ∃ cost, 0 < cost ∧ ∀ bound rest, walk d.root true bound (base ++ front) (name :: rest) =
      if bound < cost then .error .tooManyLinks
      else walk d.root true (bound - cost) (base ++ target) rest := by
  rw [← List.append_assoc] at there leads
  obtain ⟨entries, directory⟩ := Node.directory_of_at?_append there (List.cons_ne_nil _ _)
  have found : entries.lookup name = some (.link onDisk) :=
    (Node.at?_concat_of_directory directory name).symm.trans there
  obtain ⟨properFront, properName⟩ := Path.proper_append.mp (tree.proper_of_at? there)
  have isName := Path.proper_singleton.mp properName
  obtain ⟨⟨names, node⟩, leads, real⟩ := find_of_realPath leads
  obtain rfl : base ++ target = names := congrArg Path.names real
  have way : Leads d.root true maxLinks (base ++ front) [name] ⟨base ++ target, node⟩ := by
    have whole := (leads_of_find leads).walk_eq
    exact leads_of_walk ((walk_straight_root directory properFront.leadsDown).symm.trans whole)
  obtain ⟨cost, -, further⟩ := way.cost
  refine ⟨cost, Nat.pos_of_ne_zero fun none => ?_, further⟩
  have stuck := further 0 []
  have arrived := way.at?_names
  simp [none, walk, directory, isName.notRedundant, isName.2.2, found, arrived] at stuck

/-- A link of the copy takes one link, and the way to its target no other. -/
theorem cross_copy (there : d'.root.at? (site ++ (front ++ [name])) = some (.link text))
    (named : Path.isRedundant name = false) (notUp : name ≠ "..") (proper : Proper target)
    (elsewhere : target ≠ front) (isText : text = "/".intercalate (wayTo target front)) :
    (∀ rest, walk d'.root true 0 (site ++ front) (name :: rest) = .error .tooManyLinks) ∧
    ∀ bound rest, walk d'.root true (bound + 1) (site ++ front) (name :: rest) =
      walk d'.root true bound (site ++ Layout.commonFront front target)
        (target.drop (Layout.commonFront front target).length ++ rest) := by
  rw [← List.append_assoc] at there
  obtain ⟨entries, directory⟩ := Node.directory_of_at?_append there (List.cons_ne_nil _ _)
  have found : entries.lookup name = some (.link text) :=
    (Node.at?_concat_of_directory directory name).symm.trans there
  refine ⟨fun rest => by simp [walk, directory, named, notUp, found], fun bound rest => ?_⟩
  obtain ⟨node, ups⟩ := leads_wayTo target directory
  have onward := ups.free bound (target.drop (Layout.commonFront front target).length ++ rest)
  rw [← List.append_assoc] at onward
  have read := Layout.ofString_wayTo proper elsewhere
  have step : walk d'.root true (bound + 1) (site ++ front) (name :: rest) =
      walk d'.root true bound (site ++ front) (wayTo target front ++ rest) := by
    simp [walk, directory, named, notUp, found, isText, read]
  exact step.trans onward

/-! ## What is found in the copy -/

/-- What a look-up in the tree comes to, told by what it comes to in the copy: the same place, if it
may take links enough; or too many links. -/
def Tracks (d : Disk) (site base : List String) (bound : Nat) (here pending : List String) :
    Except Fault Place → Prop
  | .ok place => ∃ names more node, place.names = site ++ names ∧
      walk d.root true more (base ++ here) pending = .ok ⟨base ++ names, node⟩
  | .error .tooManyLinks => ∀ fewer ≤ bound,
      walk d.root true fewer (base ++ here) pending = .error .tooManyLinks
  | .error _ => True

/-- Where both look-ups take a step without a link, it does not matter. -/
theorem Tracks.step {here' pending' : List String} {result : Except Fault Place}
    (same : ∀ more, walk d.root true more (base ++ here) names =
      walk d.root true more (base ++ here') pending')
    (tracks : Tracks d site base bound here' pending' result) :
    Tracks d site base bound here names result := by
  match result, tracks with
  | .ok place, ⟨names', more, node, arrives, found⟩ =>
      exact ⟨names', more, node, arrives, (same more).trans found⟩
  | .error fault, tracks =>
      cases fault with
      | tooManyLinks => exact fun fewer less => (same fewer).trans (tracks fewer less)
      | _ => trivial

/-- Across a link the tree goes on with less than the copy. -/
theorem Tracks.cross {cost : Nat} {result : Except Fault Place} (costs : 0 < cost)
    (crosses : ∀ bound rest, walk d.root true bound (base ++ front) (name :: rest) =
      if bound < cost then .error .tooManyLinks
      else walk d.root true (bound - cost) (base ++ target) rest)
    (tracks : Tracks d site base bound target rest result) :
    Tracks d site base (bound + 1) front (name :: rest) result := by
  match result, tracks with
  | .ok place, ⟨names, more, node, arrives, found⟩ =>
      refine ⟨names, cost + more, node, arrives, ?_⟩
      rw [crosses, if_neg (by omega), Nat.add_sub_cancel_left, found]
  | .error fault, tracks =>
      cases fault with
      | tooManyLinks =>
          intro fewer less
          rw [crosses]
          split
          · rfl
          · exact tracks _ (by omega)
      | _ => trivial

section Tree

variable (pictures : Pictures d' site d base) (tree : d.IsTree)
include pictures tree

/-- No link of the copy stands on the way to the target of a link. -/
theorem straight_target (leads : d.realPath p = .ok (.ofNames (base ++ target))) :
    Proper target ∧ ∀ front, front <+: target → ∀ text,
      d'.root.at? (site ++ front) ≠ some (.link text) := by
  obtain ⟨-, straight⟩ := tree.straight_of_realPath leads
  refine ⟨(Path.proper_append.mp straight.proper).2, fun front inFront text there => ?_⟩
  obtain ⟨node, isLink, copies⟩ := pictures.copies front _ there
  cases copies
  exact straight.noLink _ ((List.prefix_append_right_inj base).mpr inFront) _ isLink

section Link

variable (there : d'.root.at? (site ++ (front ++ [name])) = some (.link text))
include there

/-- A link of the copy and what it leads to. -/
theorem exists_target : ∃ target, Proper target ∧
    d.realPath (.ofNames (base ++ (front ++ [name]))) = .ok (.ofNames (base ++ target)) ∧
    target ≠ front ∧ text = "/".intercalate (wayTo target front) := by
  obtain ⟨front', name', target, split, leads, elsewhere, isText⟩ := pictures.link _ text there
  obtain ⟨rfl, same⟩ := List.append_inj' split rfl
  obtain rfl := (List.cons.inj same).1
  exact ⟨target, (pictures.straight_target tree leads).1, leads, elsewhere, isText⟩

theorem isName_link : IsName name := by
  obtain ⟨node, isLink, -⟩ := pictures.copies _ _ there
  exact tree.proper_of_at? isLink name (by simp)

/-- Where the copy has no link left, it refuses to go on. -/
theorem walk_spent (rest : List String) :
    walk d'.root true 0 (site ++ front) (name :: rest) = .error .tooManyLinks := by
  obtain ⟨target', proper, -, elsewhere, isText⟩ := pictures.exists_target tree there
  have isName := pictures.isName_link tree there
  exact (cross_copy there isName.notRedundant isName.2.2 proper elsewhere isText).1 rest

variable (leads : d.realPath (.ofNames (base ++ (front ++ [name]))) =
  .ok (.ofNames (base ++ target)))
include leads

/-- From a link of the copy a look-up goes on at the target of the link, or is refused since the
copy does not have it. -/
theorem walk_target (bound : Nat) (rest : List String) :
    match d'.root.at? (site ++ target) with
    | some _ => walk d'.root true (bound + 1) (site ++ front) (name :: rest) =
        walk d'.root true bound (site ++ target) rest
    | none => walk d'.root true (bound + 1) (site ++ front) (name :: rest) = .error .notFound ∨
        walk d'.root true (bound + 1) (site ++ front) (name :: rest) = .error .notDirectory := by
  obtain ⟨target', proper, leads', elsewhere, isText⟩ := pictures.exists_target tree there
  obtain rfl : target = target' := by
    have same := leads.symm.trans leads'
    exact List.append_cancel_left (congrArg Path.names (Except.ok.inj same))
  have isName := pictures.isName_link tree there
  have noLink := (pictures.straight_target tree leads).2
  have goes :=
    (cross_copy there isName.notRedundant isName.2.2 proper elsewhere isText).2 bound rest
  have split := List.prefix_iff_eq_append.mp (Layout.commonFront_prefix front target).2
  rw [goes]
  generalize target.drop (Layout.commonFront front target).length = down at split ⊢
  have properDown : Proper down := (Path.proper_append.mp (split ▸ proper)).2
  have joined : site ++ Layout.commonFront front target ++ down = site ++ target := by
    rw [List.append_assoc, split]
  cases found : d'.root.at? (site ++ target) with
  | none =>
      refine walk_absent properDown (joined ▸ found) (fun before inFront text' => ?_) bound rest
      rw [List.append_assoc]
      refine noLink _ ?_ text'
      nth_rewrite 2 [← split]
      exact (List.prefix_append_right_inj _).mpr inFront
  | some node =>
      have arrives : Leads d'.root true 0 (site ++ Layout.commonFront front target ++ down) []
          ⟨site ++ target, node⟩ := by
        rw [joined]
        exact .arrive found
      have way := arrives.behind (joined ▸ found) properDown.leadsDown
        fun text' isLink => noLink target List.prefix_rfl text' (isLink ▸ found)
      rw [List.append_nil] at way
      exact way.free bound rest

end Link

/-- Across a link of the copy the tree keeps track. -/
theorem tracks_cross (there : d'.root.at? (site ++ (front ++ [name])) = some (.link text))
    (onward : ∀ target less, less < bound → Tracks d site base less target rest
      (walk d'.root true less (site ++ target) rest)) :
    Tracks d site base bound front (name :: rest)
      (walk d'.root true bound (site ++ front) (name :: rest)) := by
  obtain ⟨target, -, leads, -, -⟩ := pictures.exists_target tree there
  obtain ⟨node, isLink, copies⟩ := pictures.copies _ _ there
  cases copies with
  | link _ onDisk =>
  obtain ⟨cost, costs, crosses⟩ := cross_tree tree isLink leads
  cases bound with
  | zero =>
      rw [pictures.walk_spent tree there]
      intro fewer none
      rw [crosses, if_pos (by omega)]
  | succ bound =>
      have goes := pictures.walk_target tree there leads bound rest
      cases found : d'.root.at? (site ++ target) with
      | none =>
          rw [found] at goes
          rcases goes with refused | refused <;> rw [refused] <;> trivial
      | some node' =>
          rw [found] at goes
          rw [goes]
          exact (onward target bound (Nat.lt_succ_self bound)).cross costs crosses

/-- What a look-up comes to in the copy tells what it comes to in the tree. -/
theorem tracks (bound : Nat) (here pending : List String) (level : ".." ∉ pending) :
    Tracks d site base bound here pending (walk d'.root true bound (site ++ here) pending) := by
  induction bound using Nat.strong_induction_on generalizing here pending with
  | _ bound onward =>
  induction pending generalizing here with
  | nil =>
      cases there : d'.root.at? (site ++ here) with
      | none => simp [walk, there, Tracks]
      | some node =>
          obtain ⟨node', found, -⟩ := pictures.copies here node there
          have arrives : walk d.root true 0 (base ++ here) [] = .ok ⟨base ++ here, node'⟩ := by
            simp [walk, found]
          have result : walk d'.root true bound (site ++ here) [] = .ok ⟨site ++ here, node⟩ := by
            simp [walk, there]
          rw [result]
          exact ⟨here, 0, node', rfl, arrives⟩
  | cons name rest ih =>
      have levelRest : ".." ∉ rest := fun up => level (List.mem_cons_of_mem _ up)
      have notUp : name ≠ ".." := fun up => level (up ▸ List.mem_cons_self)
      cases there : d'.root.at? (site ++ here) with
      | none => simp [walk, there, Tracks]
      | some node =>
          cases node with
          | file f => simp [walk, there, Tracks]
          | link text => simp [walk, there, Tracks]
          | directory entries =>
          obtain ⟨entries', found⟩ := pictures.directory there
          have next := Node.at?_concat_of_directory there name
          have next' := Node.at?_concat_of_directory found name
          rw [List.append_assoc] at next next'
          cases redundant : Path.isRedundant name with
          | true =>
              have stays : walk d'.root true bound (site ++ here) (name :: rest) =
                  walk d'.root true bound (site ++ here) rest := by simp [walk, there, redundant]
              rw [stays]
              exact (ih here levelRest).step fun more => by simp [walk, found, redundant]
          | false =>
              cases entry : entries.lookup name with
              | none => simp [walk, there, redundant, notUp, entry, Tracks]
              | some node =>
                  obtain ⟨node', entry', copies⟩ := pictures.copies _ node (next.trans entry)
                  have entry' := next'.symm.trans entry'
                  cases copies with
                  | link text text' =>
                      exact pictures.tracks_cross tree (next.trans entry) fun target less fewer =>
                        onward less fewer target rest levelRest
                  | file | directory =>
                      have goes : walk d'.root true bound (site ++ here) (name :: rest) =
                          walk d'.root true bound (site ++ (here ++ [name])) rest := by
                        simp [walk, there, redundant, notUp, entry]
                      rw [goes]
                      exact (ih (here ++ [name]) levelRest).step fun more => by
                        simp [walk, found, redundant, notUp, entry']

/-- What a path leads to in the copy it leads to in the tree, if that does not take too many
links. -/
theorem find {p : Path} (level : ".." ∉ p.names) (found : d'.find (p.mounted site) = .ok place)
    (few : d.find (p.mounted base) ≠ .error .tooManyLinks) :
    ∃ names node, place.names = site ++ names ∧
      d.find (p.mounted base) = .ok ⟨base ++ names, node⟩ ∧ place.node.Copies node := by
  have tracks := pictures.tracks tree maxLinks [] p.names level
  obtain ⟨below, below'⟩ := pictures.walk_below maxLinks p.names
  rw [List.append_nil, ← below, show walk d'.root true maxLinks [] (site ++ p.names) = .ok place
    from found] at tracks
  obtain ⟨names, more, node, arrives, leads⟩ := tracks
  rw [List.append_nil] at leads
  have whole : d.find (p.mounted base) = .ok ⟨base ++ names, node⟩ :=
    below'.trans (((leads_of_walk leads).bounded maxLinks).resolve_left fun many =>
      few (below'.trans many))
  obtain ⟨node', there, copies⟩ := pictures.copies names place.node (arrives ▸ at?_of_find found)
  obtain rfl := Option.some.inj ((at?_of_find whole).symm.trans there)
  exact ⟨names, node, arrives, whole, copies⟩

/-- The copy refuses no path for its links that the tree does not refuse. -/
theorem refused {p : Path} (level : ".." ∉ p.names)
    (refused : d'.find (p.mounted site) = .error .tooManyLinks) :
    d.find (p.mounted base) = .error .tooManyLinks := by
  have tracks := pictures.tracks tree maxLinks [] p.names level
  obtain ⟨below, below'⟩ := pictures.walk_below maxLinks p.names
  rw [List.append_nil, ← below, show walk d'.root true maxLinks [] (site ++ p.names) =
    .error .tooManyLinks from refused] at tracks
  have result := tracks maxLinks le_rfl
  rw [List.append_nil] at result
  exact below'.trans result

section Asked

variable {p : Path} (level : ".." ∉ p.names)
  (few : d.find (p.mounted base) ≠ .error .tooManyLinks)
include level few

theorem isFile (isFile : d'.isFile (p.mounted site) = true) : d.isFile (p.mounted base) = true := by
  obtain ⟨real, f, found⟩ := isFile_iff.mp isFile
  obtain ⟨names, node, -, whole, copies⟩ := pictures.find tree level found few
  cases copies
  exact isFile_iff.mpr ⟨_, _, whole⟩

theorem isDirectory (isDirectory : d'.isDirectory (p.mounted site) = true) :
    d.isDirectory (p.mounted base) = true := by
  unfold Disk.isDirectory at isDirectory
  cases found : d'.find (p.mounted site) with
  | error fault => simp [found] at isDirectory
  | ok place =>
      obtain ⟨names, node, -, whole, copies⟩ := pictures.find tree level found few
      obtain ⟨real, node'⟩ := place
      cases copies with
      | directory => simp [Disk.isDirectory, whole]
      | file | link => simp [found] at isDirectory

/-- A file that can be read in the copy holds what the file of the tree holds. -/
theorem read {bytes : List UInt8} (read : d'.read (p.mounted site) = .ok bytes) :
    d.read (p.mounted base) = .ok bytes := by
  unfold Disk.read Disk.file at read
  cases found : d'.find (p.mounted site) with
  | error fault => simp [found, Except.map] at read
  | ok place =>
      obtain ⟨names, node, -, whole, copies⟩ := pictures.find tree level found few
      obtain ⟨real, node'⟩ := place
      cases copies with
      | file same =>
          simp only [found, Except.map, Except.ok.injEq] at read
          simp [Disk.read, Disk.file, whole, Except.map, ← same, read]
      | directory | link => simp [found, Except.map] at read

end Asked

end Tree

end Pictures

end FunctionArchive.Disk
