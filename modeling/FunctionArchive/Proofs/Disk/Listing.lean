import FunctionArchive.Proofs.Disk.Lookup
import FunctionArchive.Proofs.Path.Spelling
import Mathlib.Data.List.Infix

/-!
# Real paths and listings

A real path is made of names that lead down (`realPath_leadsDown`) and leads where it stands
(`find_of_at?`). So a walk through a directory that comes to an end finds every file that stands
below it, however deep, unless a name on the way is to be skipped (`mem_filesBelow`).
-/

set_option autoImplicit false

namespace FunctionArchive.Disk

variable {root node : Node} {followLast : Bool} {links : Nat}
  {here pending names front : List String}
  {place : Place} {d : Disk}

/-! ## Names that lead down -/

/-- Each of some names leads from a directory to an entry of it. -/
def LeadsDown (names : List String) : Prop :=
  ∀ name ∈ names, Path.isRedundant name = false ∧ name ≠ ".."

theorem leadsDown_concat {name : String} :
    LeadsDown (front ++ [name]) ↔
      LeadsDown front ∧ Path.isRedundant name = false ∧ name ≠ ".." := by
  simp only [LeadsDown, List.forall_mem_append, List.forall_mem_singleton]

theorem LeadsDown.of_append_left {rest : List String} (down : LeadsDown (front ++ rest)) :
    LeadsDown front := fun name member => down name (List.mem_append_left _ member)

theorem LeadsDown.trimEnd_eq (down : LeadsDown names) : Path.trimEnd true names = names := by
  rcases List.eq_nil_or_concat names with rfl | ⟨front, name, rfl⟩
  · rfl
  · rw [List.concat_eq_append] at down ⊢
    exact Path.trimEnd_concat true front (leadsDown_concat.mp down).2.1

theorem LeadsDown.stem_eq (down : LeadsDown names) : (Path.ofNames names).stem = names := by
  have last : names.getLast? ≠ some "" := fun ends => by
    simpa [Path.isRedundant] using (down "" (List.mem_of_getLast? ends)).1
  simp [Path.stem, Path.ofNames, last]

theorem LeadsDown.components_eq (down : LeadsDown names) :
    (Path.ofNames names).components = names :=
  List.filter_eq_self.mpr fun name member => by simp [(down name member).1]

/-- A look-up reports names that lead down, if it starts at such names. -/
theorem Leads.leadsDown (leads : Leads root followLast links here pending place)
    (down : LeadsDown here) : LeadsDown place.names := by
  induction leads with
  | arrive => exact down
  | stay _ _ _ ih => exact ih down
  | @up _ here _ _ _ _ _ ih =>
      exact ih fun name member => down name (List.dropLast_subset here member)
  | down _ named notUp _ _ _ ih => exact ih (leadsDown_concat.mpr ⟨down, named, notUp⟩)
  | stop _ named notUp _ _ => exact leadsDown_concat.mpr ⟨down, named, notUp⟩
  | @follow _ here _ _ target _ _ _ _ _ _ _ _ ih =>
      refine ih ?_
      split
      · exact List.forall_mem_nil _
      · exact down

theorem find_leadsDown {p : Path} (found : d.find p = .ok place) : LeadsDown place.names := by
  unfold find lookUp at found
  split at found
  · cases found
  · exact (leads_of_walk found).leadsDown (List.forall_mem_nil _)

/-- What stands under names that lead down is where they lead, unless it is a link. -/
theorem leads_of_at? (there : root.at? (here ++ names) = some node) (down : LeadsDown names)
    (notLink : ∀ target, node ≠ .link target) :
    Leads root followLast links here names ⟨here ++ names, node⟩ := by
  induction names generalizing here with
  | nil =>
      rw [List.append_nil] at there ⊢
      exact .arrive there
  | cons name rest ih =>
      have above := there
      rw [Node.at?_append] at above
      obtain ⟨parent, isParent, below⟩ := Option.bind_eq_some_iff.mp above
      obtain ⟨inner, isInner, further⟩ := Option.bind_eq_some_iff.mp below
      obtain ⟨named, notUp⟩ := down name List.mem_cons_self
      cases parent with
      | file f => simp [Node.child?] at isInner
      | link target => simp [Node.child?] at isInner
      | directory entries =>
          have onward := @ih (here ++ [name]) (by simpa using there)
            fun other member => down other (List.mem_cons_of_mem _ member)
          rw [List.append_assoc, List.singleton_append] at onward
          refine .down isParent named notUp isInner (fun target isLink => ?_) onward
          subst isLink
          cases rest with
          | nil => exact notLink target (Option.some.inj further).symm
          | cons next rest => simp [Node.at?, Node.child?] at further

theorem find_of_at? (there : d.root.at? names = some node) (down : LeadsDown names)
    (notLink : ∀ target, node ≠ .link target) : d.find (.ofNames names) = .ok ⟨names, node⟩ := by
  have leads : Leads d.root true maxLinks [] names ⟨names, node⟩ := leads_of_at? there down notLink
  simp [find, lookUp, namesOf, Path.ofNames, leads.walk_eq]

/-! ## Listing what is below a directory -/

theorem Node.at?_directory_cons {entries : List (String × Node)} {name : String}
    {rest : List String} (there : (Node.directory entries).at? (name :: rest) = some node) :
    ∃ inner, (name, inner) ∈ entries ∧ inner.at? rest = some node := by
  obtain ⟨inner, isInner, further⟩ := Option.bind_eq_some_iff.mp there
  exact ⟨inner, mem_of_lookup isInner, further⟩

/-- When each of some questions is answered, every item has its answer among them. -/
theorem exists_of_mapM_ok {α β ε : Type} {f : α → Except ε β} {items : List α}
    {answers : List β} (answered : items.mapM f = .ok answers) {item : α} (member : item ∈ items) :
    ∃ answer ∈ answers, f item = .ok answer := by
  induction items generalizing answers with
  | nil => cases member
  | cons first rest ih =>
      rw [List.mapM_cons] at answered
      obtain ⟨answer, isFirst, answered⟩ := ok_of_bind answered
      obtain ⟨others, areOthers, answered⟩ := ok_of_bind answered
      cases answered
      rcases List.mem_cons.mp member with rfl | later
      · exact ⟨answer, List.mem_cons_self, isFirst⟩
      · obtain ⟨answer', among, isAnswer⟩ := ih areOthers later
        exact ⟨answer', List.mem_cons_of_mem _ among, isAnswer⟩

/-- Every answer is the answer to the question about some item. -/
theorem exists_of_mem_mapM_ok {α β ε : Type} {f : α → Except ε β} {items : List α}
    {answers : List β} (answered : items.mapM f = .ok answers) {answer : β}
    (member : answer ∈ answers) : ∃ item ∈ items, f item = .ok answer := by
  induction items generalizing answers with
  | nil =>
      cases answered
      cases member
  | cons first rest ih =>
      rw [List.mapM_cons] at answered
      obtain ⟨own, isFirst, answered⟩ := ok_of_bind answered
      obtain ⟨others, areOthers, answered⟩ := ok_of_bind answered
      cases answered
      rcases List.mem_cons.mp member with rfl | later
      · exact ⟨first, List.mem_cons_self, isFirst⟩
      · obtain ⟨item, among, isAnswer⟩ := ih areOthers later
        exact ⟨item, List.mem_cons_of_mem _ among, isAnswer⟩

variable {skip : String → Bool} {entries : List (String × Node)} {found : List (List String)}
  {f : File}

/-- An entry that is not a link stands for itself. -/
theorem resolveEntry_self {above : List Ancestor} {path : Path}
    (notLink : ∀ target, node ≠ .link target) :
    resolveEntry d above path names node = .ok ⟨names, node⟩ := by
  cases node with
  | link target => exact absurd rfl (notLink target)
  | file f => rfl
  | directory entries => rfl

/-- A walk that comes to an end finds each file that stands below, unless a name on the way to it
is skipped. -/
theorem mem_filesFrom {depth : Nat} {above : List Ancestor} {path : Path}
    (walked : filesFrom d skip depth above path here entries = .ok found)
    (there : (Node.directory entries).at? names = some (.file f))
    (kept : ∀ name ∈ names, skip name = false) : names ∈ found := by
  induction depth generalizing above path here entries names found with
  | zero => cases walked
  | succ depth ih =>
      cases names with
      | nil => cases there
      | cons name rest =>
          obtain ⟨inner, member, further⟩ := Node.at?_directory_cons there
          obtain ⟨notSkipped, keptBelow⟩ := List.forall_mem_cons.mp kept
          have notLink : ∀ target, inner ≠ .link target := by
            rintro target rfl
            cases rest <;> cases further
          rw [filesFrom] at walked
          obtain ⟨groups, listed, flattened⟩ := ok_of_bind walked
          cases flattened
          obtain ⟨group, among, answered⟩ :=
            exists_of_mapM_ok listed (List.mem_mergeSort.mpr member)
          refine List.mem_flatten.mpr ⟨group, among, ?_⟩
          obtain ⟨place, stands, answered⟩ := ok_of_bind answered
          cases (resolveEntry_self notLink).symm.trans stands
          simp only [notSkipped, Bool.false_eq_true, if_false] at answered
          cases inner with
          | link target => exact absurd rfl (notLink target)
          | file g =>
              cases rest with
              | nil =>
                  cases answered
                  exact List.mem_singleton_self _
              | cons next rest => cases further
          | directory inside =>
              obtain ⟨below, walked, renamed⟩ := ok_of_bind answered
              cases renamed
              exact List.mem_map_of_mem (ih walked further keptBelow)

/-- A directory at its real path that can be listed has each file that stands below it in the list,
unless a name on the way to it is skipped. -/
theorem mem_filesBelow (found' : d.find (.ofNames front) = .ok ⟨front, .directory entries⟩)
    (walked : d.filesBelow skip (.ofNames front) = .ok found)
    (there : d.root.at? (front ++ names) = some (.file f))
    (kept : ∀ name ∈ names, skip name = false) : names ∈ found := by
  rw [Node.at?_append, at?_of_find found'] at there
  rw [filesBelow, found'] at walked
  exact mem_filesFrom walked there kept

end FunctionArchive.Disk
