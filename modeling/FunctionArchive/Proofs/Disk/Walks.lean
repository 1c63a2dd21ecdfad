import FunctionArchive.Proofs.Disk.Listing
import Mathlib.Data.Finset.Card

/-!
# Walks come to an end by themselves

A walk that follows links may go as deep as `walkDepth` says. It never needs to: going down from a
directory to one of its entries leaves a smaller tree, and a link is followed only to a directory
that is not above yet, of which there are only so many. So the bound does not matter as long as
there is enough of it (`filesFrom_enough`), and there always is (`bound_le_walkDepth`).
-/

set_option autoImplicit false

namespace FunctionArchive.Disk

variable {d : Disk} {node inner : Node} {name : String} {names : List String}
  {entries below : List (String × Node)} {above : List Ancestor} {path : Path} {place : Place}

/-! ## Sizes -/

namespace Node

theorem size_pos (node : Node) : 0 < node.size := by
  cases node with
  | file f => exact Nat.one_pos
  | link target => exact Nat.one_pos
  | directory entries =>
      rw [size]
      omega

theorem size_le_sizes (member : (name, inner) ∈ entries) : inner.size ≤ sizes entries := by
  induction entries with
  | nil => cases member
  | cons first rest ih =>
      obtain ⟨other, node⟩ := first
      rw [sizes]
      rcases List.mem_cons.mp member with same | later
      · cases same
        exact Nat.le_add_right _ _
      · exact (ih later).trans (Nat.le_add_left _ _)

/-- An entry of a directory is smaller than the directory. -/
theorem size_lt_of_mem (member : (name, inner) ∈ entries) :
    inner.size < (Node.directory entries).size := by
  have smaller := size_le_sizes member
  rw [size]
  omega

theorem size_le_of_at? (there : node.at? names = some inner) : inner.size ≤ node.size := by
  induction names generalizing node with
  | nil =>
      cases there
      exact Nat.le_refl _
  | cons name rest ih =>
      cases node with
      | file f => cases there
      | link target => cases there
      | directory entries =>
          obtain ⟨next, member, further⟩ := at?_directory_cons there
          exact (ih further).trans (size_lt_of_mem member).le

mutual

theorem length_descendants (node : Node) : node.descendants.length + 1 = node.size := by
  match node with
  | .file f => rfl
  | .link target => rfl
  | .directory entries =>
      rw [descendants, size, length_descendantsOf entries, Nat.add_comm]

theorem length_descendantsOf (entries : List (String × Node)) :
    (descendantsOf entries).length = sizes entries := by
  match entries with
  | [] => rfl
  | (name, node) :: rest =>
      rw [descendantsOf, sizes, ← length_descendants node, ← length_descendantsOf rest]
      simp only [List.cons_append, List.length_cons, List.length_append, List.length_map]
      omega

end

end Node

/-! ## What a walk finds -/

theorem filesFrom_some {skip : String → Bool} {depth : Nat} {found : List (List String)}
    (walked : filesFrom d skip depth above path names entries = .ok found) : [] ∉ found := by
  cases depth with
  | zero => cases walked
  | succ depth =>
      rw [filesFrom] at walked
      obtain ⟨groups, listed, flattened⟩ := ok_of_bind walked
      cases flattened
      intro member
      obtain ⟨group, among, inside⟩ := List.mem_flatten.mp member
      obtain ⟨⟨name, node⟩, -, answered⟩ := exists_of_mem_mapM_ok listed among
      obtain ⟨place, -, answered⟩ := ok_of_bind answered
      have alone (last : Except.ok [[name]] = (Except.ok group : Except Fault _)) : False := by
        cases last
        cases List.mem_singleton.mp inside
      split at answered
      · cases answered
        cases inside
      · split at answered
        · obtain ⟨below, -, renamed⟩ := ok_of_bind answered
          cases renamed
          obtain ⟨rest, -, same⟩ := List.mem_map.mp inside
          cases same
        · exact alone answered

/-- What is found below a directory has at least one name. -/
theorem filesBelow_some {skip : String → Bool} {found : List (List String)}
    (directory : d.isDirectory path = true) (walked : d.filesBelow skip path = .ok found) :
    [] ∉ found := by
  unfold filesBelow at walked
  split at walked
  · cases walked
  · exact filesFrom_some walked
  · rename_i place other found
    obtain ⟨names, node⟩ := place
    rw [isDirectory, found] at directory
    cases node with
    | directory entries => exact absurd rfl (other _ _)
    | file f => cases directory
    | link target => cases directory

/-! ## What is left of a walk -/

/-- The names of everything on a disk. -/
def everything (d : Disk) : Finset (List String) := (d.allPaths.map (·.names)).toFinset

theorem mem_everything (there : d.root.at? names = some node) : names ∈ d.everything :=
  List.mem_toFinset.mpr (List.mem_map_of_mem (mem_allPaths_of_at? there))

theorem card_everything_le (d : Disk) : d.everything.card ≤ d.root.size := by
  refine (List.toFinset_card_le _).trans ?_
  simp only [allPaths, List.map_cons, List.length_cons, List.length_map]
  exact (Node.length_descendants d.root).le

/-- How much deeper a walk may go that is at a directory: to each directory that is not above yet a
link may lead, and from each of these it may go as deep as the tree. -/
def bound (d : Disk) (above : List Ancestor) (names : List String)
    (entries : List (String × Node)) :
    Nat :=
  (d.everything \ (names :: above.map (·.names)).toFinset).card * d.root.size +
    (Node.directory entries).size

theorem bound_le_walkDepth (there : d.root.at? names = some (.directory entries)) :
    d.bound above names entries ≤ d.walkDepth := by
  have few : (d.everything \ (names :: above.map (·.names)).toFinset).card ≤ d.root.size :=
    (Finset.card_le_card Finset.sdiff_subset).trans (card_everything_le d)
  have square : (d.root.size + 1) * (d.root.size + 1) =
      d.root.size * d.root.size + d.root.size + (d.root.size + 1) := by
    rw [Nat.mul_succ, Nat.succ_mul]
  rw [bound, walkDepth, square]
  exact Nat.le_add_right_of_le
    (Nat.add_le_add (Nat.mul_le_mul_right _ few) (Node.size_le_of_at? there))

/-- What an entry stands for is the entry itself, or a directory that is not above. -/
theorem eq_or_notMem_of_resolveEntry (stands : resolveEntry d above path names node = .ok place)
    (directory : place.node = .directory below) :
    node = .directory below ∨
      d.root.at? place.names = some (.directory below) ∧ place.names ∉ above.map (·.names) := by
  cases node with
  | file f =>
      cases stands
      cases directory
  | directory entries =>
      cases stands
      exact .inl directory
  | link target =>
      right
      cases found : d.find path with
      | error fault => simp [resolveEntry, found] at stands
      | ok reached =>
          obtain ⟨real, node⟩ := reached
          cases node with
          | file f =>
              simp only [resolveEntry, found] at stands
              cases stands
              cases directory
          | link target =>
              simp only [resolveEntry, found] at stands
              cases stands
              cases directory
          | directory inner =>
              simp only [resolveEntry, found] at stands
              split at stands
              · cases stands
              · rename_i fresh
                cases stands
                cases directory
                refine ⟨at?_of_find found, fun member => ?_⟩
                obtain ⟨ancestor, isAbove, same⟩ := List.mem_map.mp member
                simpa [same] using List.find?_eq_none.mp fresh ancestor isAbove

/-- Going on from an entry leaves less. -/
theorem bound_lt {inside : Path} (member : (name, node) ∈ entries)
    (stands : resolveEntry d (⟨path, names⟩ :: above) inside (names ++ [name]) node = .ok place)
    (directory : place.node = .directory below) :
    d.bound (⟨path, names⟩ :: above) place.names below < d.bound above names entries := by
  have fewer : d.everything \ (place.names :: names :: above.map (·.names)).toFinset ⊆
      d.everything \ (names :: above.map (·.names)).toFinset := by
    rw [List.toFinset_cons]
    exact Finset.sdiff_subset_sdiff (Finset.Subset.refl _) (Finset.subset_insert _ _)
  unfold bound
  rw [List.map_cons]
  rcases eq_or_notMem_of_resolveEntry stands directory with rfl | ⟨there, fresh⟩
  · have smaller := Node.size_lt_of_mem member
    have left := Nat.mul_le_mul_right d.root.size (Finset.card_le_card fewer)
    dsimp only at left ⊢
    omega
  · have less : d.everything \ (place.names :: names :: above.map (·.names)).toFinset ⊂
        d.everything \ (names :: above.map (·.names)).toFinset := by
      refine (Finset.ssubset_iff_of_subset fewer).mpr ⟨place.names, ?_, ?_⟩
      · exact Finset.mem_sdiff.mpr ⟨mem_everything there, fun member =>
          fresh (by simpa using member)⟩
      · simp
    have small := Node.size_le_of_at? there
    have some := (Node.directory entries).size_pos
    have left := Nat.mul_le_mul_right d.root.size (Nat.succ_le_of_lt (Finset.card_lt_card less))
    rw [Nat.succ_mul] at left
    dsimp only at left ⊢
    omega

theorem bound_pos (d : Disk) (above : List Ancestor) (names : List String)
    (entries : List (String × Node)) : 0 < d.bound above names entries :=
  Nat.add_pos_right _ (Node.size_pos _)

/-! ## Enough is enough -/

theorem mapM_congr {α β ε : Type} {f g : α → Except ε β} {items : List α}
    (same : ∀ item ∈ items, f item = g item) : items.mapM f = items.mapM g := by
  induction items with
  | nil => rfl
  | cons item rest ih =>
      obtain ⟨first, others⟩ := List.forall_mem_cons.mp same
      rw [List.mapM_cons, List.mapM_cons, first, ih others]

/-- How deep a walk may go does not matter if it may go deep enough. -/
theorem filesFrom_enough {skip : String → Bool} {depth depth' : Nat}
    (enough : d.bound above names entries ≤ depth)
    (enough' : d.bound above names entries ≤ depth') :
    filesFrom d skip depth above path names entries =
      filesFrom d skip depth' above path names entries := by
  induction depth generalizing depth' above path names entries with
  | zero => exact absurd enough (Nat.not_le.mpr (d.bound_pos above names entries))
  | succ depth ih =>
      cases depth' with
      | zero => exact absurd enough' (Nat.not_le.mpr (d.bound_pos above names entries))
      | succ depth' =>
          rw [filesFrom, filesFrom]
          refine congrArg (· >>= _) (mapM_congr fun entry among => ?_)
          obtain ⟨name, node⟩ := entry
          have member := List.mem_mergeSort.mp among
          dsimp only
          cases stands : resolveEntry d (⟨path, names⟩ :: above) (path.child name) (names ++ [name])
              node with
          | error fault => rfl
          | ok place =>
              show (if skip name then _ else _) = (if skip name then _ else _)
              split
              · rfl
              · split
                · rename_i below directory
                  have less := bound_lt member stands directory
                  have left := Nat.le_of_lt_succ (less.trans_le enough)
                  have left' := Nat.le_of_lt_succ (less.trans_le enough')
                  rw [ih left left']
                · rfl

end FunctionArchive.Disk
