import FunctionArchive.Proofs.Disk.Walks
import FunctionArchive.Proofs.Graph.Files
import FunctionArchive.Proofs.Relocation.Project

/-!
# Walks through a project that was moved

A directory of a project holds the same files wherever the project is checked out
(`filesBelow_mounted`): a walk through it resolves every entry to the same (`resolveEntry_mounted`)
and meets the same faults, spelled as they are seen from the site (`filesFrom_mounted`). There may
be more on the disk than the project, so a walk may go deeper there; it does not need to.
-/

set_option autoImplicit false

namespace FunctionArchive

open Path (IsName)

namespace Disk

/-- The same fault in a tree that stands at a site. -/
def Fault.mounted (site : List String) : Fault → Fault
  | .atEntry path cause => .atEntry (path.mounted site) cause
  | .cycle path ancestor => .cycle (path.mounted site) (ancestor.mounted site)
  | fault => fault

/-- The same directory of a tree that stands at a site. -/
def Ancestor.mounted (site : List String) (ancestor : Ancestor) : Ancestor :=
  ⟨ancestor.path.mounted site, site ++ ancestor.names⟩

theorem mapM_mapError {α α' β ε ε' : Type} {f : α → Except ε β} {g : α' → Except ε' β} {h : α → α'}
    {e : ε → ε'} {items : List α} (each : ∀ item ∈ items, g (h item) = (f item).mapError e) :
    (items.map h).mapM g = (items.mapM f).mapError e := by
  induction items with
  | nil => rfl
  | cons item rest ih =>
      obtain ⟨first, others⟩ := List.forall_mem_cons.mp each
      rw [List.map_cons, List.mapM_cons, List.mapM_cons, first, ih others]
      cases f item with
      | error flaw => rfl
      | ok b => cases rest.mapM f <;> rfl

theorem mapError_bind {α β ε ε' : Type} (x : Except ε α) (f : α → Except ε β) (e : ε → ε') :
    (x >>= f).mapError e = x.mapError e >>= fun a => (f a).mapError e := by
  cases x <;> rfl

mutual

theorem Node.size_mounted (site : List String) (node : Node) :
    (node.mounted site).size = node.size := by
  match node with
  | .file f => rfl
  | .link target => rfl
  | .directory entries => rw [mounted, size, size, sizes_mounted site entries]

theorem Node.sizes_mounted (site : List String) (entries : List (String × Node)) :
    sizes (mountedEntries site entries) = sizes entries := by
  match entries with
  | [] => rfl
  | (name, node) :: rest =>
      rw [mountedEntries, sizes, sizes, size_mounted site node, sizes_mounted site rest]

end

namespace Hosts

open Relocation (Stays Contained)

variable {tree node : Node} {d : Disk} {site names : List String} {path : Path}
  {above : List Ancestor} {entries : List (String × Node)} {skip : String → Bool}

theorem resolveEntry_mounted (hosts : d.Hosts site tree) (above : List Ancestor)
    (names : List String) (node : Node) (stays : Stays tree path) :
    resolveEntry d (above.map (Ancestor.mounted site)) (path.mounted site) (site ++ names)
        (node.mounted site) =
      ((resolveEntry (ofTree tree) above path names node).map (Place.mounted site)).mapError
        (Fault.mounted site) := by
  cases node with
  | file f => rfl
  | directory entries => rfl
  | link target =>
      rw [Node.mounted, resolveEntry, resolveEntry, find, hosts.lookUp_mounted stays true, find]
      cases (ofTree tree).lookUp true path with
      | error fault => rfl
      | ok place =>
          obtain ⟨real, node⟩ := place
          cases node with
          | file f => rfl
          | link text => rfl
          | directory entries =>
              have found : (above.map (Ancestor.mounted site)).find? (·.names == site ++ real) =
                  (above.find? (·.names == real)).map (Ancestor.mounted site) := by
                rw [List.find?_map]
                congr 2
                funext ancestor
                simp [Ancestor.mounted]
              simp only [Except.map, Place.mounted, Node.mounted, found]
              cases above.find? (·.names == real) <;> rfl

/-- A walk through a project finds the same, or fails in the same place. -/
theorem filesFrom_mounted (hosts : d.Hosts site tree) (project : Contained tree)
    (depth : Nat) (above : List Ancestor) (names : List String) (named : Named entries)
    (stays : Stays tree path) :
    filesFrom d skip depth (above.map (Ancestor.mounted site)) (path.mounted site) (site ++ names)
        (Node.mountedEntries site entries) =
      (filesFrom (ofTree tree) skip depth above path names entries).mapError
      (Fault.mounted site) := by
  induction depth generalizing above path names entries with
  | zero => rfl
  | succ depth ih =>
      have sorted : (Node.mountedEntries site entries).mergeSort (fun a b => a.1 ≤ b.1) =
          (entries.mergeSort fun a b => a.1 ≤ b.1).map fun entry =>
            (entry.1, entry.2.mounted site) := by
        rw [Node.mountedEntries_eq]
        symm
        exact List.map_mergeSort fun a _ b _ => rfl
      rw [filesFrom, filesFrom, sorted, mapError_bind]
      refine congrArg₂ (· >>= ·) (mapM_mapError fun entry among => ?_) rfl
      obtain ⟨name, node⟩ := entry
      obtain ⟨isName, below⟩ := named.entry (List.mem_mergeSort.mp among)
      have staysInside := stays.child_name project.links isName.1 isName.2.2
      have stands : resolveEntry d
          (⟨path.mounted site, site ++ names⟩ :: above.map (Ancestor.mounted site))
          ((path.mounted site).child name) (site ++ names ++ [name]) (node.mounted site) =
            ((resolveEntry (ofTree tree) (⟨path, names⟩ :: above) (path.child name)
              (names ++ [name])
              node).map (Place.mounted site)).mapError (Fault.mounted site) := by
        rw [Path.child_mounted_name hosts.proper path isName.1, List.append_assoc]
        exact hosts.resolveEntry_mounted (⟨path, names⟩ :: above) (names ++ [name]) node staysInside
      dsimp only
      rw [mapError_bind, stands]
      cases found : resolveEntry (ofTree tree) (⟨path, names⟩ :: above) (path.child name)
          (names ++ [name]) node with
      | error fault => rfl
      | ok place =>
          obtain ⟨real, stood⟩ := place
          show (if skip name then _ else _) = Except.mapError _ (if skip name then _ else _)
          split
          · rfl
          · cases stood with
            | file f => rfl
            | link target => rfl
            | directory inner =>
                have onward : filesFrom d skip depth
                    (⟨path.mounted site, site ++ names⟩ :: above.map (Ancestor.mounted site))
                    ((path.mounted site).child name) (site ++ real)
                      (Node.mountedEntries site inner) =
                      (filesFrom (ofTree tree) skip depth (⟨path, names⟩ :: above)
                        (path.child name) real
                        inner).mapError (Fault.mounted site) := by
                  rw [Path.child_mounted_name hosts.proper path isName.1]
                  exact ih (⟨path, names⟩ :: above) real
                    (project.isTree.named_of_resolveEntry below found rfl) staysInside
                dsimp only [Place.mounted, Node.mounted]
                rw [onward, mapError_bind]
                rfl

/-- There is nothing below a project that could make a walk through it longer. -/
theorem walkDepth_le (hosts : d.Hosts site tree) : (ofTree tree).walkDepth ≤ d.walkDepth := by
  have smaller := Node.size_le_of_at? hosts.there
  rw [Node.size_mounted] at smaller
  exact Nat.mul_le_mul (Nat.succ_le_succ smaller) (Nat.succ_le_succ smaller)

/-- A directory of the project holds the same files wherever the project is checked out. -/
theorem filesBelow_mounted (hosts : d.Hosts site tree) (project : Contained tree)
    (stays : Stays tree path) :
    d.filesBelow skip (path.mounted site) =
      ((ofTree tree).filesBelow skip path).mapError (Fault.mounted site) := by
  unfold filesBelow
  rw [find, hosts.lookUp_mounted stays true, find]
  cases found : (ofTree tree).lookUp true path with
  | error fault => rfl
  | ok place =>
      obtain ⟨names, node⟩ := place
      cases node with
      | file f => rfl
      | link target => rfl
      | directory entries =>
          have there : (ofTree tree).root.at? names = some (.directory entries) := at?_of_find found
          have enough : (ofTree tree).bound [] names entries ≤ (ofTree tree).walkDepth :=
            bound_le_walkDepth there
          show filesFrom d skip d.walkDepth ([].map (Ancestor.mounted site)) (path.mounted site)
            (site ++ names) (Node.mountedEntries site entries) = _
          rw [hosts.filesFrom_mounted project d.walkDepth [] names
            (project.isTree.named there) stays,
            filesFrom_enough (enough.trans hosts.walkDepth_le) enough]

end Hosts

end Disk

end FunctionArchive
