import FunctionArchive.Proofs.Parallel
import FunctionArchive.Proofs.Relocation.Project

/-!
# Resolving references in a project that was moved

A reference in a project means the same wherever the project is checked out (`resolve_parallel`).
The look-ups follow the definitions: a path of the project leads to the same file or to none in both
checkouts, the directories above the project hold nothing that could be found, and the links on the
way to a file of the project are links of the project.
-/

set_option autoImplicit false

namespace FunctionArchive

open Query (Parallel SameWay Informed)
open Path (Proper IsName mounted)
open Disk (ofTree Inside LinksStay Hosts)

/-- Two runs that went the same way as a third. -/
theorem Query.SameWay.common {α β γ : Type} {related : α → γ → Prop} {related' : β → γ → Prop}
    {first : Outcome α} {second : Outcome β} {third : Outcome γ} (way : SameWay related first third)
    (way' : SameWay related' second third) :
    SameWay (fun a b => ∃ c, third = .ok c ∧ related a c ∧ related' b c) first second := by
  cases way with
  | ok values =>
      cases way' with
      | ok values' => exact .ok ⟨_, rfl, values, values'⟩
  | missing =>
      cases way' with
      | missing => exact .missing _ _ _ _
      | other isOther isOther' => exact absurd rfl (isOther' _ _)
  | other isOther isOther' =>
      cases way' with
      | missing => exact absurd rfl (isOther' _ _)
      | other isOther'' _ => exact .other isOther isOther''

namespace Relocation

variable {tree : Disk.Node} {extensions : List String} {reach : Path → Bool} {d d' : Disk}
  {site site' : List String} {limit limit' : Option Path} {p directory : Path} {reference : String}

/-! ## Manifests -/

/-- The manifest in a directory of the project is read as it is there. -/
theorem fetch_mounted (project : Contained tree) (hosts : d.Hosts site tree)
    (stays : Stays tree p) :
    SameWay (Option.Rel Manifest.Matches)
      (Manifests.fetch d ((p.mounted site).child Manifest.fileName))
      (Manifests.fetch (ofTree tree) (p.child Manifest.fileName)) := by
  have isPart : Path.IsPart Manifest.fileName := by decide
  unfold Manifests.fetch
  rw [Path.child_mounted_name hosts.proper p isPart,
    hosts.read_mounted (stays.child_name project.links isPart (by decide))]
  cases (ofTree tree).read (p.child Manifest.fileName) with
  | ok bytes =>
      dsimp only
      rw [Manifest.read, Manifest.read]
      cases Json.Reader.run Manifest.readFields bytes with
      | ok fields =>
          have alike (directory directory' : Path) :
              (Manifest.ofFields directory fields).Matches (.ofFields directory' fields) := rfl
          exact .ok (.some (alike _ _))
      | error error =>
          refine Query.SameWay.other ?_ ?_ <;> rintro name origin ⟨⟩
  | error fault =>
      cases fault with
      | notFound | notDirectory | isDirectory => exact .ok .none
      | _ => refine Query.SameWay.other ?_ ?_ <;> rintro name origin ⟨⟩

/-- What two runs know about the manifest in a directory of the project. -/
def Manifested (tree : Disk.Node) (p : Path) (m m' : Option Manifest) : Prop :=
  Option.Rel Manifest.Matches m ((ofTree tree).manifestIn p) ∧
    Option.Rel Manifest.Matches m' ((ofTree tree).manifestIn p)

theorem matches_trans {m m' m'' : Option Manifest} (first : Option.Rel Manifest.Matches m m')
    (second : Option.Rel Manifest.Matches m' m'') : Option.Rel Manifest.Matches m m'' := by
  cases first with
  | none =>
      cases second with
      | none => exact .none
  | some matched =>
      cases second with
      | some matched' => exact .some (matched.trans matched')

section Checkouts

variable (project : Contained tree) (here : Checkout tree extensions reach d site limit)
  (there : Checkout tree extensions reach d' site' limit')

include project here there

theorem load_parallel (stays : Stays tree p) :
    Parallel d d' limit limit' (Manifested tree p) (Manifests.load (p.mounted site))
      (Manifests.load (p.mounted site')) := by
  refine .load (((fetch_mounted project here.toHosts stays).common
    (fetch_mounted project there.toHosts stays)).mono ?_) ?_
  · rintro m m' ⟨manifest, fetched, matched, matched'⟩
    have manifestIn : (ofTree tree).manifestIn p = manifest := by rw [Disk.manifestIn, fetched]
    rw [Manifested, manifestIn]
    exact ⟨matched, matched'⟩
  · rintro m n m' n' matched matched' ⟨known, known'⟩
    exact ⟨matches_trans matched known, matches_trans matched' known'⟩

end Checkouts

/-! ## Files at a path -/

/-- Two searches that found the same file of the project, or none. -/
def Found (tree : Disk.Node) (site site' : List String) (found found' : Option Path) : Prop :=
  ∃ file : Option Path, (∀ p, file = some p → Stays tree p ∧ (ofTree tree).isFile p = true) ∧
    found = file.map (mounted site) ∧ found' = file.map (mounted site')

theorem Found.none : Found tree site site' none none := ⟨Option.none, nofun, rfl, rfl⟩

theorem find?_mounted (hosts : d.Hosts site tree) {paths : List Path}
    (stay : ∀ p ∈ paths, Stays tree p) :
    (paths.map (mounted site)).find? d.isFile =
      (paths.find? (ofTree tree).isFile).map (mounted site) := by
  induction paths with
  | nil => rfl
  | cons p rest ih =>
      obtain ⟨stays, others⟩ := List.forall_mem_cons.mp stay
      rw [List.map_cons, List.find?_cons, List.find?_cons, hosts.isFile_mounted stays]
      split
      · rfl
      · exact ih others

theorem firstFile_parallel (here : d.Hosts site tree) (there : d'.Hosts site' tree)
    {paths : List Path} (stay : ∀ p ∈ paths, Stays tree p) :
    Parallel d d' limit limit' (Found tree site site')
      (Resolution.firstFile (paths.map (mounted site)))
      (Resolution.firstFile (paths.map (mounted site'))) := by
  refine .bind .read ?_
  rintro _ _ ⟨rfl, rfl⟩
  refine .pure ⟨paths.find? (ofTree tree).isFile, fun p found => ⟨?_, ?_⟩, find?_mounted here stay,
    find?_mounted there stay⟩
  · exact stay p (List.mem_of_find?_eq_some found)
  · exact List.find?_some found

theorem Stays.appendToName (stays : Stays tree p) (links : LinksStay tree) (notRoot : p.names ≠ [])
    {extension : String} (isName : IsName extension) : Stays tree (p.appendToName extension) := by
  obtain ⟨⟨absolute, noSlash⟩, inside⟩ := stays
  obtain ⟨front, last, split⟩ := (List.eq_nil_or_concat p.names).resolve_left notRoot
  rw [List.concat_eq_append] at split
  rw [split] at noSlash inside
  obtain ⟨above, lastNoSlash⟩ := List.forall_mem_append.mp noSlash
  have spelled : p = ⟨true, front ++ [last]⟩ := by
    rw [← split]
    exact Path.eq_ofNames absolute
  have lastNoSlash := List.forall_mem_singleton.mp lastNoSlash
  rw [spelled, Path.appendToName_concat true front lastNoSlash isName.1.2]
  refine ⟨⟨rfl, List.forall_mem_append.mpr ⟨above, List.forall_mem_singleton.mpr ?_⟩⟩,
    inside.of_append.append links ?_⟩
  · simpa [isName.1.2] using lastNoSlash
  · simpa using (Path.append_ne_up isName).symm

section Checkouts

variable (project : Contained tree) (named : ∀ extension ∈ extensions, IsName extension)
  (here : Checkout tree extensions reach d site limit)
  (there : Checkout tree extensions reach d' site' limit')

/-- No file stands at the site or beside it. -/
theorem Checkout.site_find (here : Checkout tree extensions reach d site limit)
    (project : Contained tree) (named : ∀ extension ∈ extensions, IsName extension) {root : Path}
    (isRoot : root.names = []) :
    (root.mounted site :: extensions.map (root.mounted site).appendToName).find? d.isFile =
      none := by
  obtain ⟨entries, directory⟩ := project.isTree.root
  have itself : d.isFile (root.mounted site) = false := by
    rw [mounted, isRoot, here.isFile_eq Disk.inside_nil]
    have found : (ofTree tree).find (.ofNames []) = .ok ⟨[], .directory entries⟩ :=
      Disk.find_of_at? (congrArg some directory) (List.forall_mem_nil _) (by rintro target ⟨⟩)
    simp [Disk.isFile, found]
  have beside : ∀ extension ∈ extensions,
      d.isFile ((root.mounted site).appendToName extension) = false := by
    intro extension among
    have isName := named extension among
    rw [mounted, isRoot, List.append_nil]
    rcases List.eq_nil_or_concat site with rfl | ⟨front, last, rfl⟩
    · have spelled : (Path.ofNames []).appendToName extension = .ofNames ([] ++ [extension]) := by
        simp [Path.appendToName, Path.ofNames, Path.split_noSlash isName.1.2]
      have level : Inside tree [extension] :=
        Disk.inside_of_level project.links (by simpa using isName.2.2.symm)
      rw [spelled, here.isFile_eq level]
      exact here.rootFile rfl extension among
    · rw [List.concat_eq_append] at here ⊢
      have isLast := here.proper last (by simp)
      rw [Path.ofNames, Path.appendToName_concat true front isLast.1.2 isName.1.2]
      exact here.isFile_above (List.prefix_append _ _) (by simp) (isLast.append isName)
  rw [List.find?_eq_none]
  refine List.forall_mem_cons.mpr ⟨by simpa using itself, ?_⟩
  rintro _ among
  obtain ⟨extension, member, rfl⟩ := List.mem_map.mp among
  simpa using beside extension member

include project named here there

/-- A path of the project leads to the same file, perhaps with an extension, or to none. -/
theorem file_parallel (stays : Stays tree p) :
    Parallel d d' limit limit' (Found tree site site')
      (Resolution.file extensions (p.mounted site))
      (Resolution.file extensions (p.mounted site')) := by
  by_cases isRoot : p.names = []
  · refine .bind .read ?_
    rintro _ _ ⟨rfl, rfl⟩
    rw [here.site_find project named isRoot, there.site_find project named isRoot]
    exact .pure .none
  · have spelled (site : List String) :
        p.mounted site :: extensions.map (p.mounted site).appendToName =
          (p :: extensions.map p.appendToName).map (mounted site) := by
      rw [List.map_cons, List.map_map]
      exact congrArg _ (List.map_congr_left fun extension _ =>
        Path.appendToName_mounted isRoot extension)
    unfold Resolution.file
    rw [spelled site, spelled site']
    refine firstFile_parallel here.toHosts there.toHosts ?_
    refine List.forall_mem_cons.mpr ⟨stays, fun _ member => ?_⟩
    obtain ⟨extension, among, rfl⟩ := List.mem_map.mp member
    exact stays.appendToName project.links isRoot (named extension among)

/-- An index file is the same, or there is none. -/
theorem index_parallel (stays : Stays tree p) :
    Parallel d d' limit limit' (Found tree site site')
      (Resolution.index extensions (p.mounted site))
      (Resolution.index extensions (p.mounted site')) := by
  have isPart (extension : String) (among : extension ∈ extensions) :
      Path.IsPart ("index" ++ extension) :=
    ⟨by simp, by simpa using (named extension among).1.2⟩
  have spelled {site : List String} (proper : Proper site) :
      (extensions.map fun extension => (p.mounted site).child ("index" ++ extension)) =
        (extensions.map fun extension => p.child ("index" ++ extension)).map (mounted site) := by
    rw [List.map_map]
    exact List.map_congr_left fun extension among =>
      Path.child_mounted_name proper p (isPart extension among)
  unfold Resolution.index
  rw [spelled here.proper, spelled there.proper]
  refine firstFile_parallel here.toHosts there.toHosts fun _ member => ?_
  obtain ⟨extension, among, rfl⟩ := List.mem_map.mp member
  exact stays.child_name project.links (isPart extension among)
    (Path.append_ne_up (named extension among))

omit project named here there in
/-- To look for one file and then, if there is none, for another. -/
theorem orElse_parallel {first first' second second' : Query (Option Path)}
    (isFirst : Parallel d d' limit limit' (Found tree site site') first first')
    (isSecond : Parallel d d' limit limit' (Found tree site site') second second') :
    Parallel d d' limit limit' (Found tree site site')
      (do match ← first with | some found => return some found | none => second)
      (do match ← first' with | some found => return some found | none => second') := by
  refine .bind isFirst ?_
  rintro _ _ ⟨file, stays, rfl, rfl⟩
  cases file with
  | none => exact isSecond
  | some file => exact .pure ⟨some file, stays, rfl, rfl⟩

omit project named here there in
theorem normalized_parallel (path path' : Path) :
    Parallel d d' limit limit'
      (fun q q' => q = Path.normalize d.current path ∧ q' = Path.normalize d'.current path')
      (Resolution.normalized path) (Resolution.normalized path') := by
  refine .bind .read ?_
  rintro _ _ ⟨rfl, rfl⟩
  exact .pure ⟨rfl, rfl⟩

theorem mainFile_parallel (stays : Stays tree p) (keepsMain : KeepsMain tree p) :
    Parallel d d' limit limit' (Found tree site site')
      (Resolution.mainFile extensions (p.mounted site))
      (Resolution.mainFile extensions (p.mounted site')) := by
  refine .bind (load_parallel project here there stays) ?_
  rintro m m' ⟨matched, matched'⟩
  rw [Manifest.bind_eq_of_matches matched _ fun _ _ => rfl,
    Manifest.bind_eq_of_matches matched' _ fun _ _ => rfl]
  cases main : ((ofTree tree).manifestIn p).bind (·.main) with
  | none => exact .pure .none
  | some text =>
      obtain ⟨manifest, isManifest, isMain⟩ := Option.bind_eq_some_iff.mp main
      have keeps := keepsMain manifest text isManifest isMain
      obtain ⟨inner, proper, spelled⟩ := keeps.normalize stays.toRooted
      refine .bind (normalized_parallel _ _) ?_
      rintro _ _ ⟨rfl, rfl⟩
      rw [spelled site d.current here.proper, spelled site' d'.current there.proper]
      have staysInner := stays_of_proper project.links proper
      exact orElse_parallel (file_parallel project named here there staysInner)
        (index_parallel project named here there staysInner)

theorem directoryFile_parallel (stays : Stays tree p) (keepsMain : KeepsMain tree p) :
    Parallel d d' limit limit' (Found tree site site')
      (Resolution.directoryFile extensions (p.mounted site))
      (Resolution.directoryFile extensions (p.mounted site')) := by
  have same : d.isDirectory (p.mounted site) = d'.isDirectory (p.mounted site') := by
    rw [here.isDirectory_mounted stays, there.isDirectory_mounted stays]
  refine .andThen (.test same) fun isDirectory => ?_
  cases isDirectory with
  | false => exact .pure .none
  | true =>
      exact orElse_parallel (mainFile_parallel project named here there stays keepsMain)
        (index_parallel project named here there stays)

theorem pathFile_parallel (stays : Stays tree p) (keepsMain : KeepsMain tree p) :
    Parallel d d' limit limit' (Found tree site site')
      (Resolution.pathFile extensions (p.mounted site))
      (Resolution.pathFile extensions (p.mounted site')) :=
  orElse_parallel (file_parallel project named here there stays)
    (directoryFile_parallel project named here there stays keepsMain)

end Checkouts

end Relocation

end FunctionArchive
