import FunctionArchive.Proofs.Consistency
import FunctionArchive.Proofs.Entries
import FunctionArchive.Proofs.Layout

/-!
# Links in an archive

A link entry stands in the archive where the link stands on the disk, and leads from there where the
link leads on the disk (`make_links`): home, to the name in the archive of what the link leads to,
if that lies in the directory from which the archive starts. That directory is chosen so as to hold
the files and the links of the archive; nothing is said of what the links lead to. The text of a
link to its own directory is empty (`make_ownDirectory`).
-/

set_option autoImplicit false

namespace FunctionArchive

open Path (Plain Proper)
open Layout (archiveName linkTarget wayTo)

/-- A link entry of an archive that starts at `base`, named by these names, stands for the link of
the disk at these names below `base` and leads from there to the same target. -/
structure OutputFile.Rebuilds (e : OutputFile) (d : Disk) (base : Path) (text : String)
    (names : List String) (target : Path) : Prop where
  proper : Proper names
  named : e.name = "/".intercalate names
  stands : ∃ onDisk, d.root.at? (base.names ++ names) = some (.link onDisk)
  leads : d.realPath (.ofNames (base.names ++ names)) = .ok target
  /-- The text is empty for a link to its own directory, and for no other. -/
  blank : text = "" ↔ target = .ofNames (base.names ++ names.dropLast)
  /-- The text leads to the name of the target if the target lies below the base. -/
  home : base.names <+: target.names →
    ∃ inner, Path.descend? names.dropLast (Path.split text.toList) = some inner ∧
      archiveName target base = "/".intercalate inner
  /-- Otherwise the text leads out of the archive. -/
  astray : ¬ base.names <+: target.names →
    Path.descend? names.dropLast (Path.split text.toList) = none

/-- The entry of a link of a closure. -/
theorem Graph.mem_outputs_of_link {g : Graph} {link : Link} (member : link ∈ g.links)
    (base : Path) :
    ⟨archiveName link.path base, .link (linkTarget link.target link.path), none⟩ ∈ g.outputs base :=
  List.mem_append_right _ (List.mem_map.mpr ⟨link, member, rfl⟩)

namespace Bundle

variable {s : Settings} {f : FunctionSource} {d : Disk} {b : Bundle} {base : Path}

/-- A link below the base of an archive is rebuilt by its entry. -/
theorem rebuilds_of_link (tree : d.IsTree) (isBase : base = ⟨false, []⟩ ∨ base.Plain)
    (straight : d.Straight base.names) {link : Link} (holds : d.HoldsLink link)
    (inside : base.names <+: link.path.names) {e : OutputFile}
    (named : e.name = archiveName link.path base) :
    ∃ names, e.Rebuilds d base (linkTarget link.target link.path) names link.target := by
  obtain ⟨names, split⟩ := inside
  obtain ⟨onDisk, there⟩ := holds.there
  have path : link.path = .ofNames (base.names ++ names) := by
    rw [split]
    exact holds.plain.eq_ofNames
  have plain : link.target.Plain := by
    obtain ⟨isReal, way⟩ := tree.straight_of_realPath holds.leads
    rw [isReal]
    exact Path.plain_ofNames.mpr way.proper
  have proper : Proper (base.names ++ names) := split ▸ holds.plain.proper
  have properNames := (Path.proper_append.mp proper).2
  rw [← split] at there
  -- The base is no link, so the link stands below it.
  have some : names ≠ [] := by
    rintro rfl
    rw [List.append_nil] at there
    exact straight.noLink _ List.prefix_rfl onDisk there
  obtain ⟨inner, last, rfl⟩ : ∃ inner last, names = inner ++ [last] :=
    ⟨_, _, (List.dropLast_append_getLast some).symm⟩
  rw [← List.append_assoc] at proper
  have text : linkTarget link.target link.path =
      "/".intercalate (wayTo link.target.names (base.names ++ inner)) := by
    rw [path, ← List.append_assoc]
    exact Layout.linkTarget_eq plain proper
  have noSlash : ∀ name ∈ wayTo link.target.names (base.names ++ inner), '/' ∉ name.toList :=
    fun name member => (Layout.isPart_wayTo plain.proper name member).2
  have arrives : Path.descend? inner (wayTo link.target.names (base.names ++ inner)) =
      if base.names <+: link.target.names then .some (link.target.names.drop base.names.length)
      else none := Layout.descend?_wayTo plain.proper
  have front : (inner ++ [last]).dropLast = inner := List.dropLast_concat
  refine ⟨inner ++ [last], properNames, ?_, ⟨onDisk, there⟩, path ▸ holds.leads, ?_, ?_, ?_⟩
  · rw [named, Layout.archiveName_eq holds.plain isBase ⟨_, split⟩, ← split, List.drop_left]
  · rw [text, Layout.text_wayTo_eq_empty_iff plain.proper, front]
    refine ⟨fun same => ?_, fun same => ?_⟩
    · rw [← same]
      exact plain.eq_ofNames
    · rw [same]
      rfl
  · intro within
    refine ⟨link.target.names.drop base.names.length, ?_, Layout.archiveName_eq plain isBase within⟩
    rw [front, text, Path.descend?_text noSlash, arrives, if_pos within]
  · intro without
    rw [front, text, Path.descend?_text noSlash, arrives, if_neg without]

theorem plain_places {g : Graph} (standing : g.Standing d) : ∀ p ∈ g.places, p.Plain := by
  refine List.forall_mem_append.mpr ⟨standing.plain, fun p member => ?_⟩
  obtain ⟨link, among, rfl⟩ := List.mem_map.mp member
  exact (standing.holds link among).plain

/-- The links among the entries of a closure are rebuilt. -/
theorem rebuilds_of_outputs (tree : d.IsTree) {g : Graph} (standing : g.Standing d)
    (isBase : base = ⟨false, []⟩ ∨ base.Plain) (straight : d.Straight base.names)
    (inside : ∀ p ∈ g.places, base.names <+: p.names) {e : OutputFile}
    (member : e ∈ g.outputs base) {text : String} (isLink : e.source = .link text) :
    ∃ names target, e.Rebuilds d base text names target := by
  rcases List.mem_append.mp member with isFile | ofLink
  · obtain ⟨p, -, rfl⟩ := List.mem_map.mp isFile
    cases isLink
  · obtain ⟨link, among, rfl⟩ := List.mem_map.mp ofLink
    cases isLink
    have place : link.path ∈ g.places :=
      List.mem_append_right _ (List.mem_map_of_mem among)
    obtain ⟨names, rebuilds⟩ := rebuilds_of_link
      (e := ⟨archiveName link.path base, .link (linkTarget link.target link.path), none⟩)
      tree isBase straight (standing.holds link among) (inside _ place) rfl
    exact ⟨names, link.target, rebuilds⟩

/-- What an engine makes of a real script belongs into the directory of the script. -/
theorem script_of_straight {names : List String} (proper : Proper names) :
    ((Path.ofNames names).withExtension "js").Plain ∧
      ((Path.ofNames names).withExtension "js").names.dropLast <+: names := by
  rcases List.eq_nil_or_concat names with rfl | ⟨front, last, rfl⟩
  · have root : (Path.ofNames []).withExtension "js" = .root := by decide
    rw [root]
    exact ⟨⟨rfl, proper⟩, List.nil_prefix⟩
  · rw [List.concat_eq_append] at proper ⊢
    obtain ⟨above, isName⟩ := Path.proper_append.mp proper
    rw [proper.withExtension]
    refine ⟨Path.plain_ofNames.mpr (Path.proper_append.mpr ⟨above, ?_⟩), ?_⟩
    · exact Path.proper_singleton.mpr (Path.proper_singleton.mp isName).withExtension
    · rw [Path.ofNames, List.dropLast_concat]
      exact List.prefix_append front [last]

/-- Every link entry of a bundle is rebuilt. -/
theorem Laid.rebuilds (tree : d.IsTree) (laid : Laid d f b) {e : OutputFile} (member : e ∈ b.files)
    {text : String} (isLink : e.source = .link text) :
    ∃ names target, e.Rebuilds d b.base text names target := by
  cases laid with
  | single files =>
      rw [files] at member
      cases List.mem_singleton.mp member
      cases isLink
  | @graph g start standing starts isReal base files =>
      have plain := plain_places standing
      obtain ⟨isBase, inside⟩ := Layout.baseOf_cases plain
      obtain ⟨path, found⟩ := isReal
      have straight := (tree.straight_of_realPath found).2
      have place : start ∈ g.places := List.mem_append_left _ starts
      rw [files] at member
      rw [base]
      exact rebuilds_of_outputs tree standing isBase
        (straight.of_prefix (inside start place)) inside
        member isLink
  | @engine entry bundled warnings packages byEngine found standing base files =>
      rw [files] at member
      rcases List.mem_cons.mp member with rfl | ofPackages
      · cases isLink
      · cases packages with
        | none => cases ofPackages
        | some g =>
            obtain ⟨isReal, straight⟩ := tree.straight_of_realPath found
            obtain ⟨scriptPlain, above⟩ := script_of_straight straight.proper
            rw [← isReal] at scriptPlain above
            have plain : ∀ p ∈ entry.withExtension "js" :: g.places, p.Plain :=
              List.forall_mem_cons.mpr ⟨scriptPlain, plain_places (standing g rfl)⟩
            obtain ⟨isBase, inside⟩ := Layout.baseOf_cases plain
            have below := (Layout.baseOf_prefix_parent plain).trans above
            rw [base]
            exact rebuilds_of_outputs tree (standing g rfl) isBase (straight.of_prefix below)
              (fun p among => inside p (List.mem_cons_of_mem _ among)) ofPackages isLink

/-- Every link entry of a bundle is named after a link of the disk and leads where this link leads:
from its place in the archive to the name of the target, if the target lies in the directory from
which the archive starts, and out of the archive if it does not. Its text is empty exactly when the
link leads to its own directory. Engines and disks are taken to be as for `make_consistent`. -/
theorem make_links {w w' : World} (contained : s.engine.Contained)
    (reports : s.engine.ReportsDirect) (below : w.disk.StaysBelow s.extensions)
    (faithful : w.manifests.Faithful w.disk) (made : (make s f).run w = (.ok b, w')) :
    ∀ e ∈ b.files, ∀ text, e.source = .link text →
      ∃ names target, e.Rebuilds w.disk b.base text names target := by
  have ended := make_laid (f := f) contained reports below w ⟨rfl, faithful, rfl⟩
  rw [made] at ended
  exact fun e member text isLink => (ended.well b rfl).2.rebuilds below.tree member isLink

section Example

open Sample (app appSource leaf policy package index)

theorem make_links_linkedPackage : ∃ b w' e text names target,
    (make dataSettings graphFunction).run linkedPackage = (.ok b, w') ∧
      linkedPackage.disk.StaysBelow [".json"] ∧ e ∈ b.files ∧ e.source = .link text ∧
      e.Rebuilds linkedPackage.disk b.base text names target := by
  obtain ⟨g, known, built, closed⟩ := build_linkedPackage
  obtain ⟨w', made⟩ := make_onePackage built
  obtain ⟨asked, follows⟩ := Sample.onePackage_leads read_linkedPackage resolve_linkedPackage
  have link : ⟨package "p", storedPackage⟩ ∈ g.links :=
    (closed.links _).mpr ⟨_, _, _, _, asked, follows, List.mem_singleton_self _⟩
  have member := Graph.mem_outputs_of_link link (ofGraph .script g).base
  obtain ⟨names, target, rebuilds⟩ := make_links (s := dataSettings) Packing.contained_idleEngine
    reportsDirect_idleEngine staysBelow_linkedPackage (Manifests.faithful_empty none _) made _
    member _ rfl
  exact ⟨_, w', _, _, names, target, made, staysBelow_linkedPackage, member, rfl, rebuilds⟩

/-- A directory of packages that is a link to the directory in which it stands. -/
def ownDirectory : World := besideApp
  [("node_modules", .link "."), ("p", .directory [("index.json", leaf [])])]

theorem resolve_ownDirectory :
    (Resolution.resolve [".json"] "p" app).answer ownDirectory.disk none =
    .ok (.resolved (.ofNames ["p", "index.json"]) (some (.ofNames ["p"]))
      [⟨.ofNames ["node_modules"], .root⟩]) := by
  apply Sample.onePackage_resolve <;> cbv

/-- A link to its own directory is shipped with an empty text. -/
theorem make_ownDirectory : ∃ b w' e,
    (make dataSettings graphFunction).run ownDirectory = (.ok b, w') ∧ b.strategy = .graph ∧
      e ∈ b.files ∧ e.source = .link "" := by
  have read : ownDirectory.disk.read app = .ok appSource := by cbv
  have missing : ownDirectory.disk.read ((Path.ofNames ["p"]).child Manifest.fileName) =
      .error .notFound := by cbv
  have noManifest : Manifests.fetch ownDirectory.disk
      ((Path.ofNames ["p"]).child Manifest.fileName) =
      .ok none := by rw [Manifests.fetch, missing]
  have below : ownDirectory.disk.filesBelow (· == Resolution.packagesName) (.ofNames ["p"]) =
      .ok [["index.json"]] := by cbv
  obtain ⟨g, known, built, closed⟩ := Sample.onePackage_built read resolve_ownDirectory (by decide)
    noManifest (by cbv) below
  obtain ⟨w', made⟩ := make_onePackage built
  obtain ⟨asked, follows⟩ := Sample.onePackage_leads read resolve_ownDirectory
  have link : ⟨.ofNames ["node_modules"], .root⟩ ∈ g.links :=
    (closed.links _).mpr ⟨_, _, _, _, asked, follows, List.mem_singleton_self _⟩
  have blank : linkTarget .root (.ofNames ["node_modules"]) = "" := by decide
  exact ⟨_, w', _, made, rfl, Graph.mem_outputs_of_link link _, congrArg Source.link blank⟩

end Example

end Bundle

end FunctionArchive
