import FunctionArchive.Graph.Build
import FunctionArchive.Proofs.Graph.Exactness
import FunctionArchive.Proofs.Resolution.Steady

/-!
# Building a closure does not depend on what is known

Whatever two runs have learnt about manifests before, they build the same closure for a script
(`build_alike`), but for the warnings that name the manifest by which a missing package is
tolerated: these may spell it in different ways (`Graph.Respells`). The proof follows the traversal:
what is found by one job (`perform_alike`), what the findings add (`Traversal.Respells.addAll`), all
jobs (`drain_alike`), and the files of the packages (`addPackages_alike`).
-/

set_option autoImplicit false

namespace FunctionArchive

open Query (Steady Alike SameOutcome)

/-! ## Rules -/

namespace Query.Alike

variable {α β γ δ ι : Type} {d : Disk}

/-- Outcomes are alike of questions that are. -/
theorem observe {related : α → β → Prop} {q : Query α} {q' : Query β}
    (alike : Alike related d q q') :
    Alike (SameOutcome related) d (observing q) (observing q') := by
  intro known known' faithful faithful' sameBoundary
  obtain ⟨outcome, learns, learns', boundary, boundary'⟩ := alike faithful faithful' sameBoundary
  rw [run_observing, run_observing]
  exact ⟨.ok outcome, learns, learns', boundary, boundary'⟩

/-- Going through some items, each of which keeps two results alike. -/
theorem foldlM {related : β → γ → Prop} {g : β → ι → Query β} {g' : γ → ι → Query γ}
    (items : List ι) (each : ∀ b c, related b c → ∀ item ∈ items,
      Alike related d (g b item) (g' c item)) {b : β} {c : γ} (start : related b c) :
    Alike related d (items.foldlM g b) (items.foldlM g' c) := by
  induction items generalizing b c with
  | nil => exact .pure start
  | cons item rest ih =>
      rw [List.foldlM_cons, List.foldlM_cons]
      refine .bind (each b c start item List.mem_cons_self) fun b' c' values => ?_
      exact ih (fun b c values other member =>
        each b c values other (List.mem_cons_of_mem _ member))
        values

end Query.Alike

/-! ## Other spellings -/

/-- The same warning, which may spell the manifest that it names in another way. -/
inductive Warning.Respells : Warning → Warning → Prop
  | same (warning : Warning) : Respells warning warning
  | optionalMissing (reference : String) (requirer : Path) {reason reason' : Tolerance}
      (respells : reason.Respells reason') :
      Respells (.optionalMissing reference requirer reason)
        (.optionalMissing reference requirer reason')

/-- The same finding, or a warning that is spelled in another way. -/
inductive GraphFinding.Respells : GraphFinding → GraphFinding → Prop
  | same (finding : GraphFinding) : Respells finding finding
  | noted {warning warning' : Warning} (respells : warning.Respells warning') :
      Respells (.noted warning) (.noted warning')

/-- The same closure with warnings that may be spelled in another way. -/
inductive Graph.Respells (g : Graph) : Graph → Prop
  | intro {warnings : List Warning}
    (respelled : List.Forall₂ Warning.Respells g.warnings warnings) :
      Respells g { g with warnings }

/-- Traversals that have come equally far, with warnings that may be spelled in another way. -/
inductive Traversal.Respells (t : Traversal) : Traversal → Prop
  | intro {graph : Graph} (respelled : t.graph.Respells graph) : Respells t { t with graph }

theorem Warning.respells_refl (warnings : List Warning) :
    List.Forall₂ Warning.Respells warnings warnings :=
  List.forall₂_same.mpr fun warning _ => .same warning

theorem Graph.Respells.refl (g : Graph) : g.Respells g := .intro (Warning.respells_refl _)

theorem Traversal.Respells.refl (t : Traversal) : t.Respells t := .intro (.refl _)

theorem GraphFinding.respells_refl (findings : List GraphFinding) :
    List.Forall₂ GraphFinding.Respells findings findings :=
  List.forall₂_same.mpr fun finding _ => .same finding

/-! ## What findings add -/

namespace Traversal.Respells

variable {t t' : Traversal}

theorem meetFile (respells : t.Respells t') (file : Path) :
    (t.meetFile file).Respells (t'.meetFile file) := by
  obtain ⟨graph⟩ := respells
  unfold Traversal.meetFile
  split
  · exact .intro graph
  · exact .intro graph

theorem meetPackage (respells : t.Respells t') (package : EnteredPackage) :
    (t.meetPackage package).Respells (t'.meetPackage package) := by
  obtain ⟨⟨warnings⟩⟩ := respells
  unfold Traversal.meetPackage
  split
  · exact .intro (.intro warnings)
  · exact .intro (.intro warnings)

theorem add (respells : t.Respells t') {finding finding' : GraphFinding}
    (alike : finding.Respells finding') : (t.add finding).Respells (t'.add finding') := by
  obtain ⟨⟨warnings⟩⟩ := respells
  cases alike with
  | noted respelled =>
      exact .intro (.intro (List.rel_append warnings (.cons respelled .nil)))
  | same =>
      cases finding with
      | visited file references dynamic => exact .intro (.intro warnings)
      | leftOut package => exact .intro (.intro warnings)
      | noted warning =>
          exact .intro (.intro (List.rel_append warnings (Warning.respells_refl [warning])))
      | reached file package links =>
          cases package with
          | none =>
              exact meetFile (t := t.record fun g => { g with links := g.links ++ links })
                (.intro (.intro warnings)) file
          | some package =>
              exact meetFile
                (meetPackage (t := t.record fun g => { g with links := g.links ++ links })
                (.intro (.intro warnings)) package) file

theorem addAll (respells : t.Respells t') {findings findings' : List GraphFinding}
    (alike : List.Forall₂ GraphFinding.Respells findings findings') :
    (t.addAll findings).Respells (t'.addAll findings') := by
  induction alike generalizing t t' with
  | nil => exact respells
  | cons first _ ih => exact ih (respells.add first)

/-- The next job is the same. -/
theorem next? (respells : t.Respells t') :
    Option.Rel (fun taken taken' => taken.1 = taken'.1 ∧
      taken.2.Respells taken'.2) t.next? t'.next? := by
  obtain ⟨graph⟩ := respells
  cases files : t.files with
  | cons file rest =>
      simp only [Traversal.next?, files]
      exact .some ⟨rfl, .intro graph⟩
  | nil =>
      cases declared : t.declared with
      | cons dependency rest =>
          simp only [Traversal.next?, files, declared]
          exact .some ⟨rfl, .intro graph⟩
      | nil =>
          simp only [Traversal.next?, files, declared]
          exact .none

end Traversal.Respells

/-! ## Jobs -/

namespace GraphPolicy

variable (policy : GraphPolicy) (d : Disk)

theorem enter_steady (root : Path) : Steady d (enter root) := by
  refine .andLoad (fun m m' related => ?_) fun m => .pure rfl
  cases related with
  | none => rfl
  | some matched =>
      rw [matched]
      rfl

theorem follow_alike (reference : String) (requirer : Path) (declared : Bool) :
    Alike (List.Forall₂ GraphFinding.Respells) d (policy.follow reference requirer declared)
      (policy.follow reference requirer declared) := by
  unfold follow
  split
  · exact .pure .nil
  refine .ite (.pure (GraphFinding.respells_refl _)) (.ite (.pure .nil) ?_)
  refine .bind (Resolution.resolve_alike d policy.extensions reference requirer).observe ?_
  intro outcome outcome' related
  cases related with
  | error fault =>
      cases fault with
      | missingDependency name origin =>
          exact .ite (.pure (GraphFinding.respells_refl _)) (.throw _)
      | _ => exact .throw _
  | ok values =>
      cases values with
      | tolerated reason reason' respells =>
          exact .pure (.cons (.noted (.optionalMissing _ _ respells)) .nil)
      | same =>
          rename_i resolution
          cases resolution with
          | builtin => exact .pure .nil
          | optional reason => exact .pure (GraphFinding.respells_refl _)
          | resolved path package links =>
              cases package with
              | none => exact .pure (GraphFinding.respells_refl _)
              | some root =>
                  exact .andThen (enter_steady d root) fun _ => .pure (GraphFinding.respells_refl _)

theorem followFound_alike (file : Path) (found : Script.Reference) :
    Alike (List.Forall₂ GraphFinding.Respells) d (policy.followFound file found)
      (policy.followFound file found) := by
  cases found with
  | static reference => exact policy.follow_alike d reference file false
  | dynamic expression => exact .pure (GraphFinding.respells_refl _)

theorem flatten_respells {findings findings' : List (List GraphFinding)}
    (alike : List.Forall₂ (List.Forall₂ GraphFinding.Respells) findings findings') :
    List.Forall₂ GraphFinding.Respells findings.flatten findings'.flatten := by
  induction alike with
  | nil => exact .nil
  | cons first _ ih => exact List.rel_append first ih

theorem visit_alike (file : Path) :
    Alike (List.Forall₂ GraphFinding.Respells) d (policy.visit file) (policy.visit file) := by
  unfold visit
  split
  · exact .pure (GraphFinding.respells_refl _)
  refine .andThen (.ask _) fun bytes => ?_
  split
  · next scan scanned =>
    refine .bind (.mapM _ fun found _ => policy.followFound_alike d file found) ?_
    intro found found' related
    exact .pure (List.rel_append (List.rel_append (GraphFinding.respells_refl _)
      (flatten_respells related)) (GraphFinding.respells_refl _))
  · exact .ite (.pure (GraphFinding.respells_refl _)) (.throw _)
  · exact .throw _

end GraphPolicy

namespace Traversal

variable (policy : GraphPolicy) (d : Disk)

theorem perform_alike (job : GraphJob) :
    Alike (List.Forall₂ GraphFinding.Respells) d (perform policy job) (perform policy job) := by
  cases job with
  | file path => exact policy.visit_alike d path
  | declared package manifest => exact policy.follow_alike d package manifest true

theorem drain_alike {t t' : Traversal} (respells : t.Respells t') :
    Alike Respells d (drain policy t) (drain policy t') := by
  fun_induction Traversal.drain policy t generalizing t' with
  | case1 t done =>
      have related := respells.next?
      rw [done] at related
      rw [drain.eq_def policy t']
      split
      · exact .pure respells
      · next job rest taken =>
        rw [taken] at related
        cases related
  | case2 t job rest next ih =>
      have related := respells.next?
      rw [next] at related
      rw [drain.eq_def policy t']
      split
      · next done =>
        rw [done] at related
        cases related
      · next job' rest' taken =>
        rw [taken] at related
        cases related with
        | some sameTaken =>
            obtain ⟨sameJob, sameRest⟩ := sameTaken
            cases sameJob
            exact .bind (perform_alike policy d job) fun findings findings' alike =>
              ih findings (sameRest.addAll alike)

end Traversal

/-! ## Closures -/

namespace Graph.Respells

variable {g g' : Graph}

theorem insert (respells : g.Respells g') (path : Path) :
    (g.insert path).Respells (g'.insert path) := by
  obtain ⟨warnings⟩ := respells
  show (if g.contains path then g else { g with nodes :=
    g.nodes ++ [⟨path, false, [], false⟩] }).Respells
    (if g.contains path then _ else _)
  split
  · exact .intro warnings
  · exact .intro warnings

theorem foldl_insert (respells : g.Respells g') (paths : List Path) :
    (paths.foldl Graph.insert g).Respells (paths.foldl Graph.insert g') := by
  induction paths generalizing g g' with
  | nil => exact respells
  | cons path rest ih => exact ih (respells.insert path)

theorem sorted (respells : g.Respells g') : g.sorted.Respells g'.sorted := by
  obtain ⟨warnings⟩ := respells
  exact .intro warnings

theorem markEntry (respells : g.Respells g') : g.markEntry.Respells g'.markEntry := by
  obtain ⟨warnings⟩ := respells
  exact .intro warnings

theorem packages (respells : g.Respells g') : g'.packages = g.packages := by
  obtain ⟨warnings⟩ := respells
  rfl

end Graph.Respells

namespace GraphPolicy

variable (policy : GraphPolicy) (d : Disk) {g g' : Graph}

theorem addBeside_alike (root : Path) (beside : String) (respells : g.Respells g') :
    Alike Graph.Respells d (policy.addBeside root g beside) (policy.addBeside root g' beside) := by
  refine .andThen (Resolution.normalized_steady d _) fun directory => ?_
  refine .andThen (.test _) fun isDirectory => ?_
  cases isDirectory with
  | false => exact .pure respells
  | true => exact .andThen (.ask _) fun files => .pure (respells.foldl_insert files)

theorem addPackage_alike (root : Path) (respells : g.Respells g') :
    Alike Graph.Respells d (policy.addPackage g root) (policy.addPackage g' root) := by
  refine .bind (Manifests.load_alike d root) fun m m' related => ?_
  have name : m.bind (·.name) = m'.bind (·.name) :=
    Manifest.bind_eq_of_matches (Manifest.Respells.rel_matches related) _ fun _ _ => rfl
  have version : m.bind (·.version) = m'.bind (·.version) :=
    Manifest.bind_eq_of_matches (Manifest.Respells.rel_matches related) _ fun _ _ => rfl
  dsimp only
  rw [name, version]
  refine .andThen (.ask _) fun exclusion => .andThen (.ask _) fun files => ?_
  exact .foldlM _ (fun g g' respells beside _ => policy.addBeside_alike d root beside respells)
    (respells.foldl_insert files)

theorem addPackages_alike (respells : g.Respells g') :
    Alike Graph.Respells d (policy.addPackages g) (policy.addPackages g') := by
  unfold addPackages
  rw [respells.packages]
  exact .foldlM _ (fun g g' respells root _ => policy.addPackage_alike d root respells) respells

theorem finish_alike {t t' : Traversal} (respells : t.Respells t') :
    Alike Graph.Respells d (policy.finish t) (policy.finish t') := by
  refine .bind (Traversal.drain_alike policy d respells) ?_
  rintro last _ ⟨graph⟩
  exact .bind (policy.addPackages_alike d graph) fun g g' respells => .pure respells.sorted

end GraphPolicy

namespace Graph

/-- The closure of a script is the same whatever is known about manifests. -/
theorem build_alike (policy : GraphPolicy) (d : Disk) (entry : Path) :
    Alike Respells d (build policy entry) (build policy entry) := by
  refine .andThen (Resolution.realPath_steady d entry) fun real => .andThen .read fun disk => ?_
  exact .bind (policy.finish_alike d (.refl _)) fun g g' respells => .pure respells.markEntry

/-- So is the closure of some packages. -/
theorem buildPackages_alike (policy : GraphPolicy) (d : Disk) (packages : List String)
    (requirer : Path) :
    Alike Respells d (buildPackages policy packages requirer)
      (buildPackages policy packages requirer) := by
  refine .andThen (Resolution.realPath_steady d requirer) fun real => ?_
  refine .bind (.mapM _ fun package _ => policy.follow_alike d package real false) ?_
  intro found found' related
  refine .andThen .read fun disk => policy.finish_alike d ?_
  exact (Traversal.Respells.refl _).addAll (GraphPolicy.flatten_respells related)

end Graph

end FunctionArchive
