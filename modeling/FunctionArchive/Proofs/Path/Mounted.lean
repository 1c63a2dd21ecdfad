import FunctionArchive.Proofs.Path.Plain
import FunctionArchive.Proofs.Sorted
import Mathlib.Data.List.Find

/-!
# Paths below a site

The same names can be followed from the root or from the site at which a tree stands; the path of a
tree is then spelled with the names of the site in front (`Path.mounted`). What a path tells about
other paths of the tree does not depend on the site: which of them lie within which
(`isWithin_mounted`), which come first (`precedes_mounted`), and where a text leads that does not
lead above the tree (`normalize_child_mounted`). Only the directories above a path go on above the
site (`ancestors_mounted`).
-/

set_option autoImplicit false

namespace FunctionArchive.Path

variable {site names : List String} {p q : Path} {text : String}

/-- A path of a tree, as it is spelled when the tree stands at `site`. -/
def mounted (site : List String) (p : Path) : Path := ofNames (site ++ p.names)

theorem mounted_ofNames (site names : List String) :
    (ofNames names).mounted site = ofNames (site ++ names) := rfl

theorem eq_ofNames (absolute : p.absolute = true) : p = ofNames p.names := by
  obtain ⟨_, names⟩ := p
  cases absolute
  rfl

theorem mounted_inj (absolute : p.absolute = true) (absolute' : q.absolute = true) :
    p.mounted site = q.mounted site ↔ p = q := by
  rw [eq_ofNames absolute, eq_ofNames absolute']
  simp [mounted, ofNames]

theorem beq_mounted (absolute : p.absolute = true) (absolute' : q.absolute = true) :
    (p.mounted site == q.mounted site) = (p == q) := by
  rw [Bool.eq_iff_iff, beq_iff_eq, beq_iff_eq, mounted_inj absolute absolute']

/-- The plain path of something other than the root. -/
def IsEntry (p : Path) : Prop :=
  ∃ front name, Proper (front ++ [name]) ∧ p = ofNames (front ++ [name])

theorem IsEntry.absolute (isEntry : p.IsEntry) : p.absolute = true := by
  obtain ⟨front, name, -, rfl⟩ := isEntry
  rfl

theorem isEntry_ofNames (proper : Proper names) (some : names ≠ []) : (ofNames names).IsEntry := by
  obtain ⟨front, name, split⟩ := (List.eq_nil_or_concat names).resolve_left some
  rw [List.concat_eq_append] at split
  exact ⟨front, name, split ▸ proper, by rw [split]⟩

/-! ## Components -/

theorem components_mounted (proper : Proper site) (absolute : p.absolute = true) :
    (p.mounted site).components = site ++ p.components := by
  rw [mounted, components_ofNames, List.filter_append, proper.filter_eq,
    components_of_absolute absolute]

theorem relativeTo?_mounted (proper : Proper site) (absolute : p.absolute = true)
    (absolute' : q.absolute = true) :
    (p.mounted site).relativeTo? (q.mounted site) = p.relativeTo? q := by
  unfold relativeTo?
  rw [components_mounted proper absolute, components_mounted proper absolute', absolute, absolute']
  have past (drop : Nat) : site.drop (site.length + drop) = [] :=
    List.drop_eq_nil_of_le (Nat.le_add_right _ _)
  simp [mounted, ofNames, List.drop_append, past]

theorem isWithin_mounted (proper : Proper site) (absolute : p.absolute = true)
    (absolute' : q.absolute = true) : (p.mounted site).isWithin (q.mounted site) =
      p.isWithin q := by
  rw [isWithin, relativeTo?_mounted proper absolute absolute', isWithin]

/-! ## The directories above -/

theorem Proper.mounted (proper : Proper site) (proper' : Proper names) : Proper (site ++ names) :=
  proper_append.mpr ⟨proper, proper'⟩

theorem parent?_mounted (proper : Proper site) {front : List String} {name : String}
    (proper' : Proper (front ++ [name])) :
    ((ofNames (front ++ [name])).mounted site).parent? = some ((ofNames front).mounted site) := by
  have whole : Proper (site ++ front ++ [name]) := by
    rw [List.append_assoc]
    exact proper.mounted proper'
  rw [mounted_ofNames, ← List.append_assoc, whole.parent?_concat]
  rfl

/-- The directories above a path of a tree are those in the tree and those above the site. -/
theorem ancestors_mounted (proper : Proper site) (proper' : Proper names) :
    ((ofNames names).mounted site).ancestors =
      (ofNames names).ancestors.map (mounted site) ++ (ofNames site).ancestors.tail := by
  induction names using List.reverseRecOn with
  | nil =>
      rw [mounted_ofNames, List.append_nil, ancestors_root, ancestors]
      simp [mounted, ofNames]
  | append_singleton front name ih =>
      have whole : Proper (site ++ front ++ [name]) := by
        rw [List.append_assoc]
        exact proper.mounted proper'
      have further := ih (proper'.of_prefix (List.prefix_append _ _))
      rw [mounted_ofNames] at further
      rw [mounted_ofNames, ← List.append_assoc, whole.ancestors_concat, proper'.ancestors_concat,
        further, List.map_cons, mounted_ofNames, List.append_assoc, List.cons_append]

/-! ## What lies within what -/

theorem isWithin_ofNames (proper : Proper names) (absolute : p.absolute = true) :
    p.isWithin (ofNames names) = true ↔ names <+: p.components := by
  rw [isWithin_iff, proper.components_eq, absolute]
  simp [ofNames]

theorem relativeTo?_ofNames (proper : Proper names) (absolute : p.absolute = true)
    {rest : List String} (below : names ++ rest = p.components) :
    p.relativeTo? (ofNames names) = some rest := by
  unfold relativeTo?
  rw [proper.components_eq, absolute, ← below]
  simp [ofNames]

/-- The nearest directory in which a path of the tree lies is the same wherever the tree stands. -/
theorem find?_isWithin_mounted (proper : Proper names) (absolute : p.absolute = true) :
    ∃ above, above <+: names ∧ above <+: p.components ∧ ∀ site, Proper site →
      ((ofNames names).mounted site).ancestors.find? (p.mounted site).isWithin =
        some ((ofNames above).mounted site) := by
  have isRoot : ofNames [] ∈ (ofNames names).ancestors :=
    (proper.mem_ancestors _).mpr ⟨[], List.nil_prefix, rfl⟩
  have within : p.isWithin (ofNames []) = true :=
    (isWithin_ofNames proper_nil absolute).mpr List.nil_prefix
  obtain ⟨base, shared⟩ := Option.isSome_iff_exists.mp (List.find?_isSome.mpr ⟨_, isRoot, within⟩)
  obtain ⟨above, inFront, rfl⟩ := (proper.mem_ancestors _).mp (List.mem_of_find?_eq_some shared)
  refine ⟨above, inFront, (isWithin_ofNames (proper.of_prefix inFront) absolute).mp
    (List.find?_some shared), fun site properSite => ?_⟩
  have alike : (ofNames names).ancestors.find? ((p.mounted site).isWithin ∘ mounted site) =
      (ofNames names).ancestors.find? p.isWithin := by
    refine List.find?_congr fun directory isAbove => ?_
    obtain ⟨front, -, rfl⟩ := (proper.mem_ancestors directory).mp isAbove
    exact isWithin_mounted properSite absolute rfl
  rw [ancestors_mounted properSite proper, List.find?_append, List.find?_map, alike, shared]
  rfl

/-! ## Order -/

theorem compare_append (front : List String) (names names' : List String) :
    compare (front ++ names) (front ++ names') = compare names names' := by
  induction front with
  | nil => rfl
  | cons first rest ih =>
      have step : compare (first :: (rest ++ names)) (first :: (rest ++ names')) =
          (compare first first).then (compare (rest ++ names) (rest ++ names')) :=
        List.compareLex_cons_cons
      rw [List.cons_append, List.cons_append, step, Std.compare_self, ih, Ordering.eq_then]

theorem compare_mounted (proper : Proper site) (absolute : p.absolute = true)
    (absolute' : q.absolute = true) : compare (p.mounted site) (q.mounted site) = compare p q := by
  show ((compare true true).then
    (compare (p.mounted site).components (q.mounted site).components)) =
    (compare q.absolute p.absolute).then (compare p.components q.components)
  rw [components_mounted proper absolute, components_mounted proper absolute',
    compare_append, absolute,
    absolute']

theorem precedes_mounted (proper : Proper site) (absolute : p.absolute = true)
    (absolute' : q.absolute = true) : (p.mounted site).precedes (q.mounted site) =
      p.precedes q := by
  rw [precedes, compare_mounted proper absolute absolute', precedes]

/-! ## Children -/

theorem stem_mounted (proper : Proper site) (p : Path) :
    (p.mounted site).stem = site ++ p.stem := by
  rcases List.eq_nil_or_concat p.names with none | ⟨front, last, split⟩
  · have noNames : p.stem = [] := by simp [stem, none]
    rw [mounted, none, noNames, List.append_nil]
    exact proper.stem_eq
  · rw [List.concat_eq_append] at split
    simp only [mounted, stem, ofNames, split, ← List.append_assoc, List.getLast?_concat,
      List.dropLast_concat]
    split
    · rfl
    · rw [List.append_assoc]

/-- A relative path goes on where the directory ends. -/
theorem join_of_relative (p : Path) {q : Path} (relative : q.absolute = false)
    (some : q.names ≠ []) : p.join q = ⟨p.absolute, p.stem ++ q.names⟩ := by
  have notEmpty : q.names.isEmpty = false := by simpa using some
  unfold join stem
  rw [relative, notEmpty]
  cases names : p.names with
  | nil => simp
  | cons first rest => simp

/-- The child that a text with names in it spells. -/
theorem child_of_relative (p : Path) (relative : (ofString text).absolute = false)
    (some : (ofString text).names ≠ []) :
    p.child text = ⟨p.absolute, p.stem ++ (ofString text).names⟩ :=
  join_of_relative p relative some

/-- A text without names adds a separator, but not to the root. -/
theorem child_of_blank (p : Path) (relative : (ofString text).absolute = false)
    (blank : (ofString text).names = []) :
    p.child text = ⟨p.absolute, if p.names.isEmpty then [] else p.stem ++ [""]⟩ := by
  unfold child join stem
  rw [relative, blank]
  cases names : p.names with
  | nil => simp
  | cons first rest => simp

theorem child_mounted (proper : Proper site) (relative : (ofString text).absolute = false)
    (some : p.names ≠ [] ∨ (ofString text).names ≠ []) :
    (p.mounted site).child text = (p.child text).mounted site := by
  by_cases blank : (ofString text).names = []
  · have notRoot : p.names ≠ [] := some.resolve_right (not_not.mpr blank)
    have notEmpty : p.names.isEmpty = false := by simpa using notRoot
    have notEmpty' : (p.mounted site).names.isEmpty = false := by simp [mounted, ofNames, notRoot]
    rw [child_of_blank _ relative blank, child_of_blank _ relative blank, notEmpty, notEmpty',
      stem_mounted proper, mounted]
    simp [mounted, ofNames]
  · rw [child_of_relative _ relative blank, child_of_relative _ relative blank, stem_mounted proper,
      List.append_assoc]
    rfl

theorem child_mounted_name (proper : Proper site) (p : Path) {name : String} (part : IsPart name) :
    (p.mounted site).child name = (p.child name).mounted site := by
  have spelled := ofString_name part
  refine child_mounted proper (by rw [spelled]) (.inr ?_)
  rw [spelled]
  exact List.cons_ne_nil _ _

/-- A separator at the end does not count when nothing but the spelling does. -/
theorem follow_stem (here : List String) (p : Path) : follow here p.stem = follow here p.names := by
  unfold stem
  split
  · rename_i ends
    obtain ⟨front, split⟩ := List.getLast?_eq_some_iff.mp (by simpa using ends)
    have redundant : isRedundant "" = true := by decide
    rw [split, List.dropLast_concat, follow_concat, if_pos redundant]
  · rfl

theorem normalize_child (base : Path) (absolute : p.absolute = true)
    (relative : (ofString text).absolute = false) :
    normalize base (p.child text) = ofNames (follow [] (p.names ++ (ofString text).names)) := by
  have ofRooted (names : List String) :
      normalize base ⟨p.absolute, names⟩ = ofNames (follow [] names) :=
    normalize_of_absolute base _ absolute
  by_cases some : (ofString text).names = []
  · rw [child_of_blank p relative some, ofRooted, some, List.append_nil]
    cases names : p.names with
    | nil => rfl
    | cons first rest =>
        have redundant : isRedundant "" = true := by decide
        simp only [List.isEmpty_cons, Bool.false_eq_true, if_false]
        rw [follow_concat, if_pos redundant, follow_stem, names]
  · rw [child_of_relative p relative some, ofRooted, follow_append, follow_append, follow_stem]

/-- A text that does not lead above the tree leads to the same wherever the tree stands. -/
theorem normalize_child_mounted (proper : Proper site) (base : Path)
    (relative : (ofString text).absolute = false) {inner : List String}
    (stays : descend? [] (p.names ++ (ofString text).names) = some inner) :
    normalize base ((p.mounted site).child text) = (ofNames inner).mounted site := by
  have start : follow [] site = site ++ [] := by
    rw [proper.follow_eq, List.append_nil, List.nil_append]
  rw [normalize_child base rfl relative, mounted, mounted]
  simp only [ofNames, List.append_assoc]
  rw [follow_append, start, follow_of_descend? stays]

/-! ## The last name -/

theorem appendToName_mounted (some : p.names ≠ []) (suffix : String) :
    (p.mounted site).appendToName suffix = (p.appendToName suffix).mounted site := by
  obtain ⟨front, last, split⟩ := (List.eq_nil_or_concat p.names).resolve_left some
  rw [List.concat_eq_append] at split
  simp [mounted, appendToName, ofNames, split]

theorem fileName?_mounted (proper : Proper site) {front : List String} {name : String}
    (proper' : Proper (front ++ [name])) :
    ((ofNames (front ++ [name])).mounted site).fileName? =
    (ofNames (front ++ [name])).fileName? := by
  have whole : Proper (site ++ front ++ [name]) := by
    rw [List.append_assoc]
    exact proper.mounted proper'
  rw [mounted_ofNames, ← List.append_assoc]
  simp only [fileName?, ofNames, proper'.trimEnd_eq, whole.trimEnd_eq, List.getLast?_concat]

/-- A path of the tree has a name that the site does not end with, if it has it where the tree
stands. -/
theorem fileName?_mounted_iff (proper : Proper site) (proper' : Proper names) {name : String}
    (other : site.getLast? ≠ some name) :
    ((ofNames names).mounted site).fileName? = some name ↔
    (ofNames names).fileName? = some name := by
  rcases List.eq_nil_or_concat names with rfl | ⟨front, last, rfl⟩
  · have noName : (ofNames []).fileName? = none := by decide
    have notNamed : (ofNames site).fileName? ≠ some name := fun same => by
      rw [fileName?, ofNames, proper.trimEnd_eq] at same
      exact other (Option.filter_eq_some_iff.mp same).1
    rw [mounted_ofNames, List.append_nil, noName]
    simpa using notNamed
  · rw [List.concat_eq_append] at proper' ⊢
    rw [fileName?_mounted proper proper']

theorem extension?_mounted (proper : Proper site) {front : List String} {name : String}
    (proper' : Proper (front ++ [name])) :
    ((ofNames (front ++ [name])).mounted site).extension? =
    (ofNames (front ++ [name])).extension? := by
  rw [extension?, fileName?_mounted proper proper', extension?]

/-! ## Paths in order -/

theorem sortedPaths_mounted (proper : Proper site) {paths : List Path}
    (absolute : ∀ path ∈ paths, path.absolute = true) :
    sortedPaths (paths.map (mounted site)) = (sortedPaths paths).map (mounted site) :=
  sortedMembers_map (fun p member q member' =>
      precedes_mounted proper (absolute p member) (absolute q member'))
    fun p member q member' => beq_mounted (absolute p member) (absolute q member')

end FunctionArchive.Path
