import FunctionArchive.Graph.Build
import FunctionArchive.Proofs.Disk.Listing

/-!
# What a policy leaves out

A policy is made from lists of texts, each a name or a pattern. What it leaves out is told by the
entries one by one (`ModuleFilter.covers_iff`, `Exclusion.excludes_iff`), so a longer list leaves
out more. Only patterns can be at fault, and those of known packages never are.
-/

set_option autoImplicit false

namespace FunctionArchive

/-! ## Lists of patterns -/

/-- A text can be read as a pattern. -/
def Glob.Readable (text : String) : Prop := ∃ pattern, Glob.Pattern.read text = .ok pattern

section Patterns

variable {kind : String} {texts : List String} {patterns : List Glob.Pattern}

theorem mem_of_readPatterns (read : readPatterns kind texts = .ok patterns)
    {pattern : Glob.Pattern} :
    pattern ∈ patterns ↔ ∃ text ∈ texts, Glob.Pattern.read text = .ok pattern := by
  have each {text : String} {pattern : Glob.Pattern} :
      ((Glob.Pattern.read text).mapError fun error =>
        (.config (.pattern kind text error) : Fault)) =
        .ok pattern ↔ Glob.Pattern.read text = .ok pattern := by
    cases Glob.Pattern.read text <;> simp [Except.mapError]
  constructor
  · intro member
    obtain ⟨text, among, isRead⟩ := Disk.exists_of_mem_mapM_ok read member
    exact ⟨text, among, each.mp isRead⟩
  · rintro ⟨text, among, isRead⟩
    obtain ⟨pattern', member, isRead'⟩ := Disk.exists_of_mapM_ok read among
    cases isRead.symm.trans (each.mp isRead')
    exact member

/-- Patterns that can be read together can each be read. -/
theorem readable_of_readPatterns (read : readPatterns kind texts = .ok patterns) {text : String}
    (member : text ∈ texts) : Glob.Readable text := by
  obtain ⟨pattern, -, isRead⟩ := Disk.exists_of_mapM_ok read member
  refine ⟨pattern, ?_⟩
  cases there : Glob.Pattern.read text with
  | error fault => simp [there, Except.mapError] at isRead
  | ok pattern' =>
      simp only [there, Except.mapError, Except.ok.injEq] at isRead
      rw [isRead]

/-- Patterns that can each be read can be read together. -/
theorem readPatterns_of_each (kind : String) {texts : List String}
    (each : ∀ text ∈ texts, Glob.Readable text) :
    ∃ patterns, readPatterns kind texts = .ok patterns := by
  induction texts with
  | nil => exact ⟨[], rfl⟩
  | cons text rest ih =>
      obtain ⟨pattern, first⟩ := each text List.mem_cons_self
      obtain ⟨patterns, others⟩ := ih fun other member => each other (List.mem_cons_of_mem _ member)
      refine ⟨pattern :: patterns, ?_⟩
      rw [readPatterns] at others ⊢
      simp only [List.mapM_cons, first, others]
      rfl

end Patterns

/-! ## Modules -/

namespace ModuleFilter

variable {entries entries' : List String} {f f' : ModuleFilter} {reference : String}

/-- An entry of a list of modules says that a reference is left out. -/
def Lists (entry reference : String) : Prop :=
  if isPattern entry then
    ∃ pattern, Glob.Pattern.read entry = .ok pattern ∧
      pattern.matches (Reference.packageName reference) = true
  else entry = Reference.packageName reference ∨ entry = reference

theorem make_ok (made : make entries = .ok f) :
    f.names = entries.filter (!isPattern ·) ∧
      readPatterns "module" (entries.filter isPattern) = .ok f.patterns := by
  obtain ⟨patterns, read, made⟩ := Disk.ok_of_bind made
  cases made
  exact ⟨rfl, read⟩

/-- A reference is left out if some entry says so. -/
theorem covers_iff (made : make entries = .ok f) :
    f.covers reference = true ↔ ∃ entry ∈ entries, Lists entry reference := by
  obtain ⟨names, read⟩ := make_ok made
  simp only [covers, Bool.or_eq_true, List.any_eq_true, beq_iff_eq, names, mem_of_readPatterns read,
    List.mem_filter, Bool.not_eq_true', Lists]
  constructor
  · rintro (⟨entry, ⟨among, isName⟩, same⟩ | ⟨pattern, ⟨entry, ⟨among, isPattern⟩, isRead⟩, fits⟩)
    · exact ⟨entry, among, by simpa [isName] using same⟩
    · exact ⟨entry, among, by simpa [isPattern] using ⟨pattern, isRead, fits⟩⟩
  · rintro ⟨entry, among, listed⟩
    split at listed
    · rename_i isPattern
      obtain ⟨pattern, isRead, fits⟩ := listed
      exact .inr ⟨pattern, ⟨entry, ⟨among, isPattern⟩, isRead⟩, fits⟩
    · rename_i isName
      exact .inl ⟨entry, ⟨among, Bool.eq_false_iff.mpr isName⟩, listed⟩

/-- A longer list leaves out more. -/
theorem covers_mono (made : make entries = .ok f) (made' : make entries' = .ok f')
    (more : entries ⊆ entries') (covered : f.covers reference = true) :
    f'.covers reference = true := by
  obtain ⟨entry, among, listed⟩ := (covers_iff made).mp covered
  exact (covers_iff made').mpr ⟨entry, more among, listed⟩

theorem readable_of_make (made : make entries = .ok f) {entry : String} (member : entry ∈ entries)
    (pattern : isPattern entry = true) : Glob.Readable entry :=
  readable_of_readPatterns (make_ok made).2 (List.mem_filter.mpr ⟨member, pattern⟩)

/-- A list whose patterns can be read makes a filter. -/
theorem exists_make (readable : ∀ entry ∈ entries, isPattern entry = true → Glob.Readable entry) :
    ∃ f, make entries = .ok f := by
  obtain ⟨patterns, read⟩ := readPatterns_of_each "module" fun entry member =>
    readable entry (List.mem_filter.mp member).1 (List.mem_filter.mp member).2
  exact ⟨_, by rw [make, read]; rfl⟩

end ModuleFilter

/-! ## Files -/

namespace Package

/-- The only files of a known package that are left out are those of a build directory. -/
theorem eq_of_mem_omitted {package pattern : String} {version : Option String}
    (member : pattern ∈ omitted package version) : pattern = "generator-build/**" := by
  obtain ⟨allowance, allowed, isPattern⟩ := List.mem_filterMap.mp member
  obtain ⟨rule, concerned, rfl⟩ := List.mem_map.mp allowed
  have listed := (List.mem_filter.mp concerned).1
  simp only [rules, List.mem_cons, List.not_mem_nil, or_false] at listed
  rcases listed with rfl | rfl | rfl | rfl | rfl | rfl | rfl | rfl | rfl <;> simp_all

end Package

namespace Exclusion

variable {texts texts' : List String} {sourceMaps : Bool} {e e' : Exclusion} {path : Path}

/-- A pattern leaves out a file, by its name or by its path. -/
def Fits (pattern : Glob.Pattern) (path : Path) : Prop :=
  pattern.matches (path.fileName?.getD "") = true ∨ pattern.matches path.text = true

/-- A file is left out if it is never worth shipping or if some pattern says so. -/
theorem excludes_iff : e.excludes path = true ↔
    isJunk (path.fileName?.getD "") e.sourceMaps = true ∨ ∃ pattern ∈ e.patterns,
      Fits pattern path := by
  simp [excludes, Fits, List.any_eq_true]

theorem make_ok (made : make texts sourceMaps = .ok e) :
    readPatterns "exclude" texts = .ok e.patterns ∧ e.sourceMaps = sourceMaps := by
  unfold make at made
  cases read : readPatterns "exclude" texts with
  | error fault => simp [read, Except.map] at made
  | ok patterns =>
      simp only [read, Except.map, Except.ok.injEq] at made
      exact made ▸ ⟨rfl, rfl⟩

/-- A longer list leaves out more. -/
theorem excludes_mono (made : make texts sourceMaps = .ok e)
    (made' : make texts' sourceMaps = .ok e')
    (more : texts ⊆ texts') (excluded : e.excludes path = true) : e'.excludes path = true := by
  obtain ⟨read, maps⟩ := make_ok made
  obtain ⟨read', maps'⟩ := make_ok made'
  rw [excludes_iff] at excluded ⊢
  rw [maps'.trans maps.symm]
  refine excluded.imp_right ?_
  rintro ⟨pattern, member, fits⟩
  obtain ⟨text, among, isRead⟩ := (mem_of_readPatterns read).mp member
  exact ⟨pattern, (mem_of_readPatterns read').mpr ⟨text, more among, isRead⟩, fits⟩

theorem exists_make (sourceMaps : Bool) (readable : ∀ text ∈ texts, Glob.Readable text) :
    ∃ e, make texts sourceMaps = .ok e := by
  obtain ⟨patterns, read⟩ := readPatterns_of_each "exclude" readable
  exact ⟨_, by rw [make, read]; rfl⟩

/-- Further patterns leave out what they say besides. -/
theorem excludes_withPatterns (made : e.withPatterns texts = .ok e') :
    e'.excludes path = true ↔ e.excludes path = true ∨
      ∃ text ∈ texts, ∃ pattern, Glob.Pattern.read text = .ok pattern ∧ Fits pattern path := by
  unfold withPatterns at made
  cases read : readPatterns "exclude" texts with
  | error fault => simp [read, Except.map] at made
  | ok patterns =>
      simp only [read, Except.map, Except.ok.injEq] at made
      subst made
      simp only [excludes_iff, List.mem_append, or_and_right, exists_or, or_assoc,
        mem_of_readPatterns read]
      refine or_congr_right (or_congr_right ⟨?_, ?_⟩)
      · rintro ⟨pattern, ⟨text, among, isRead⟩, fits⟩
        exact ⟨text, among, pattern, isRead, fits⟩
      · rintro ⟨text, among, pattern, isRead, fits⟩
        exact ⟨pattern, ⟨text, among, isRead⟩, fits⟩

/-- The rules for known packages can be added to every exclusion. -/
theorem withPatterns_omitted (e : Exclusion) (package : String) (version : Option String) :
    ∃ exclusion, e.withPatterns (Package.omitted package version) = .ok exclusion := by
  have readable : ∀ text ∈ Package.omitted package version, Glob.Readable text := by
    intro text member
    rw [Package.eq_of_mem_omitted member]
    have isOk : (Glob.Pattern.read "generator-build/**").toOption.isSome = true := by
      decide
    cases there : Glob.Pattern.read "generator-build/**" with
    | ok pattern => exact ⟨pattern, there⟩
    | error fault => simp [there, Except.toOption] at isOk
  obtain ⟨patterns, read⟩ := readPatterns_of_each "exclude" readable
  exact ⟨_, by rw [withPatterns, read]; rfl⟩

end Exclusion

/-! ## Policies -/

namespace GraphPolicy

/-- A reference is not looked at because some list of modules says so. -/
def Skips (policy : GraphPolicy) (reference : String) : Prop :=
  policy.external.covers reference = true ∨ policy.ignored.covers reference = true

theorem not_skips_iff {policy : GraphPolicy} {reference : String} :
    ¬ policy.Skips reference ↔
      policy.external.covers reference = false ∧ policy.ignored.covers reference = false := by
  simp [Skips]

variable {s : Settings} {config : FunctionConfig} {policy : GraphPolicy}

/-- What a policy is made from. -/
structure IsMadeFrom (s : Settings) (config : FunctionConfig) (policy : GraphPolicy) : Prop where
  external : ModuleFilter.make config.externalModules = .ok policy.external
  ignored : ModuleFilter.make config.ignoredModules = .ok policy.ignored
  exclusion : Exclusion.make config.excludeFiles s.sourceMaps = .ok policy.exclusion
  extensions : policy.extensions = s.extensions

theorem ofSettings_ok_iff : ofSettings s config = .ok policy ↔ IsMadeFrom s config policy := by
  constructor
  · intro made
    obtain ⟨external, isExternal, made⟩ := Disk.ok_of_bind made
    obtain ⟨ignored, isIgnored, made⟩ := Disk.ok_of_bind made
    obtain ⟨exclusion, isExclusion, made⟩ := Disk.ok_of_bind made
    cases made
    exact ⟨isExternal, isIgnored, isExclusion, rfl⟩
  · rintro ⟨external, ignored, exclusion, extensions⟩
    rw [ofSettings, make, external, ignored, exclusion, ← extensions]
    rfl

end GraphPolicy

end FunctionArchive
