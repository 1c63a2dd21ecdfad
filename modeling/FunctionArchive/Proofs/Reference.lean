import FunctionArchive.Proofs.Path.Plain
import FunctionArchive.Reference

/-!
# Packages of references

Where a reference by name leads starts where the name of its package leads: the names that the
package spells are the first of those that the reference spells (`prefix_packageName`).
-/

set_option autoImplicit false

namespace FunctionArchive.Reference

theorem slash_notMem_beforeSlash (chars : List Char) : '/' ∉ beforeSlash chars := by
  intro slash
  have kept := List.all_eq_true.mp (List.all_takeWhile (p := (· != '/')) (l := chars)) '/' slash
  simp at kept

/-- What follows the text in front of the first slash is nothing or starts with that slash. -/
theorem append_beforeSlash (chars : List Char) :
    beforeSlash chars = chars ∨ ∃ tail, chars = beforeSlash chars ++ '/' :: tail := by
  have whole : beforeSlash chars ++ chars.dropWhile (· != '/') = chars :=
    List.takeWhile_append_dropWhile
  cases behind : chars.dropWhile (· != '/') with
  | nil =>
      rw [behind, List.append_nil] at whole
      exact .inl whole
  | cons slash tail =>
      have stops : (slash != '/') = false := by
        have first := List.head?_dropWhile_not (· != '/') chars
        simpa [behind] using first
      have isSlash : slash = '/' := by simpa using stops
      rw [behind, isSlash] at whole
      exact .inr ⟨tail, whole.symm⟩

theorem prefix_beforeSlash (chars : List Char) :
    Path.split (beforeSlash chars) <+: Path.split chars := by
  rcases append_beforeSlash chars with whole | ⟨tail, whole⟩
  · exact ⟨[], by rw [List.append_nil, whole]⟩
  · have parts : Path.split chars = Path.split (beforeSlash chars) ++ Path.split tail := by
      rw [← Path.split_append, ← whole]
    rw [parts]
    exact List.prefix_append _ _

/-- The spelling of a text that does not start with a slash. -/
theorem ofString_ofList {chars : List Char} (notEmpty : chars ≠ [])
    (notSlash : chars.head? ≠ some '/') :
    Path.ofString (String.ofList chars) = ⟨false, Path.split chars⟩ := by
  cases chars with
  | nil => exact absurd rfl notEmpty
  | cons first rest =>
      have different : first ≠ '/' := by simpa using notSlash
      simp [Path.ofString, different]

/-- A text without a slash is all in front of the first slash that follows. -/
theorem beforeSlash_append {first : List Char} (noSlash : '/' ∉ first) (rest : List Char) :
    beforeSlash (first ++ rest) = first ++ beforeSlash rest :=
  List.takeWhile_append_of_pos fun _ member => bne_iff_ne.mpr fun slash => noSlash (slash ▸ member)

theorem beforeSlash_beforeSlash (chars : List Char) :
    beforeSlash (beforeSlash chars) = beforeSlash chars := by
  simpa [beforeSlash] using beforeSlash_append (slash_notMem_beforeSlash chars) []

/-- A text without a slash that a reference starts with is spelled in front of its first slash. -/
theorem isPrefixOf_beforeSlash {start : List Char} (noSlash : '/' ∉ start) (chars : List Char) :
    start.isPrefixOf (beforeSlash chars) = start.isPrefixOf chars := by
  induction start generalizing chars with
  | nil => rfl
  | cons c start ih =>
      obtain ⟨different, noSlash⟩ := not_or.mp (mt List.mem_cons.mpr noSlash)
      cases chars with
      | nil => rfl
      | cons c' rest =>
          rw [beforeSlash, List.takeWhile_cons]
          split
          · rw [List.isPrefixOf_cons_cons, List.isPrefixOf_cons_cons, ← beforeSlash, ih noSlash]
          · next slash =>
            have isSlash : c' = '/' := by simpa using slash
            have starts : (c == c') = false := beq_false_of_ne fun same =>
              different (same ▸ isSlash).symm
            rw [List.isPrefixOf_cons_cons, starts]
            rfl

/-! ## The package of a package -/

/-- The name of a package is its first name, or its first two names if the first is a scope. -/
theorem packageName_cases (reference : String) :
    packageName reference = String.ofList (beforeSlash reference.toList) ∨
      (beforeSlash reference.toList).head? = some '@' ∧
        ∃ second, '/' ∉ second ∧
          packageName reference = String.ofList
            (beforeSlash reference.toList ++ '/' :: second) := by
  unfold packageName
  dsimp only
  split
  · next underScope =>
    obtain ⟨scope, -⟩ := Bool.and_eq_true_iff.mp underScope
    obtain ⟨rest, chars⟩ := List.head?_eq_some_iff.mp (eq_of_beq scope)
    refine .inr ⟨?_, _, slash_notMem_beforeSlash _, rfl⟩
    rw [chars, beforeSlash, List.takeWhile_cons]
    rfl
  · exact .inl rfl

theorem beforeSlash_packageName (reference : String) :
    beforeSlash (packageName reference).toList = beforeSlash reference.toList := by
  rcases packageName_cases reference with plain | ⟨-, second, -, both⟩
  · rw [plain, String.toList_ofList, beforeSlash_beforeSlash]
  · rw [both, String.toList_ofList, beforeSlash_append (slash_notMem_beforeSlash _)]
    exact List.append_nil _

/-- A package is its own package. -/
@[simp] theorem packageName_packageName (reference : String) :
    packageName (packageName reference) = packageName reference := by
  have first := beforeSlash_packageName reference
  rcases packageName_cases reference with plain | ⟨scope, second, noSlash, both⟩
  · have chars : (packageName reference).toList = beforeSlash reference.toList := by
      rw [plain, String.toList_ofList]
    generalize packageName reference = package at plain first chars ⊢
    rw [packageName, first, chars]
    simp [plain]
  · have chars : (packageName reference).toList =
        beforeSlash reference.toList ++ '/' :: second := by
      rw [both, String.toList_ofList]
    have starts : (packageName reference).toList.head? = some '@' := by
      rw [chars, List.head?_append, scope]
      rfl
    generalize packageName reference = package at both first chars starts ⊢
    rw [packageName, first, starts, chars, List.drop_left]
    have rest : beforeSlash second = second := by
      simpa [beforeSlash] using beforeSlash_append noSlash []
    simp [both, rest]

/-- A reference leads to the run time if its package does. -/
@[simp] theorem isBuiltin_packageName (reference : String) :
    isBuiltin (packageName reference) = isBuiltin reference := by
  have scheme : '/' ∉ "node:".toList := by decide
  have first := beforeSlash_packageName reference
  rw [isBuiltin, isBuiltin, first, ← isPrefixOf_beforeSlash scheme (packageName reference).toList,
    ← isPrefixOf_beforeSlash scheme reference.toList, first]

/-! ## References by path -/

/-- A path starts with a dot or a slash, and in front of its first slash stands a dot, two dots, or
nothing. -/
theorem spelled_of_relative {reference : String} (relative : isRelative reference = true) :
    (∃ rest, reference.toList = '.' :: rest ∨ reference.toList = '/' :: rest) ∧
      beforeSlash reference.toList ∈ [['.'], ['.', '.'], []] := by
  unfold isRelative at relative
  split at relative
  case h_6 => cases relative
  all_goals simp [beforeSlash, *]

/-- A path passes for a package by the names that stand for directories, or by nothing. -/
theorem packageName_of_relative {reference : String} (relative : isRelative reference = true) :
    packageName reference ∈ [".", "..", ""] := by
  obtain ⟨⟨rest, starts⟩, first⟩ := spelled_of_relative relative
  have noScope : (reference.toList.head? == some '@') = false := by
    rcases starts with chars | chars <;> rw [chars] <;> rfl
  unfold packageName
  simp only [noScope, Bool.false_and, Bool.false_eq_true, if_false]
  exact List.mem_map_of_mem (f := String.ofList) first

/-- No path is a module of the run time. -/
theorem isBuiltin_of_relative {reference : String} (relative : isRelative reference = true) :
    isBuiltin reference = false := by
  obtain ⟨⟨rest, starts⟩, first⟩ := spelled_of_relative relative
  have noScheme : "node:".toList.isPrefixOf reference.toList = false := by
    rcases starts with chars | chars <;> rw [chars] <;> rfl
  have unknown : ∀ name ∈ [".", "..", ""], coreModules.contains name = false := by decide
  rw [isBuiltin, noScheme, Bool.false_or]
  exact unknown _ (List.mem_map_of_mem (f := String.ofList) first)

/-! ## References by name -/

/-- A reference by name does not start with a slash. -/
theorem head?_of_bare {reference : String} (bare : isRelative reference = false) :
    reference.toList.head? ≠ some '/' := by
  intro starts
  obtain ⟨rest, chars⟩ := List.head?_eq_some_iff.mp starts
  rw [isRelative, chars] at bare
  cases bare

theorem ofString_bare {reference : String} (bare : isRelative reference = false) :
    (Path.ofString reference).absolute = false := by
  have notSlash := head?_of_bare bare
  by_cases empty : reference.toList = []
  · rw [String.toList_eq_nil_iff.mp empty]
    rfl
  · rw [← String.ofList_toList (s := reference), ofString_ofList empty notSlash]

/-- A reference by name goes on from the name of its package. -/
theorem prefix_packageName {reference : String} (bare : isRelative reference = false) :
    (Path.ofString (packageName reference)).absolute = false ∧
      (Path.ofString (packageName reference)).names <+: (Path.ofString reference).names := by
  have notSlash := head?_of_bare bare
  by_cases empty : reference.toList = []
  · rw [String.toList_eq_nil_iff.mp empty]
    exact ⟨by decide, List.prefix_rfl⟩
  · have spelled : Path.ofString reference = ⟨false, Path.split reference.toList⟩ := by
      rw [← ofString_ofList empty notSlash, String.ofList_toList]
    rw [spelled]
    unfold packageName
    dsimp only
    generalize reference.toList = chars at empty notSlash ⊢
    rcases append_beforeSlash chars with whole | ⟨tail, whole⟩
    · rw [whole, List.drop_length]
      simp only [List.isEmpty_nil, Bool.not_true, Bool.and_false, Bool.false_eq_true, if_false]
      rw [ofString_ofList empty notSlash]
      exact ⟨rfl, List.prefix_rfl⟩
    · have notNil : beforeSlash chars ≠ [] := by
        intro none
        rw [none] at whole
        rw [whole] at notSlash
        exact notSlash rfl
      have starts : (beforeSlash chars).head? ≠ some '/' := fun slash =>
        slash_notMem_beforeSlash chars (List.mem_of_mem_head? slash)
      split
      · have behind := congrArg (List.drop (beforeSlash chars).length) whole
        rw [List.drop_left] at behind
        have starts' : (beforeSlash chars ++ '/' :: beforeSlash tail).head? ≠ some '/' := by
          rw [List.head?_append, Option.or_of_isSome (by simpa using notNil)]
          exact starts
        have parts : Path.split chars = Path.split (beforeSlash chars) ++ Path.split tail := by
          rw [← Path.split_append, ← whole]
        rw [behind, List.drop_one, List.tail_cons,
          ofString_ofList (List.append_ne_nil_of_left_ne_nil notNil _) starts',
            Path.split_append, parts]
        exact ⟨rfl, (List.prefix_append_right_inj _).mpr (prefix_beforeSlash tail)⟩
      · rw [ofString_ofList notNil starts]
        exact ⟨rfl, prefix_beforeSlash chars⟩

end FunctionArchive.Reference
