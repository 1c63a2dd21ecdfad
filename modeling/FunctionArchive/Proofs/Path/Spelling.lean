import FunctionArchive.Path

/-!
# Names and the paths that they spell

A text without a slash spells a relative path of one name (`ofString_name`), and the child of that
name is the directory with the name behind it (`child_eq`). A separator at the end of the directory
is not doubled. From a child its name and its directory are read back (`fileName?_child`,
`parent?_child`), the directory without redundant names at its end. Two spellings of one child come
from two spellings of one directory (`same_of_child`).
-/

set_option autoImplicit false

namespace FunctionArchive.Path

/-- A text that can stand between two slashes. -/
def IsPart (text : String) : Prop := text ≠ "" ∧ '/' ∉ text.toList

instance (text : String) : Decidable (IsPart text) :=
  inferInstanceAs (Decidable (text ≠ "" ∧ '/' ∉ text.toList))

theorem split_noSlash {text : String} (noSlash : '/' ∉ text.toList) :
    split text.toList = [text] := by
  simp [split, List.splitOn_eq_singleton noSlash]

theorem ofString_name {text : String} (part : IsPart text) : ofString text = ⟨false, [text]⟩ := by
  obtain ⟨notEmpty, noSlash⟩ := part
  have whole := split_noSlash noSlash
  cases chars : text.toList with
  | nil => exact absurd (String.toList_eq_nil_iff.mp chars) notEmpty
  | cons first rest =>
      have notSlash : first ≠ '/' := by
        rintro rfl
        exact noSlash (by simp [chars])
      rw [chars] at whole
      simp [ofString, chars, notSlash, whole]

/-- The names of a directory without a separator at the end. -/
def stem (p : Path) : List String :=
  if p.names.getLast? == some "" then p.names.dropLast else p.names

theorem join_name (p : Path) (name : String) :
    p.join ⟨false, [name]⟩ = ⟨p.absolute, p.stem ++ [name]⟩ := by
  unfold join stem
  cases names : p.names with
  | nil => simp
  | cons first rest => simp

theorem child_eq (p : Path) {name : String} (part : IsPart name) :
    p.child name = ⟨p.absolute, p.stem ++ [name]⟩ := by
  rw [child, ofString_name part, join_name]

/-! ## Children and their directories -/

/-- A text that names an entry of a directory and does not lead anywhere else. -/
def IsName (text : String) : Prop := IsPart text ∧ text ≠ "." ∧ text ≠ ".."

instance (text : String) : Decidable (IsName text) :=
  inferInstanceAs (Decidable (IsPart text ∧ text ≠ "." ∧ text ≠ ".."))

variable {p : Path} {name : String}

theorem IsName.notRedundant (isName : IsName name) : isRedundant name = false := by
  simp [isRedundant, isName.1.1, isName.2.1]

theorem trimEnd_concat (absolute : Bool) (names : List String)
    (kept : isRedundant name = false) : trimEnd absolute (names ++ [name]) = names ++ [name] := by
  simp [trimEnd, kept]

theorem filter_dropWhile_redundant (names : List String) :
    (names.dropWhile isRedundant).filter (!isRedundant ·) = names.filter (!isRedundant ·) := by
  induction names with
  | nil => rfl
  | cons name rest ih =>
      cases redundant : isRedundant name with
      | true => simp [redundant, ih]
      | false => simp [redundant]

/-- Trimming takes away redundant names only. -/
theorem filter_trimEnd (absolute : Bool) (names : List String) :
    (trimEnd absolute names).filter (!isRedundant ·) = names.filter (!isRedundant ·) := by
  have kept : (names.reverse.dropWhile isRedundant).reverse.filter (!isRedundant ·) =
      names.filter (!isRedundant ·) := by
    rw [List.filter_reverse, filter_dropWhile_redundant, List.filter_reverse, List.reverse_reverse]
  unfold trimEnd
  dsimp only
  split
  · rename_i lone
    rw [← kept]
    have empty : (names.reverse.dropWhile isRedundant).reverse = [] := by
      simp only [Bool.and_eq_true, List.isEmpty_iff] at lone
      exact lone.1.1
    rw [empty]
    decide
  · exact kept

/-- A last name that is left by trimming leads somewhere, but for the dot of a relative path. -/
theorem last_trimEnd {absolute : Bool} {names : List String}
    (last : (trimEnd absolute names).getLast? = some name)
    (notLone : absolute = true ∨ name ≠ ".") : isRedundant name = false := by
  unfold trimEnd at last
  dsimp only at last
  split at last
  · rename_i lone
    obtain rfl : name = "." := by simpa using last.symm
    simp at lone notLone
    simp [notLone] at lone
  · rw [List.getLast?_reverse] at last
    have kept := List.head?_dropWhile_not isRedundant names.reverse
    rw [last] at kept
    simpa using kept

theorem filter_stem (p : Path) :
    p.stem.filter (!isRedundant ·) = p.names.filter (!isRedundant ·) := by
  unfold stem
  split
  · rename_i ends
    have last : p.names.getLast? = some "" := by simpa using ends
    obtain ⟨front, names⟩ := List.getLast?_eq_some_iff.mp last
    simp [names, isRedundant]
  · rfl

theorem fileName?_child (p : Path) (isName : IsName name) :
    (p.child name).fileName? = some name := by
  rw [child_eq p isName.1, fileName?, trimEnd_concat _ _ isName.notRedundant]
  simp [isName.2.1, isName.2.2]

theorem parent?_child (p : Path) (isName : IsName name) :
    (p.child name).parent? = some ⟨p.absolute, trimEnd p.absolute p.stem⟩ := by
  rw [child_eq p isName.1, parent?, trimEnd_concat _ _ isName.notRedundant]
  simp

/-- A child of a child: the directory is spelled as it was. -/
theorem parent?_child_child (p : Path) {inner : String} (isName : IsName name)
    (isInner : IsName inner) :
    ((p.child name).child inner).parent? = some (p.child name) := by
  have stem : (p.child name).stem = p.stem ++ [name] := by
    rw [Path.stem, child_eq p isName.1]
    simp [isName.1.1]
  rw [parent?_child _ isInner, stem, trimEnd_concat _ _ isName.notRedundant, child_eq p isName.1]

/-! ## Other spellings -/

theorem same_iff {p q : Path} :
    p.same q = true ↔ p.absolute = q.absolute ∧ p.components = q.components := by
  simp [same]

theorem same_symm {p q : Path} (alike : p.same q = true) : q.same p = true :=
  same_iff.mpr ⟨(same_iff.mp alike).1.symm, (same_iff.mp alike).2.symm⟩

theorem same_trans {p q r : Path} (alike : p.same q = true) (alike' : q.same r = true) :
    p.same r = true :=
  same_iff.mpr ⟨(same_iff.mp alike).1.trans (same_iff.mp alike').1,
    (same_iff.mp alike).2.trans (same_iff.mp alike').2⟩

theorem trimEnd_dot (rest : List String) :
    trimEnd false ("." :: rest) = "." :: trimEnd true rest := by
  have dot : isRedundant "." = true := by decide
  unfold trimEnd
  rw [List.reverse_cons, List.dropWhile_append]
  cases rest.reverse.dropWhile isRedundant with
  | nil => simp [dot]
  | cons last front => simp

theorem components_eq_filter {absolute : Bool} {names : List String}
    (noDot : absolute = false → names.head? ≠ some ".") :
    (⟨absolute, names⟩ : Path).components = names.filter (!isRedundant ·) := by
  unfold components
  split
  · next rest relative names =>
    cases relative
    subst names
    exact absurd rfl (noDot rfl)
  · rfl

theorem head?_of_trimEnd {absolute : Bool} {names : List String}
    (starts : (trimEnd absolute names).head? = some ".") : names.head? = some "." := by
  obtain ⟨others, whole⟩ : (names.reverse.dropWhile isRedundant).reverse <+: names := by
    simpa using List.reverse_prefix.mpr (List.dropWhile_suffix isRedundant (l := names.reverse))
  unfold trimEnd at starts
  dsimp only at starts
  split at starts
  · next lone =>
    simp only [Bool.and_eq_true, beq_iff_eq] at lone
    exact lone.2
  · obtain ⟨rest, kept⟩ := List.head?_eq_some_iff.mp starts
    rw [← whole, kept]
    rfl

/-- The last name of a path is the last of its components, and the others are those of its
directory. -/
theorem components_concat (absolute : Bool) (names : List String) {name : String}
    (kept : isRedundant name = false) :
    (⟨absolute, names ++ [name]⟩ : Path).components =
      (⟨absolute, trimEnd absolute names⟩ : Path).components ++ [name] := by
  have concat (names : List String) : (names ++ [name]).filter (!isRedundant ·) =
      names.filter (!isRedundant ·) ++ [name] := by simp [kept]
  by_cases dotted : absolute = false ∧ names.head? = some "."
  · obtain ⟨rfl, starts⟩ := dotted
    obtain ⟨rest, rfl⟩ := List.head?_eq_some_iff.mp starts
    rw [trimEnd_dot]
    show "." :: (rest ++ [name]).filter (!isRedundant ·) =
      "." :: (trimEnd true rest).filter (!isRedundant ·) ++ [name]
    rw [filter_trimEnd, concat, List.cons_append]
  · have plain : ¬(absolute = false ∧ (names ++ [name]).head? = some ".") := by
      rintro ⟨relative, starts⟩
      cases names with
      | nil =>
          cases starts
          exact absurd kept (by decide)
      | cons first rest => exact dotted ⟨relative, starts⟩
    rw [components_eq_filter fun relative starts => plain ⟨relative, starts⟩,
      components_eq_filter fun relative starts => dotted ⟨relative, head?_of_trimEnd starts⟩,
      filter_trimEnd, concat]

/-- The directories of two spellings of one child are two spellings of one directory. -/
theorem same_of_child {p q : Path} {name : String} (isName : IsName name)
    (alike : (p.child name).same (q.child name) = true) :
    ((p.child name).parent?.getD ⟨false, []⟩).same
    ((q.child name).parent?.getD ⟨false, []⟩) = true := by
  rw [parent?_child p isName, parent?_child q isName]
  rw [child_eq p isName.1, child_eq q isName.1] at alike
  simp only [same, Bool.and_eq_true, beq_iff_eq, components_concat _ _ isName.notRedundant,
    List.append_left_inj, Option.getD_some] at alike ⊢
  exact alike
theorem stem_dot (absolute : Bool) (rest : List String) :
    (⟨absolute, "." :: rest⟩ : Path).stem = "." :: (⟨absolute, rest⟩ : Path).stem := by
  cases rest with
  | nil => rfl
  | cons first rest =>
      unfold stem
      dsimp only
      rw [List.getLast?_cons_cons]
      split <;> rfl

theorem head?_of_stem (starts : p.stem.head? = some ".") : p.names.head? = some "." := by
  have inFront : p.stem <+: p.names := by
    unfold stem
    split
    · exact List.dropLast_prefix _
    · exact List.prefix_refl _
  obtain ⟨others, whole⟩ := inFront
  obtain ⟨rest, stem⟩ := List.head?_eq_some_iff.mp starts
  rw [← whole, stem]
  rfl

theorem components_child (p : Path) (isName : IsName name) :
    (p.child name).components = p.components ++ [name] := by
  rw [child_eq p isName.1, components_concat _ _ isName.notRedundant]
  congr 1
  obtain ⟨absolute, names⟩ := p
  by_cases dotted : absolute = false ∧ names.head? = some "."
  · obtain ⟨rfl, starts⟩ := dotted
    obtain ⟨rest, rfl⟩ := List.head?_eq_some_iff.mp starts
    rw [stem_dot, trimEnd_dot]
    show "." :: (trimEnd true _).filter (!isRedundant ·) = "." :: rest.filter (!isRedundant ·)
    rw [filter_trimEnd, filter_stem]
  · rw [components_eq_filter fun relative starts =>
        dotted ⟨relative, head?_of_stem (head?_of_trimEnd starts)⟩,
      components_eq_filter fun relative starts => dotted ⟨relative, starts⟩, filter_trimEnd,
      filter_stem]

/-- Children of one name in two spellings of a directory are two spellings of one path. -/
theorem child_same {p q : Path} (isName : IsName name) (alike : p.same q = true) :
    (p.child name).same (q.child name) = true := by
  obtain ⟨absolute, components⟩ := same_iff.mp alike
  refine same_iff.mpr ⟨?_, ?_⟩
  · rw [child_eq p isName.1, child_eq q isName.1]
    exact absolute
  · rw [components_child p isName, components_child q isName, components]

end FunctionArchive.Path
