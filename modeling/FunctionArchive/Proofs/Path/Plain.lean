import FunctionArchive.Proofs.Path.Spelling
import Mathlib.Data.List.Induction

/-!
# Plain paths

A path is plain when it starts at the root and goes through names of entries only. On such paths
what is told about spellings is told about the names themselves: the directories above a path are
those that its names pass through (`mem_ancestors`), to lie within another is to have its names in
front (`isWithin_iff`), and the texts between slashes are read back from the text that they make up
(`split_intercalate`).

`follow` is where names lead from other names when nothing but the spelling counts. If they never
lead above the directory from which they start, they lead to the same place below it wherever it is
(`follow_of_descend?`). A path that never leads upwards is plain but for redundant names
(`Descends.proper_components`).
-/

set_option autoImplicit false

namespace FunctionArchive.Path

variable {names names' front rest : List String} {name : String} {p base : Path}

/-- Names each of which stands for an entry of the directory before it. -/
def Proper (names : List String) : Prop := ∀ name ∈ names, IsName name

theorem proper_nil : Proper [] := List.forall_mem_nil _

theorem proper_append : Proper (front ++ rest) ↔ Proper front ∧ Proper rest :=
  List.forall_mem_append

theorem proper_singleton : Proper [name] ↔ IsName name := List.forall_mem_singleton

theorem Proper.of_prefix (proper : Proper names) (inFront : front <+: names) : Proper front :=
  fun name member => proper name (inFront.subset member)

theorem Proper.filter_eq (proper : Proper names) : names.filter (!isRedundant ·) = names :=
  List.filter_eq_self.mpr fun name member => by simp [(proper name member).notRedundant]

theorem components_ofNames (names : List String) :
    (ofNames names).components = names.filter (!isRedundant ·) := rfl

theorem Proper.components_eq (proper : Proper names) : (ofNames names).components = names :=
  proper.filter_eq

theorem Proper.trimEnd_eq (proper : Proper names) : trimEnd true names = names := by
  cases names using List.reverseRecOn with
  | nil => rfl
  | append_singleton front name _ =>
      exact trimEnd_concat true front (proper name (by simp)).notRedundant

theorem Proper.stem_eq (proper : Proper names) : (ofNames names).stem = names := by
  have last : names.getLast? ≠ some "" := fun empty =>
    (proper "" (List.mem_of_getLast? empty)).1.1 rfl
  simp [stem, ofNames, last]

/-- A path that starts at the root and goes through names of entries only. -/
structure Plain (p : Path) : Prop where
  absolute : p.absolute = true
  proper : Proper p.names

theorem Plain.eq_ofNames (plain : p.Plain) : p = ofNames p.names := by
  obtain ⟨absolute, names⟩ := p
  obtain ⟨rfl, -⟩ := plain
  rfl

theorem plain_ofNames : (ofNames names).Plain ↔ Proper names :=
  ⟨(·.proper), fun proper => ⟨rfl, proper⟩⟩

/-! ## The directories above -/

theorem Proper.parent?_concat (proper : Proper (names ++ [name])) :
    (ofNames (names ++ [name])).parent? = some (ofNames names) := by
  have above : Proper names := proper.of_prefix (List.prefix_append _ _)
  simp [parent?, ofNames, proper.trimEnd_eq, above.trimEnd_eq]

theorem parent?_root : (ofNames []).parent? = none := rfl

theorem ancestors_root : (ofNames []).ancestors = [ofNames []] := rfl

theorem Proper.ancestors_concat (proper : Proper (names ++ [name])) :
    (ofNames (names ++ [name])).ancestors =
      ofNames (names ++ [name]) :: (ofNames names).ancestors := by
  have length : (ofNames (names ++ [name])).names.length = names.length + 1 := by simp [ofNames]
  rw [ancestors, length, above, proper.parent?_concat]
  rfl

/-- The directories above a plain path are those that its names pass through. -/
theorem Proper.mem_ancestors (proper : Proper names) (p : Path) :
    p ∈ (ofNames names).ancestors ↔ ∃ front, front <+: names ∧ p = ofNames front := by
  induction names using List.reverseRecOn with
  | nil => simp [ancestors_root]
  | append_singleton names name ih =>
      rw [proper.ancestors_concat, List.mem_cons, ih (proper.of_prefix (List.prefix_append _ _))]
      simp only [List.prefix_concat_iff, or_and_right, exists_or, exists_eq_left]

/-- The directory of a plain path is named by all but its last name. -/
theorem Plain.eq_of_parent (plain : p.Plain) (above : p.parent? = some base) :
    base = ofNames p.names.dropLast := by
  rw [plain.eq_ofNames] at above
  have proper := plain.proper
  rcases List.eq_nil_or_concat p.names with none | ⟨front, name, split⟩
  · simp [none, parent?_root] at above
  · rw [List.concat_eq_append] at split
    rw [split] at above proper ⊢
    rw [proper.parent?_concat] at above
    rw [List.dropLast_concat]
    exact (Option.some.inj above).symm

theorem Plain.parent (plain : p.Plain) (above : p.parent? = some base) :
    base.Plain ∧ base.names <+: p.names := by
  rw [plain.eq_of_parent above]
  have inFront : p.names.dropLast <+: p.names := List.dropLast_prefix p.names
  exact ⟨plain_ofNames.mpr (plain.proper.of_prefix inFront), inFront⟩

theorem components_of_absolute (absolute : p.absolute = true) :
    p.components = p.names.filter (!isRedundant ·) := by
  obtain ⟨_, names⟩ := p
  obtain rfl : _ = true := absolute
  rfl

/-- The directory above an absolute path has all its components but the last. -/
theorem components_of_parent? {q : Path} (absolute : p.absolute = true)
    (above : p.parent? = some q) :
    q.absolute = true ∧ ∃ name, p.components = q.components ++ [name] := by
  unfold parent? at above
  rw [absolute] at above
  dsimp only at above
  split at above
  · cases above
  · cases above
    rename_i notEmpty
    rcases List.eq_nil_or_concat (trimEnd true p.names) with empty | ⟨front, name, split⟩
    · exact absurd (by simp [empty]) notEmpty
    · rw [List.concat_eq_append] at split
      have last : isRedundant name = false := last_trimEnd (by rw [split]; simp) (.inl rfl)
      refine ⟨rfl, name, ?_⟩
      rw [components_of_absolute absolute, components_of_absolute rfl, split, List.dropLast_concat,
        filter_trimEnd, ← filter_trimEnd true p.names, split]
      simp [last]

/-- The directories above an absolute path have its components as far as they go. -/
theorem mem_ancestors_prefix {here : Path} (absolute : p.absolute = true)
    (above : here ∈ p.ancestors) : here.absolute = true ∧ here.components <+: p.components := by
  unfold ancestors at above
  generalize p.names.length = bound at above
  induction bound generalizing p with
  | zero =>
      obtain rfl : here = p := by simpa [Path.above] using above
      exact ⟨absolute, List.prefix_refl _⟩
  | succ bound ih =>
      rcases List.mem_cons.mp above with rfl | further
      · exact ⟨absolute, List.prefix_refl _⟩
      · rw [Path.above] at further
        split at further
        · cases further
        · rename_i q up
          obtain ⟨absolute', name, split⟩ := components_of_parent? absolute up
          obtain ⟨isAbsolute, inFront⟩ := ih absolute' further
          rw [split]
          exact ⟨isAbsolute, inFront.trans (List.prefix_append _ _)⟩

/-- A path lies within another one if both start alike and the other one's components are in
front. -/
theorem isWithin_iff (p base : Path) :
    p.isWithin base = true ↔ p.absolute = base.absolute ∧ base.components <+: p.components := by
  unfold isWithin relativeTo?
  split
  · rename_i both
    simpa using both
  · rename_i notBoth
    simpa using notBoth

theorem Proper.isWithin_iff (proper : Proper names) (proper' : Proper front) :
    (ofNames names).isWithin (ofNames front) = true ↔ front <+: names := by
  rw [Path.isWithin_iff, proper.components_eq, proper'.components_eq]
  simp [ofNames]

theorem Proper.relativeTo?_eq (proper : Proper (front ++ rest)) :
    (ofNames (front ++ rest)).relativeTo? (ofNames front) = some rest := by
  have proper' : Proper front := proper.of_prefix (List.prefix_append _ _)
  unfold relativeTo?
  rw [proper.components_eq, proper'.components_eq]
  simp [ofNames]

theorem Proper.child_eq (proper : Proper names) (part : IsPart name) :
    (ofNames names).child name = ofNames (names ++ [name]) := by
  rw [Path.child_eq _ part, proper.stem_eq]
  rfl

/-! ## Texts between slashes -/

theorem notMem_of_mem_splitOn {c : Char} {chars part : List Char}
    (member : part ∈ chars.splitOn c) : c ∉ part := by
  induction chars generalizing part with
  | nil => simp_all
  | cons first rest ih =>
      rw [List.splitOn_cons_eq_if_modifyHead] at member
      split at member
      · rcases List.mem_cons.mp member with rfl | later
        · simp
        · exact ih later
      · rename_i different
        cases parts : rest.splitOn c with
        | nil => exact absurd parts (List.splitOn_ne_nil c rest)
        | cons head tail =>
            rw [parts, List.modifyHead_cons] at member
            rcases List.mem_cons.mp member with rfl | later
            · have notHead := @ih head (by simp [parts])
              have notFirst : c ≠ first := by
                rintro rfl
                simp at different
              simp [notHead, notFirst]
            · exact ih (by simp [parts, later])

/-- No slash is left between slashes. -/
theorem noSlash_of_mem_split {chars : List Char} (member : name ∈ split chars) :
    '/' ∉ name.toList := by
  obtain ⟨part, inside, rfl⟩ := List.mem_map.mp member
  simpa using notMem_of_mem_splitOn inside

/-- The texts that a text is put together from with slashes are read back. -/
theorem split_intercalate (noSlash : ∀ name ∈ names, '/' ∉ name.toList) (some : names ≠ []) :
    split ("/".intercalate names).toList = names := by
  have parts : ∀ part ∈ names.map String.toList, '/' ∉ part := by
    simpa using noSlash
  rw [split, String.toList_intercalate]
  show (List.splitOn '/' (['/'].intercalate (names.map String.toList))).map String.ofList = names
  rw [List.splitOn_intercalate '/' parts (by simpa using some)]
  simp [Function.comp_def]

theorem Proper.noSlash (proper : Proper names) : ∀ name ∈ names, '/' ∉ name.toList :=
  fun name member => (proper name member).1.2

theorem split_append (front back : List Char) :
    split (front ++ '/' :: back) = split front ++ split back := by
  simp [split, List.splitOn_append_cons_self]

/-- Names of entries are read back from the text that they make up, unless there are none. -/
theorem Proper.split_text (proper : Proper names) :
    split ("/".intercalate names).toList = if names.isEmpty then [""] else names := by
  cases names with
  | nil => decide
  | cons first rest => exact split_intercalate proper.noSlash (List.cons_ne_nil first rest)

/-- The empty text is not the name of an entry. -/
theorem Proper.not_blank {rest : List String} (proper : Proper ("" :: rest)) : False :=
  (proper "" List.mem_cons_self).1.1 rfl

/-- Names of entries that make up the same text are the same. -/
theorem Proper.text_inj (proper : Proper names) (proper' : Proper names')
    (same : "/".intercalate names = "/".intercalate names') : names = names' := by
  have parts := proper.split_text
  rw [same, proper'.split_text] at parts
  cases names with
  | nil =>
      cases names' with
      | nil => rfl
      | cons first rest =>
          obtain ⟨rfl, rfl⟩ : first = "" ∧ rest = [] := by simpa using parts
          exact proper'.not_blank.elim
  | cons first rest =>
      cases names' with
      | nil =>
          obtain ⟨rfl, rfl⟩ : "" = first ∧ [] = rest := by simpa using parts
          exact proper.not_blank.elim
      | cons first' rest' => simpa using parts.symm

/-- If some names make up a text that goes on after a slash from what others make up, they go on
from the others. -/
theorem Proper.of_text_below (proper : Proper names) (proper' : Proper names') {text : String}
    (below : "/".intercalate names' = "/".intercalate names ++ "/" ++ text) :
    ∃ rest, rest ≠ [] ∧ names' = names ++ rest := by
  have parts := proper'.split_text
  have slash : ("/" : String).toList = ['/'] := rfl
  rw [below, String.toList_append, String.toList_append, slash, List.append_assoc,
    List.singleton_append, split_append, proper.split_text] at parts
  have some : split text.toList ≠ [] := by simp [split, List.splitOn_ne_nil]
  cases names' with
  | nil => simpa using congrArg String.toList below
  | cons first' rest' =>
      cases names with
      | nil =>
          obtain ⟨rfl, -⟩ : first' = "" ∧ split text.toList = rest' := by simpa using parts
          exact proper'.not_blank.elim
      | cons first rest => exact ⟨split text.toList, some, by simpa using parts.symm⟩

/-! ## Where names lead -/

/-- The names at which one arrives from `here` through some more, by the spelling alone. -/
def follow (here names : List String) : List String := (names.foldl step here.reverse).reverse

theorem follow_append (here front rest : List String) :
    follow here (front ++ rest) = follow (follow here front) rest := by
  simp [follow]

theorem follow_concat (here names : List String) (name : String) :
    follow here (names ++ [name]) =
      if isRedundant name then follow here names
      else if name == ".." then (follow here names).dropLast
      else follow here names ++ [name] := by
  simp only [follow, List.foldl_append, List.foldl_cons, List.foldl_nil, step]
  split
  · rfl
  · split
    · simp [List.dropLast_reverse]
    · simp

theorem Proper.follow_eq (proper : Proper names) (here : List String) :
    follow here names = here ++ names := by
  induction names using List.reverseRecOn with
  | nil => simp [follow]
  | append_singleton names name ih =>
      have isName := proper name (by simp)
      rw [follow_concat, ih (proper.of_prefix (List.prefix_append _ _))]
      simp [isName.notRedundant, isName.2.2]

theorem normalize_of_absolute (base p : Path) (absolute : p.absolute = true) :
    normalize base p = ofNames (follow [] p.names) := by
  simp [normalize, follow, absolute]

theorem normalize_of_relative (base p : Path) (relative : p.absolute = false) :
    normalize base p = ofNames (follow (follow [] base.names) p.names) := by
  rw [← follow_append]
  simp [normalize, follow, relative]

/-- Names that can be arrived at are names of entries. -/
theorem proper_follow {here : List String} (proper : Proper here)
    (noSlash : ∀ name ∈ names, '/' ∉ name.toList) : Proper (follow here names) := by
  induction names using List.reverseRecOn with
  | nil => simpa [follow] using proper
  | append_singleton names name ih =>
      have before := ih fun other member => noSlash other (by simp [member])
      rw [follow_concat]
      split
      · exact before
      · rename_i kept
        split
        · exact before.of_prefix (List.dropLast_prefix _)
        · rename_i notUp
          simp only [isRedundant, Bool.or_eq_true, beq_iff_eq, not_or] at kept
          refine proper_append.mpr ⟨before, proper_singleton.mpr ?_⟩
          exact ⟨⟨kept.1, noSlash name (by simp)⟩, kept.2, by simpa using notUp⟩

/-- The names at which one arrives from `here`, unless the way leads above the start. -/
def descend? (here : List String) : List String → Option (List String)
  | [] => some here
  | name :: rest =>
    if isRedundant name then descend? here rest
    else if name == ".." then if here.isEmpty then none else descend? here.dropLast rest
    else descend? (here ++ [name]) rest

theorem descend?_nil (here : List String) : descend? here [] = some here := rfl

theorem descend?_cons (here : List String) (name : String) (rest : List String) :
    descend? here (name :: rest) =
      if isRedundant name then descend? here rest
      else if name == ".." then if here.isEmpty then none else descend? here.dropLast rest
      else descend? (here ++ [name]) rest :=
  rfl

/-- Names that never lead above the start lead to the same place below it wherever it is. -/
theorem follow_of_descend? {here there : List String} (arrives : descend? here names = some there)
    (site : List String) : follow (site ++ here) names = site ++ there := by
  induction names generalizing here with
  | nil =>
      cases arrives
      simp [follow]
  | cons name rest ih =>
      rw [descend?_cons] at arrives
      rw [← List.singleton_append, follow_append, ← List.nil_append [name], follow_concat]
      have start : follow (site ++ here) [] = site ++ here := by simp [follow]
      rw [start]
      split at arrives
      · rename_i redundant
        rw [if_pos redundant]
        exact ih arrives
      · rename_i kept
        rw [if_neg kept]
        split at arrives
        · rename_i up
          rw [if_pos up]
          split at arrives
          · cases arrives
          · rename_i notEmpty
            rw [List.dropLast_append_of_ne_nil (by simpa using notEmpty)]
            exact ih arrives
        · rename_i notUp
          rw [if_neg notUp, List.append_assoc]
          exact ih arrives

theorem descend?_of_proper (proper : Proper names) (here : List String) :
    descend? here names = some (here ++ names) := by
  induction names generalizing here with
  | nil => simp [descend?_nil]
  | cons name rest ih =>
      have isName := proper name (by simp)
      have further := ih fun other member => proper other (by simp [member])
      simp [descend?_cons, isName.notRedundant, isName.2.2, further]

theorem descend?_append (here names rest : List String) :
    descend? here (names ++ rest) = (descend? here names).bind (descend? · rest) := by
  induction names generalizing here with
  | nil => rfl
  | cons name names ih =>
      rw [List.cons_append, descend?_cons, descend?_cons]
      split
      · exact ih here
      · split
        · split
          · rfl
          · exact ih here.dropLast
        · exact ih (here ++ [name])

/-- Steps upwards lead to the directory that many levels up, if there are as many. -/
theorem descend?_ups (here : List String) (steps : Nat) :
    descend? here (List.replicate steps "..") =
      if steps ≤ here.length then some (here.take (here.length - steps)) else none := by
  induction steps generalizing here with
  | zero => simp [descend?_nil]
  | succ steps ih =>
      have notRedundant : isRedundant ".." = false := by decide
      rw [List.replicate_succ, descend?_cons, notRedundant, if_neg Bool.false_ne_true,
        if_pos (beq_self_eq_true _)]
      rcases List.eq_nil_or_concat here with rfl | ⟨front, last, rfl⟩
      · simp
      · rw [List.concat_eq_append, List.dropLast_concat, ih]
        have within : steps + 1 ≤ (front ++ [last]).length ↔ steps ≤ front.length := by simp
        have kept : (front ++ [last]).take ((front ++ [last]).length - (steps + 1)) =
            front.take (front.length - steps) := by
          rw [List.length_append, List.length_singleton, Nat.add_sub_add_right]
          exact List.take_append_of_le_length (Nat.sub_le _ _)
        simp only [within, kept]
        simp

/-- The text that names make up leads where the names lead. -/
theorem descend?_text (noSlash : ∀ name ∈ names, '/' ∉ name.toList) (here : List String) :
    descend? here (split ("/".intercalate names).toList) = descend? here names := by
  cases names with
  | nil =>
      have blank : split ("/".intercalate []).toList = [""] := by decide
      have redundant : isRedundant "" = true := by decide
      rw [blank]
      simp [descend?_cons, redundant]
  | cons name rest => rw [split_intercalate noSlash (List.cons_ne_nil name rest)]

/-! ## Paths that never lead upwards -/

/-- A path that starts at the root, with no slash left in a name. -/
structure Rooted (p : Path) : Prop where
  absolute : p.absolute = true
  noSlash : ∀ name ∈ p.names, '/' ∉ name.toList

/-- A path that starts at the root and never leads upwards. -/
structure Descends (p : Path) : Prop extends Rooted p where
  notUp : ".." ∉ p.names

theorem Plain.descends (plain : p.Plain) : p.Descends :=
  ⟨⟨plain.absolute, plain.proper.noSlash⟩, fun up => (plain.proper ".." up).2.2 rfl⟩

theorem Descends.proper_components (descends : p.Descends) : Proper p.components := by
  obtain ⟨⟨absolute, noSlash⟩, notUp⟩ := descends
  have components : p.components = p.names.filter (!isRedundant ·) := by
    simp [components, absolute]
  intro name member
  rw [components, List.mem_filter] at member
  obtain ⟨inside, kept⟩ := member
  simp only [isRedundant, Bool.not_eq_true', Bool.or_eq_false_iff, beq_eq_false_iff_ne] at kept
  exact ⟨⟨kept.1, noSlash name inside⟩, kept.2, fun up => notUp (up ▸ inside)⟩

theorem noSlash_ofString (text : String) : ∀ name ∈ (ofString text).names, '/' ∉ name.toList := by
  unfold ofString
  split <;> first
    | exact List.forall_mem_nil _
    | exact fun name member => noSlash_of_mem_split member

theorem mem_names_child {p : Path} {text : String} (member : name ∈ (p.child text).names) :
    name ∈ p.names ∨ name = "" ∨ name ∈ (ofString text).names := by
  unfold child join at member
  split at member
  · exact .inr (.inr member)
  · split at member
    · exact .inr (.inr member)
    · rcases List.mem_append.mp member with front | back
      · split at front
        · exact .inl (List.dropLast_subset _ front)
        · exact .inl front
      · split at back
        · exact .inr (.inl (List.mem_singleton.mp back))
        · exact .inr (.inr back)

theorem Rooted.child (rooted : p.Rooted) (text : String) : (p.child text).Rooted := by
  refine ⟨?_, fun name member => ?_⟩
  · unfold Path.child join
    split
    · assumption
    · split <;> exact rooted.absolute
  · rcases mem_names_child member with before | rfl | behind
    · exact rooted.noSlash name before
    · simp
    · exact noSlash_ofString text name behind

theorem Descends.child (descends : p.Descends) {text : String}
    (notUp : ".." ∉ (ofString text).names) : (p.child text).Descends := by
  refine ⟨descends.toRooted.child text, fun up => ?_⟩
  rcases mem_names_child up with before | blank | behind
  · exact descends.notUp before
  · exact absurd blank (by decide)
  · exact notUp behind

theorem Descends.child_name (descends : p.Descends) (part : IsPart name) (notUp : name ≠ "..") :
    (p.child name).Descends :=
  descends.child (by simpa [ofString_name part] using notUp.symm)

/-- What the spelling of a path comes to is a plain path. -/
theorem Rooted.normalize (rooted : p.Rooted) (base : Path) : (Path.normalize base p).Plain := by
  rw [normalize_of_absolute base p rooted.absolute]
  exact plain_ofNames.mpr (proper_follow proper_nil rooted.noSlash)

/-- A name does not become a step upwards by an extension. -/
theorem append_ne_up {suffix : String} (isName : IsName suffix) : name ++ suffix ≠ ".." := by
  obtain ⟨⟨notEmpty, -⟩, notDot, notDots⟩ := isName
  intro same
  have dots : (".." : String).toList = ['.', '.'] := rfl
  have chars := congrArg String.toList same
  rw [String.toList_append, dots] at chars
  rcases front : name.toList with _ | ⟨first, _ | ⟨second, others⟩⟩
  · rw [front, List.nil_append] at chars
    exact notDots (String.toList_inj.mp chars)
  · rw [front, List.singleton_append, List.cons.injEq] at chars
    exact notDot (String.toList_inj.mp chars.2)
  · simp only [front, List.cons_append, List.cons.injEq, List.append_eq_nil_iff] at chars
    exact notEmpty (String.toList_eq_nil_iff.mp chars.2.2.2)

theorem IsName.append {suffix : String} (isName : IsName name) (isSuffix : IsName suffix) :
    IsName (name ++ suffix) := by
  obtain ⟨⟨notEmpty, noSlash⟩, -⟩ := isName
  obtain ⟨⟨notEmpty', noSlash'⟩, -⟩ := id isSuffix
  refine ⟨⟨by simp [notEmpty], by simp [noSlash, noSlash']⟩, fun dot => ?_, append_ne_up isSuffix⟩
  have chars := congrArg String.toList dot
  rw [String.toList_append] at chars
  cases front : name.toList with
  | nil => exact notEmpty (String.toList_eq_nil_iff.mp front)
  | cons first rest =>
      have one : (".".toList : List Char) = ['.'] := rfl
      rw [front, one, List.cons_append, List.cons.injEq, List.append_eq_nil_iff] at chars
      exact notEmpty' (String.toList_eq_nil_iff.mp chars.2.2)

theorem appendToName_concat (absolute : Bool) (front : List String) {last suffix : String}
    (lastNoSlash : '/' ∉ last.toList) (suffixNoSlash : '/' ∉ suffix.toList) :
    (⟨absolute, front ++ [last]⟩ : Path).appendToName suffix =
      ⟨absolute, front ++ [last ++ suffix]⟩ := by
  have noSlash : '/' ∉ (last ++ suffix).toList := by simp [lastNoSlash, suffixNoSlash]
  simp only [appendToName, List.reverse_append, List.reverse_singleton, List.singleton_append,
    split_noSlash noSlash, List.reverse_reverse]

theorem Rooted.appendToName (rooted : p.Rooted) (suffix : String) :
    (p.appendToName suffix).Rooted := by
  obtain ⟨absolute, noSlash⟩ := rooted
  obtain ⟨isAbsolute, names⟩ := p
  rcases List.eq_nil_or_concat names with rfl | ⟨front, last, rfl⟩
  · exact ⟨absolute, fun name member => noSlash_of_mem_split member⟩
  · refine ⟨by simpa [Path.appendToName] using absolute, fun name member => ?_⟩
    have parts : name ∈ front ∨ name ∈ split (last ++ suffix).toList := by
      simpa [Path.appendToName] using member
    rcases parts with before | behind
    · exact noSlash name (by simp [before])
    · exact noSlash_of_mem_split behind

/-- A path that never leads upwards does so after a suffix at most at its very end. -/
theorem Descends.appendToName (descends : p.Descends) {suffix : String}
    (noSlash : '/' ∉ suffix.toList) :
    (p.appendToName suffix).Descends ∨ (p.appendToName suffix).names.getLast? = some ".." := by
  have rooted := descends.toRooted.appendToName suffix
  obtain ⟨⟨absolute, separate⟩, notUp⟩ := descends
  obtain ⟨isAbsolute, names⟩ := p
  obtain ⟨front, last, frontNotUp, spelled⟩ : ∃ front last, ".." ∉ front ∧
      (⟨isAbsolute, names⟩ : Path).appendToName suffix = ⟨isAbsolute, front ++ [last]⟩ := by
    rcases List.eq_nil_or_concat names with rfl | ⟨front, last, rfl⟩
    · refine ⟨[], suffix, List.not_mem_nil, ?_⟩
      rw [Path.appendToName, List.reverse_nil]
      exact congrArg (Path.mk isAbsolute) (split_noSlash noSlash)
    · rw [List.concat_eq_append] at separate notUp ⊢
      have lastNoSlash := separate last (by simp)
      exact ⟨front, last ++ suffix, fun up => notUp (List.mem_append_left _ up),
        appendToName_concat isAbsolute front lastNoSlash noSlash⟩
  rw [spelled] at rooted ⊢
  by_cases isUp : last = ".."
  · exact .inr (by simp [isUp])
  · exact .inl ⟨rooted, by simp [frontNotUp, Ne.symm isUp]⟩

/-! ## Extensions -/

/-- The text in front of the last dot is taken from the name. -/
theorem mem_splitExtension {name : String} {c : Char}
    (member : c ∈ (splitExtension name).1.toList) : c ∈ name.toList := by
  unfold splitExtension at member
  dsimp only at member
  split at member
  · rename_i stem dropped
    split at member
    · exact member
    · have behind : c ∈ name.toList.reverse.dropWhile (· != '.') := by
        rw [dropped]
        exact List.mem_cons_of_mem _ (by simpa using member)
      exact List.mem_reverse.mp (List.dropWhile_subset _ behind)
  · exact member

theorem IsName.withExtension {name : String} (isName : IsName name) :
    IsName ((splitExtension name).1 ++ "." ++ "js") := by
  have chars : ((splitExtension name).1 ++ "." ++ "js").toList =
      (splitExtension name).1.toList ++ ['.', 'j', 's'] := by simp
  have ne {text : String} (short : text.toList.length < 3) :
      (splitExtension name).1 ++ "." ++ "js" ≠ text := by
    rintro rfl
    rw [chars, List.length_append] at short
    exact absurd short (by simp)
  refine ⟨⟨ne (by decide), ?_⟩, ne (by decide), ne (by decide)⟩
  rw [chars]
  intro slash
  rcases List.mem_append.mp slash with front | back
  · exact isName.1.2 (mem_splitExtension front)
  · simp at back

theorem Proper.withExtension {front : List String} {name : String}
    (proper : Proper (front ++ [name])) :
    (ofNames (front ++ [name])).withExtension "js" =
      ofNames (front ++ [(splitExtension name).1 ++ "." ++ "js"]) := by
  have isName := proper name (by simp)
  have fileName : (ofNames (front ++ [name])).fileName? = some name := by
    simp [fileName?, ofNames, proper.trimEnd_eq, isName.2.1, isName.2.2]
  rw [Path.withExtension, fileName]
  simp [ofNames, proper.trimEnd_eq]

end FunctionArchive.Path
