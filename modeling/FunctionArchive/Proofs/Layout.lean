import FunctionArchive.Bundle
import FunctionArchive.Proofs.Path.Mounted
import FunctionArchive.Proofs.Path.Plain
import FunctionArchive.Proofs.Text.Utf8

/-!
# Names in an archive

Paths whose names are texts are laid out as they are spelled: their raw forms have nothing in common
that they have not in common themselves (`commonBase?_raw`), and a raw name that stands for a text
is shown as this text (`archiveName_eq_intercalate`, `linkTarget_eq_intercalate`).

An archive of plain paths starts at a directory above them all, and the name of each is what is left
of it below that directory (`baseOf_splits`). The names therefore tell the paths apart
(`archiveName_inj`), and a name lies below another only if its path does (`names_of_below`).

The text of a link is the way from the directory of the link to its target. Taken from the same
directory in the archive it leads to the target, unless the target lies outside of what is archived:
then it leads above the archive (`descend?_wayTo`).

An archive of some paths of a tree starts at the same directory of the tree wherever the tree stands
(`baseOf_mounted`), so the names in it are the same (`archiveName_mounted`), and so are the ways
that its links tell (`linkTarget_mounted`).
-/

set_option autoImplicit false

namespace FunctionArchive

namespace Layout

open Path (Plain Proper rawName)

variable {base base' : Path} {places : List Path}

/-! ## Raw forms -/

/-- The bytes of a raw name are those of the text. -/
theorem bytesOf_rawName (name : String) : bytesOf (rawName name) = Utf8.encode name := by
  rw [bytesOf, rawName, String.toList_ofList, List.map_map, Utf8.encode_eq]
  refine (List.map_congr_left fun b _ => ?_).trans (List.map_id _)
  have small : b.toNat.isValidChar := .inl (Nat.lt_trans b.toNat_lt (by decide))
  rw [Function.comp_apply, Utf8.toNat_char small, UInt8.ofNat_toNat]
  rfl

/-- A name that is a text is shown as it is. -/
theorem shown_rawName (name : String) : shown (rawName name) = name := by
  rw [shown, bytesOf_rawName, Utf8.decodeLossy_encode]

theorem rawName_injective : Function.Injective rawName :=
  Function.LeftInverse.injective shown_rawName

theorem map_shown_rawName (names : List String) : (names.map rawName).map shown = names := by
  rw [List.map_map]
  exact (List.map_congr_left fun name _ => shown_rawName name).trans (List.map_id names)

theorem rawName_empty : rawName "" = "" := by decide
theorem rawName_dot : rawName "." = "." := by decide
theorem rawName_dots : rawName ".." = ".." := by decide

theorem rawName_beq (name : String) {fixed : String} (same : rawName fixed = fixed) :
    (rawName name == fixed) = (name == fixed) := by
  rw [Bool.eq_iff_iff, beq_iff_eq, beq_iff_eq]
  nth_rewrite 1 [← same]
  exact rawName_injective.eq_iff

theorem isRedundant_rawName (name : String) :
    Path.isRedundant (rawName name) = Path.isRedundant name := by
  rw [Path.isRedundant, Path.isRedundant, rawName_beq name rawName_empty,
    rawName_beq name rawName_dot]

theorem isName_rawName (name : String) : isName (rawName name) = isName name := by
  rw [isName, isName, bne, bne, rawName_beq name rawName_dot,
    rawName_beq name rawName_dots, bne, bne]

theorem filter_map_rawName {kept : String → Bool} (same : ∀ name, kept (rawName name) = kept name)
    (names : List String) : (names.map rawName).filter kept = (names.filter kept).map rawName := by
  rw [List.filter_map]
  congr 2
  exact funext same

theorem components_raw (p : Path) : p.raw.components = p.components.map rawName := by
  have kept (names : List String) : (names.map rawName).filter (!Path.isRedundant ·) =
      (names.filter (!Path.isRedundant ·)).map rawName :=
    filter_map_rawName (fun name => congrArg not (isRedundant_rawName name)) names
  obtain ⟨absolute, names⟩ := p
  cases absolute with
  | true => exact kept names
  | false =>
      cases names with
      | nil => rfl
      | cons first rest =>
          by_cases dot : first = "."
          · subst dot
            show Path.components ⟨false, rawName "." :: rest.map rawName⟩ = _
            rw [rawName_dot]
            show "." :: (rest.map rawName).filter (!Path.isRedundant ·) = _
            rw [kept]
            show _ = ("." :: rest.filter (!Path.isRedundant ·)).map rawName
            rw [List.map_cons, rawName_dot]
          · have raw : rawName first ≠ "." := fun same =>
              dot (rawName_injective (same.trans rawName_dot.symm))
            have whole {name : String} {others : List String} (notDot : name ≠ ".") :
                (⟨false, name :: others⟩ : Path).components =
                  (name :: others).filter (!Path.isRedundant ·) :=
              Path.components_eq_filter fun _ starts => notDot (Option.some.inj starts)
            show Path.components ⟨false, rawName first :: rest.map rawName⟩ = _
            rw [whole raw, whole dot, ← List.map_cons, kept]

theorem trimEnd_raw (absolute : Bool) (names : List String) :
    Path.trimEnd absolute (names.map rawName) = (Path.trimEnd absolute names).map rawName := by
  have same : Path.isRedundant ∘ rawName = Path.isRedundant := funext isRedundant_rawName
  have dot : ((names.map rawName).head? == some ".") = (names.head? == some ".") := by
    cases names with
    | nil => rfl
    | cons name _ => simp [rawName_beq name rawName_dot]
  have front : ((names.map rawName).reverse.dropWhile Path.isRedundant).reverse =
      ((names.reverse.dropWhile Path.isRedundant).reverse).map rawName := by
    rw [← List.map_reverse, List.dropWhile_map, same, List.map_reverse]
  unfold Path.trimEnd
  dsimp only
  rw [front, dot, List.isEmpty_map]
  split
  · rw [List.map_singleton, rawName_dot]
  · rfl

theorem parent?_raw (p : Path) : p.raw.parent? = p.parent?.map Path.raw := by
  unfold Path.parent?
  dsimp only [Path.raw]
  rw [trimEnd_raw, List.isEmpty_map, ← List.map_dropLast, trimEnd_raw]
  split <;> rfl

theorem isPrefix_map_rawName {names names' : List String} :
    names.map rawName <+: names'.map rawName ↔ names <+: names' := by
  refine ⟨fun inFront => ?_, fun inFront => inFront.map rawName⟩
  have read := inFront.map shown
  rwa [map_shown_rawName, map_shown_rawName] at read

theorem relativeTo?_raw (p base : Path) :
    p.raw.relativeTo? base.raw = (p.relativeTo? base).map (List.map rawName) := by
  have within : (base.components.map rawName).isPrefixOf (p.components.map rawName) =
      base.components.isPrefixOf p.components := by
    rw [Bool.eq_iff_iff, List.isPrefixOf_iff_prefix, List.isPrefixOf_iff_prefix]
    exact isPrefix_map_rawName
  have alike : (p.raw.absolute == base.raw.absolute) = (p.absolute == base.absolute) := rfl
  unfold Path.relativeTo?
  rw [components_raw, components_raw, alike, within, List.length_map, ← List.map_drop]
  split <;> rfl

theorem isWithin_raw (p base : Path) : p.raw.isWithin base.raw = p.isWithin base := by
  rw [Path.isWithin, relativeTo?_raw, Option.isSome_map, Path.isWithin]

theorem above_raw (bound : Nat) (p : Path) :
    Path.above bound p.raw = (Path.above bound p).map Path.raw := by
  induction bound generalizing p with
  | zero => rfl
  | succ bound ih =>
      rw [Path.above, Path.above, parent?_raw]
      cases p.parent? with
      | none => rfl
      | some q => exact congrArg (q.raw :: ·) (ih q)

theorem shrinkTo_raw (p base : Path) :
    shrinkTo p.raw base.raw = (shrinkTo p base).map Path.raw := by
  have ancestors : base.raw.ancestors = base.ancestors.map Path.raw := by
    rw [Path.ancestors, Path.ancestors, above_raw, Path.raw, List.length_map, List.map_cons]
    rfl
  have within : p.raw.isWithin ∘ Path.raw = p.isWithin := funext (isWithin_raw p)
  rw [shrinkTo, shrinkTo, ancestors, List.find?_map, within]

/-- The raw forms of some paths have the raw form of their base as a base. -/
theorem commonBase?_raw (places : List Path) :
    commonBase? (places.map Path.raw) = (commonBase? places).map Path.raw := by
  have shrinks (base : Path) (rest : List Path) :
      shrinkToAll base.raw (rest.map Path.raw) = (shrinkToAll base rest).map Path.raw := by
    induction rest generalizing base with
    | nil => rfl
    | cons p rest ih =>
        rw [List.map_cons, shrinkToAll, shrinkToAll, shrinkTo_raw]
        cases shrinkTo p base with
        | none => rfl
        | some shrunk => exact ih shrunk
  cases places with
  | nil => rfl
  | cons first rest =>
      rw [List.map_cons, commonBase?, commonBase?, parent?_raw]
      cases first.parent? with
      | none => rfl
      | some base => exact shrinks base rest

theorem commonFront_map_rawName (names names' : List String) :
    commonFront (names.map rawName) (names'.map rawName) =
      (commonFront names names').map rawName := by
  fun_induction commonFront names names' with
  | case1 a as b bs same ih =>
      rw [beq_iff_eq] at same
      subst same
      rw [List.map_cons, List.map_cons, commonFront, if_pos (beq_self_eq_true _), ih, List.map_cons]
  | case2 a as b bs different =>
      rw [List.map_cons, List.map_cons, commonFront, if_neg, List.map_nil]
      rwa [beq_iff_eq, rawName_injective.eq_iff, ← beq_iff_eq]
  | case3 names names' none =>
      cases names with
      | nil => rfl
      | cons a as =>
          cases names' with
          | nil => rfl
          | cons b bs => exact absurd rfl (none a as b bs rfl)

theorem entryNames_raw (p base : Path) :
    entryNames p.raw base.raw = (entryNames p base).map rawName := by
  rw [entryNames, entryNames, relativeTo?_raw, components_raw, ← filter_map_rawName isName_rawName]
  cases p.relativeTo? base <;> rfl

theorem stepsTo_raw (target link : Path) : stepsTo target.raw link.raw =
    ((stepsTo target link).1, (stepsTo target link).2.map rawName) := by
  have origin : (link.raw.parent?.getD link.raw).components =
      (link.parent?.getD link).components.map rawName := by
    rw [parent?_raw, ← components_raw]
    cases link.parent? <;> rfl
  unfold stepsTo
  dsimp only
  rw [origin, components_raw, commonFront_map_rawName, List.length_map, List.length_map,
    List.map_drop]

/-- Where all names are texts, the name in an archive is made of them as they are. -/
theorem archiveName_eq_intercalate (p base : Path) :
    archiveName p base = "/".intercalate (entryNames p base) := by
  rw [archiveName, rawArchiveName, entryNames_raw, map_shown_rawName]

theorem linkTarget_eq_intercalate (target link : Path) : linkTarget target link =
    "/".intercalate (List.replicate (stepsTo target link).1 ".." ++ (stepsTo target link).2) := by
  rw [linkTarget, rawLinkTarget, stepsTo_raw]
  dsimp only
  rw [map_shown_rawName]

/-! ## The base of some paths -/

theorem of_shrinkTo {p : Path} (plain : base.Plain) (plain' : p.Plain)
    (shrinks : shrinkTo p base = some base') :
    base'.Plain ∧ base'.names <+: base.names ∧ base'.names <+: p.names := by
  have inside := List.find?_some shrinks
  have above := List.mem_of_find?_eq_some shrinks
  rw [plain.eq_ofNames, plain.proper.mem_ancestors] at above
  obtain ⟨front, inFront, rfl⟩ := above
  have proper := plain.proper.of_prefix inFront
  rw [plain'.eq_ofNames, plain'.proper.isWithin_iff proper] at inside
  exact ⟨Path.plain_ofNames.mpr proper, inFront, inside⟩

theorem of_shrinkToAll (plain : base.Plain) (allPlain : ∀ p ∈ places, p.Plain)
    (shrinks : shrinkToAll base places = some base') :
    base'.Plain ∧ base'.names <+: base.names ∧ ∀ p ∈ places, base'.names <+: p.names := by
  induction places generalizing base with
  | nil =>
      cases shrinks
      exact ⟨plain, List.prefix_rfl, List.forall_mem_nil _⟩
  | cons first rest ih =>
      obtain ⟨firstPlain, restPlain⟩ := List.forall_mem_cons.mp allPlain
      obtain ⟨mid, toFirst, toRest⟩ := Option.bind_eq_some_iff.mp shrinks
      obtain ⟨midPlain, below, inFirst⟩ := of_shrinkTo plain firstPlain toFirst
      obtain ⟨plain', below', inRest⟩ := ih midPlain restPlain toRest
      exact ⟨plain', below'.trans below, List.forall_mem_cons.mpr ⟨below'.trans inFirst, inRest⟩⟩

theorem of_commonBase? (allPlain : ∀ p ∈ places, p.Plain)
    (common : commonBase? places = some base) :
    base.Plain ∧ ∀ p ∈ places, base.names <+: p.names := by
  cases places with
  | nil => cases common
  | cons first rest =>
      obtain ⟨firstPlain, restPlain⟩ := List.forall_mem_cons.mp allPlain
      obtain ⟨directory, above, shrinks⟩ := Option.bind_eq_some_iff.mp common
      obtain ⟨plain, inFirst⟩ := firstPlain.parent above
      obtain ⟨plain', below, inRest⟩ := of_shrinkToAll plain restPlain shrinks
      exact ⟨plain', List.forall_mem_cons.mpr ⟨below.trans inFirst, inRest⟩⟩

/-! ## Names -/

theorem filter_isName {names : List String} (proper : Proper names) :
    names.filter isName = names := by
  refine List.filter_eq_self.mpr fun name member => ?_
  obtain ⟨-, notHere, notUp⟩ := proper name member
  simp [isName, notHere, notUp]

/-- The base of plain paths is plain, unless there is nothing that all of them lie in. -/
theorem baseOf_cases (allPlain : ∀ p ∈ places, p.Plain) :
    (Bundle.baseOf places = ⟨false, []⟩ ∨ (Bundle.baseOf places).Plain) ∧
      ∀ p ∈ places, (Bundle.baseOf places).names <+: p.names := by
  unfold Bundle.baseOf
  cases common : commonBase? places with
  | none => exact ⟨.inl rfl, fun _ _ => List.nil_prefix⟩
  | some base =>
      obtain ⟨plain, inFront⟩ := of_commonBase? allPlain common
      exact ⟨.inr plain, inFront⟩

/-- The base lies in the directory of the first path, or above it. -/
theorem baseOf_prefix_parent {first : Path} (allPlain : ∀ p ∈ first :: places, p.Plain) :
    (Bundle.baseOf (first :: places)).names <+: first.names.dropLast := by
  obtain ⟨firstPlain, restPlain⟩ := List.forall_mem_cons.mp allPlain
  unfold Bundle.baseOf
  cases common : commonBase? (first :: places) with
  | none => exact List.nil_prefix
  | some base =>
      obtain ⟨directory, above, shrinks⟩ := Option.bind_eq_some_iff.mp common
      have inFirst := of_shrinkToAll (firstPlain.parent above).1 restPlain shrinks
      rw [firstPlain.eq_of_parent above] at inFirst
      exact inFirst.2.1

/-- The names that lead to a plain path are what is left of it below the base. -/
theorem entryNames_eq {p : Path} (plain : p.Plain) (isBase : base = ⟨false, []⟩ ∨ base.Plain)
    (inside : base.names <+: p.names) : entryNames p base = p.names.drop base.names.length := by
  rcases isBase with rfl | basePlain
  · have apart : p.relativeTo? ⟨false, []⟩ = none := by
      simp [Path.relativeTo?, plain.absolute]
    have components : p.components = p.names := by
      rw [plain.eq_ofNames, plain.proper.components_eq]
      rfl
    rw [entryNames, apart, Option.getD_none, components, filter_isName plain.proper]
    rfl
  · obtain ⟨rest, names⟩ := inside
    have proper : Proper (base.names ++ rest) := names ▸ plain.proper
    have below : p.relativeTo? base = some rest := by
      rw [plain.eq_ofNames, ← names, basePlain.eq_ofNames, ← proper.relativeTo?_eq]
      rfl
    rw [entryNames, below, Option.getD_some,
      filter_isName (Path.proper_append.mp proper).2, ← names,
      List.drop_left]

/-- The name of a plain path is what is left of it below the base. -/
theorem archiveName_eq {p : Path} (plain : p.Plain) (isBase : base = ⟨false, []⟩ ∨ base.Plain)
    (inside : base.names <+: p.names) :
    archiveName p base = "/".intercalate (p.names.drop base.names.length) := by
  rw [archiveName_eq_intercalate, entryNames_eq plain isBase inside]

/-- The names of an archive of plain paths are what is left of the paths below its base. -/
theorem baseOf_splits (allPlain : ∀ p ∈ places, p.Plain) {p : Path} (member : p ∈ places) :
    ∃ rest, p.names = (Bundle.baseOf places).names ++ rest ∧
      archiveName p (Bundle.baseOf places) = "/".intercalate rest := by
  obtain ⟨isBase, inFront⟩ := baseOf_cases allPlain
  obtain ⟨rest, names⟩ := inFront p member
  refine ⟨rest, names.symm, ?_⟩
  rw [archiveName_eq (allPlain p member) isBase (inFront p member), ← names, List.drop_left]

variable {p q : Path}

theorem archiveName_inj (allPlain : ∀ p ∈ places, p.Plain) (inside : p ∈ places)
    (inside' : q ∈ places)
    (same : archiveName p (Bundle.baseOf places) = archiveName q (Bundle.baseOf places)) :
    p = q := by
  obtain ⟨rest, names, named⟩ := baseOf_splits allPlain inside
  obtain ⟨rest', names', named'⟩ := baseOf_splits allPlain inside'
  have plain := allPlain p inside
  have plain' := allPlain q inside'
  have proper := (Path.proper_append.mp (names ▸ plain.proper)).2
  have proper' := (Path.proper_append.mp (names' ▸ plain'.proper)).2
  have rests : rest = rest' := proper.text_inj proper' (named.symm.trans (same.trans named'))
  rw [plain.eq_ofNames, plain'.eq_ofNames, names, names', rests]

theorem names_of_below (allPlain : ∀ p ∈ places, p.Plain) (inside : p ∈ places)
    (inside' : q ∈ places) {text : String}
    (below : archiveName q (Bundle.baseOf places) =
      archiveName p (Bundle.baseOf places) ++ "/" ++ text) :
    ∃ rest, rest ≠ [] ∧ q.names = p.names ++ rest := by
  obtain ⟨rest, names, named⟩ := baseOf_splits allPlain inside
  obtain ⟨rest', names', named'⟩ := baseOf_splits allPlain inside'
  have proper := (Path.proper_append.mp (names ▸ (allPlain p inside).proper)).2
  have proper' := (Path.proper_append.mp (names' ▸ (allPlain q inside').proper)).2
  rw [named, named'] at below
  obtain ⟨more, some, rfl⟩ := proper.of_text_below proper' below
  exact ⟨more, some, by rw [names', names, List.append_assoc]⟩

/-! ## What two lists have in common at the front -/

theorem commonFront_prefix (names names' : List String) :
    commonFront names names' <+: names ∧ commonFront names names' <+: names' := by
  fun_induction commonFront names names' with
  | case1 a as b bs same ih =>
      rw [beq_iff_eq] at same
      subst same
      exact ⟨List.cons_prefix_cons.mpr ⟨rfl, ih.1⟩, List.cons_prefix_cons.mpr ⟨rfl, ih.2⟩⟩
  | case2 => exact ⟨List.nil_prefix, List.nil_prefix⟩
  | case3 => exact ⟨List.nil_prefix, List.nil_prefix⟩

/-- Nothing that two lists have in common at the front is longer. -/
theorem prefix_commonFront {front names names' : List String} (inFront : front <+: names)
    (inFront' : front <+: names') : front <+: commonFront names names' := by
  induction front generalizing names names' with
  | nil => exact List.nil_prefix
  | cons name front ih =>
      obtain ⟨rest, rfl⟩ := inFront
      obtain ⟨rest', rfl⟩ := inFront'
      rw [List.cons_append, List.cons_append, commonFront, if_pos (beq_self_eq_true name)]
      exact List.cons_prefix_cons.mpr
        ⟨rfl, ih (List.prefix_append front rest) (List.prefix_append front rest')⟩

theorem isPrefix_iff_length_commonFront {front names names' : List String}
    (inFront : front <+: names) : front <+: names' ↔
      front.length ≤ (commonFront names names').length := by
  obtain ⟨ofFirst, ofSecond⟩ := commonFront_prefix names names'
  refine ⟨fun inFront' => (prefix_commonFront inFront inFront').length_le, fun short => ?_⟩
  exact (List.prefix_of_prefix_length_le inFront ofFirst short).trans ofSecond

/-! ## The texts of links -/

/-- The names that make up the text of a link in the directory `origin` that leads to `target`. -/
def wayTo (target origin : List String) : List String :=
  List.replicate (origin.length - (commonFront origin target).length) ".." ++
    target.drop (commonFront origin target).length

theorem stepsTo_eq {target : Path} {front : List String} {name : String} (plain : target.Plain)
    (proper : Proper (front ++ [name])) : stepsTo target (.ofNames (front ++ [name])) =
      (front.length - (commonFront front target.names).length,
        target.names.drop (commonFront front target.names).length) := by
  have components : target.components = target.names := by
    rw [plain.eq_ofNames, plain.proper.components_eq]
    rfl
  have origin : (Path.ofNames front).components = front :=
    (proper.of_prefix (List.prefix_append _ _)).components_eq
  rw [stepsTo, proper.parent?_concat, Option.getD_some, origin, components]

theorem linkTarget_eq {target : Path} {front : List String} {name : String} (plain : target.Plain)
    (proper : Proper (front ++ [name])) :
    linkTarget target (.ofNames (front ++ [name])) =
      "/".intercalate (wayTo target.names front) := by
  rw [linkTarget_eq_intercalate, stepsTo_eq plain proper]
  rfl

theorem isPart_wayTo {target origin : List String} (proper : Proper target) :
    ∀ name ∈ wayTo target origin, Path.IsPart name := by
  have up : Path.IsPart ".." := by decide
  refine List.forall_mem_append.mpr ⟨fun name member => ?_, fun name member => ?_⟩
  · rw [List.eq_of_mem_replicate member]
    exact up
  · exact (proper name (List.mem_of_mem_drop member)).1

/-- The text of a link is empty only if the link leads to its own directory. -/
theorem text_wayTo_eq_empty_iff {target origin : List String} (proper : Proper target) :
    "/".intercalate (wayTo target origin) = "" ↔ target = origin := by
  obtain ⟨ofOrigin, ofTarget⟩ := commonFront_prefix origin target
  have parts : ∀ name ∈ wayTo target origin, Path.IsPart name := isPart_wayTo proper
  constructor
  · intro empty
    have none : wayTo target origin = [] := by
      by_contra some
      have read := Path.split_intercalate (fun name member => (parts name member).2) some
      rw [empty] at read
      exact (parts "" (read ▸ List.mem_singleton_self "")).1 rfl
    obtain ⟨noSteps, nothingLeft⟩ := List.append_eq_nil_iff.mp none
    have reachesOrigin := (List.replicate_eq_nil_iff _).mp noSteps
    have reachesTarget := List.drop_eq_nil_iff.mp nothingLeft
    exact (ofTarget.eq_of_length_le reachesTarget).symm.trans (ofOrigin.eq_of_length_le (by omega))
  · rintro rfl
    have whole :=
      (prefix_commonFront (List.prefix_refl target) (List.prefix_refl target)).eq_of_length_le
      ofTarget.length_le
    simp [wayTo, ← whole]

/-- From a directory below `front` the way leads to what is left of the target below `front`, or
above `front` if the target is not there. -/
theorem descend?_wayTo {target front inner : List String} (proper : Proper target) :
    Path.descend? inner (wayTo target (front ++ inner)) =
      if front <+: target then some (target.drop front.length) else none := by
  obtain ⟨ofOrigin, ofTarget⟩ := commonFront_prefix (front ++ inner) target
  have inside : front <+: target ↔
      front.length ≤ (commonFront (front ++ inner) target).length :=
    isPrefix_iff_length_commonFront (List.prefix_append front inner)
  have fits := ofOrigin.length_le
  rw [List.length_append] at fits
  have sameStart : (front ++ inner).take (commonFront (front ++ inner) target).length =
      target.take (commonFront (front ++ inner) target).length :=
    (List.prefix_iff_eq_take.mp ofOrigin).symm.trans (List.prefix_iff_eq_take.mp ofTarget)
  unfold wayTo
  generalize (commonFront (front ++ inner) target).length = shared at inside fits sameStart ⊢
  have within : (front ++ inner).length - shared ≤ inner.length ↔ front <+: target := by
    rw [inside, List.length_append]
    omega
  rw [Path.descend?_append, Path.descend?_ups]
  simp only [within]
  split
  · rename_i isInside
    have long := inside.mp isInside
    have left : Proper (target.drop shared) :=
      fun name member => proper name (List.mem_of_mem_drop member)
    have kept : inner.take (inner.length - ((front ++ inner).length - shared)) =
        (target.take shared).drop front.length := by
      rw [← sameStart, List.take_append, List.take_of_length_le long, List.drop_left]
      congr 1
      rw [List.length_append]
      omega
    rw [Option.bind_some, Path.descend?_of_proper left, kept]
    congr 1
    conv_rhs => rw [← List.take_append_drop shared target]
    rw [List.drop_append_of_le_length]
    have reaches := (congrArg List.length sameStart)
    simp only [List.length_take, List.length_append] at reaches ⊢
    omega
  · rfl

/-! ## Trees that stand somewhere -/

section Mounted

open Path (IsEntry mounted)

variable {site base front names names' : List String} {p first target : Path} {places : List Path}
  {name : String}

theorem shrinkToAll_mounted (proper : Proper base) (absolute : ∀ p ∈ places, p.absolute = true) :
    ∃ front, front <+: base ∧ (∀ p ∈ places, front <+: p.components) ∧ ∀ site, Proper site →
      shrinkToAll ((Path.ofNames base).mounted site) (places.map (mounted site)) =
        some ((Path.ofNames front).mounted site) := by
  induction places generalizing base with
  | nil => exact ⟨base, List.prefix_rfl, List.forall_mem_nil _, fun _ _ => rfl⟩
  | cons first rest ih =>
      obtain ⟨isAbsolute, others⟩ := List.forall_mem_cons.mp absolute
      obtain ⟨above, inBase, inFirst, shrinks⟩ := Path.find?_isWithin_mounted proper isAbsolute
      obtain ⟨front, inFront, inRest, shrinksOn⟩ := ih (proper.of_prefix inBase) others
      refine ⟨front, inFront.trans inBase, List.forall_mem_cons.mpr ⟨inFront.trans inFirst, inRest⟩,
        fun site properSite => ?_⟩
      rw [List.map_cons, shrinkToAll, shrinkTo, shrinks site properSite, Option.bind_some,
        shrinksOn site properSite]

/-- The base of some paths of a tree is the same directory of the tree wherever it stands. -/
theorem baseOf_mounted (isEntry : first.IsEntry) (absolute : ∀ p ∈ places, p.absolute = true) :
    ∃ base, Proper base ∧ (∀ p ∈ first :: places, base <+: p.components) ∧ ∀ site, Proper site →
      Bundle.baseOf ((first :: places).map (mounted site)) = (Path.ofNames base).mounted site := by
  obtain ⟨front, name, proper, rfl⟩ := isEntry
  have properFront := proper.of_prefix (List.prefix_append _ _)
  obtain ⟨base, inFront, inPlaces, shrinks⟩ := shrinkToAll_mounted properFront absolute
  refine ⟨base, properFront.of_prefix inFront, List.forall_mem_cons.mpr ⟨?_, inPlaces⟩,
    fun site properSite => ?_⟩
  · rw [proper.components_eq]
    exact inFront.trans (List.prefix_append _ _)
  · rw [Bundle.baseOf, List.map_cons, commonBase?, Path.parent?_mounted properSite proper,
      Option.bind_some, shrinks site properSite, Option.getD_some]

theorem archiveName_mounted (properSite : Proper site) (proper : Proper base)
    (absolute : p.absolute = true) (inside : base <+: p.components) :
    archiveName (p.mounted site) ((Path.ofNames base).mounted site) =
      archiveName p (.ofNames base) := by
  obtain ⟨rest, below⟩ := inside
  have relative := Path.relativeTo?_ofNames proper absolute below
  rw [archiveName_eq_intercalate, archiveName_eq_intercalate, entryNames, entryNames,
    Path.relativeTo?_mounted properSite absolute rfl, relative, Option.getD_some, Option.getD_some]

theorem commonFront_append (site names names' : List String) :
    commonFront (site ++ names) (site ++ names') = site ++ commonFront names names' := by
  induction site with
  | nil => rfl
  | cons first rest ih =>
      rw [List.cons_append, List.cons_append, commonFront, ih]
      simp

/-- The directory of an entry, by its components. -/
theorem components_parent (redundant : Path.isRedundant name = false) :
    ((Path.ofNames (front ++ [name])).parent?.getD (.ofNames (front ++ [name]))).components =
      front.filter (!Path.isRedundant ·) := by
  have parent : (Path.ofNames (front ++ [name])).parent? =
      some ⟨true, Path.trimEnd true front⟩ := by
    simp [Path.parent?, Path.ofNames, Path.trimEnd_concat true front redundant]
  rw [parent, Option.getD_some, Path.components_of_absolute rfl, Path.filter_trimEnd]

/-- The way from a link of a tree to its target is the same wherever the tree stands. -/
theorem stepsTo_mounted (proper : Proper site) (absolute : target.absolute = true)
    (redundant : Path.isRedundant name = false) :
    stepsTo (target.mounted site) ((Path.ofNames (front ++ [name])).mounted site) =
      stepsTo target (.ofNames (front ++ [name])) := by
  unfold stepsTo
  rw [Path.mounted_ofNames, ← List.append_assoc, components_parent redundant,
    components_parent redundant, Path.components_mounted proper absolute, List.filter_append,
    proper.filter_eq]
  dsimp only
  rw [commonFront_append]
  have past (count : Nat) : site.drop (site.length + count) = [] :=
    List.drop_eq_nil_of_le (Nat.le_add_right _ _)
  simp [List.drop_append, past, Nat.add_sub_add_left]

theorem linkTarget_mounted (proper : Proper site) (absolute : target.absolute = true)
    (redundant : Path.isRedundant name = false) :
    linkTarget (target.mounted site) ((Path.ofNames (front ++ [name])).mounted site) =
      linkTarget target (.ofNames (front ++ [name])) := by
  rw [linkTarget_eq_intercalate, linkTarget_eq_intercalate,
    stepsTo_mounted proper absolute redundant]

end Mounted

end Layout

end FunctionArchive
