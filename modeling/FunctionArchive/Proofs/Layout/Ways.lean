import FunctionArchive.Proofs.Disk.Lookup
import FunctionArchive.Proofs.Layout

/-!
# The base of an archive and the ways in it

To shrink a directory until a path lies in it is to keep what the two have in common at the front
(`shrinkTo_eq`). So what lies at or above the base of some paths is what lies above all of them, and
that does not depend on their order (`exists_commonBase?`).

If none of the paths lies in another, the base is above every one of them. Then the names in the
archive are not empty, lead from the base back to the paths, and are as far from each other as the
paths are (`commonBase?_layout`).

From a directory one comes to another by going up to what the two have in common at the front, and
down from there. No way is shorter: one name of a way leads up or down by one directory, so it
brings the target nearer by one name at most (`length_wayTo_follow`). The text of a link is that
way. Read from the directory of the link it leads to the target; all its steps upwards come first;
no relative path with fewer segments leads there; and it stays the same when both paths are moved
below another directory (`linkTarget_shortest`).
-/

set_option autoImplicit false

namespace FunctionArchive.Layout

open Path (Plain Proper follow rawName)

variable {front names names' base rest origin target : List String} {p q first : Path}
  {places : List Path} {name : String}

/-! ## Fronts in common -/

/-- What two lists have in common at the front is what is in front of both. -/
theorem prefix_commonFront_iff :
    front <+: commonFront names names' ↔ front <+: names ∧ front <+: names' := by
  obtain ⟨ofFirst, ofSecond⟩ := commonFront_prefix names names'
  exact ⟨fun inFront => ⟨inFront.trans ofFirst, inFront.trans ofSecond⟩,
    fun ⟨inFirst, inSecond⟩ => prefix_commonFront inFirst inSecond⟩

/-- Lists that have the same in front of them are the same. -/
theorem eq_of_prefixes (same : ∀ front, front <+: names ↔ front <+: names') : names = names' := by
  have long := (same names).mp (List.prefix_refl names)
  have short := (same names').mpr (List.prefix_refl names')
  exact long.eq_of_length_le short.length_le

/-- Names in front of a path that are not all of its names lead to the directory of its last name
or above. -/
theorem prefix_dropLast_iff (some : names ≠ []) :
    front <+: names.dropLast ↔ front <+: names ∧ front ≠ names := by
  obtain ⟨before, last, rfl⟩ := (List.eq_nil_or_concat names).resolve_left some
  rw [List.concat_eq_append, List.dropLast_concat, List.prefix_concat_iff]
  constructor
  · intro inFront
    refine ⟨.inr inFront, ?_⟩
    rintro rfl
    exact absurd inFront.length_le (by simp)
  · rintro ⟨whole | inFront, notWhole⟩
    · exact absurd whole notWhole
    · exact inFront

/-! ## Shrinking -/

theorem shrinkTo_eq (plain : p.Plain) (proper : Proper base) :
    shrinkTo p (.ofNames base) = some (.ofNames (commonFront base p.names)) := by
  have within {front : List String} (proper : Proper front) :
      p.isWithin (.ofNames front) = true ↔ front <+: p.names := by
    rw [plain.eq_ofNames, plain.proper.isWithin_iff proper]
    rfl
  unfold shrinkTo
  induction base using List.reverseRecOn with
  | nil =>
      have inside := (within Path.proper_nil).mpr List.nil_prefix
      rw [Path.ancestors_root, List.find?_cons_of_pos inside]
      rfl
  | append_singleton base name ih =>
      rw [proper.ancestors_concat]
      by_cases inside : base ++ [name] <+: p.names
      · have whole : commonFront (base ++ [name]) p.names = base ++ [name] :=
          eq_of_prefixes fun front => by
            rw [prefix_commonFront_iff, and_iff_left_of_imp (·.trans inside)]
        rw [List.find?_cons_of_pos ((within proper).mpr inside), whole]
      · -- The path is not in this directory, so nothing more is in common with it than above.
        have shorter : commonFront (base ++ [name]) p.names = commonFront base p.names :=
          eq_of_prefixes fun front => by
            rw [prefix_commonFront_iff, prefix_commonFront_iff, List.prefix_concat_iff]
            refine and_congr_left fun inPath => or_iff_right ?_
            rintro rfl
            exact inside inPath
        rw [List.find?_cons_of_neg (mt (within proper).mp inside), shorter]
        exact ih (proper.of_prefix (List.prefix_append _ _))

/-- A directory can be shrunk to any paths, and what is at or above the result is what is at or
above the directory and all paths. -/
theorem exists_shrinkToAll (allPlain : ∀ p ∈ places, p.Plain) (proper : Proper base) :
    ∃ shrunk, Proper shrunk ∧ shrinkToAll (.ofNames base) places = some (.ofNames shrunk) ∧
      ∀ front, front <+: shrunk ↔ front <+: base ∧ ∀ p ∈ places, front <+: p.names := by
  induction places generalizing base with
  | nil => exact ⟨base, proper, rfl, by simp⟩
  | cons first rest ih =>
      obtain ⟨plain, others⟩ := List.forall_mem_cons.mp allPlain
      obtain ⟨inBase, -⟩ := commonFront_prefix base first.names
      obtain ⟨shrunk, isProper, shrinks, fronts⟩ := ih others (proper.of_prefix inBase)
      refine ⟨shrunk, isProper, ?_, fun front => ?_⟩
      · rw [shrinkToAll, shrinkTo_eq plain proper, Option.bind_some, shrinks]
      · rw [fronts, prefix_commonFront_iff, List.forall_mem_cons, and_assoc]

/-- Paths of which none is the root have a base. At or above it is what is above the first path and
at or above the others. -/
theorem exists_commonBase? (plain : first.Plain) (notRoot : first.names ≠ [])
    (allPlain : ∀ p ∈ places, p.Plain) :
    ∃ base, Proper base ∧ commonBase? (first :: places) = some (.ofNames base) ∧
      ∀ front, front <+: base ↔
        front <+: first.names.dropLast ∧ ∀ p ∈ places, front <+: p.names := by
  obtain ⟨before, last, names⟩ := (List.eq_nil_or_concat first.names).resolve_left notRoot
  rw [List.concat_eq_append] at names
  have proper : Proper (before ++ [last]) := names ▸ plain.proper
  obtain ⟨base, isProper, shrinks, fronts⟩ :=
    exists_shrinkToAll allPlain (proper.of_prefix (List.prefix_append _ _))
  refine ⟨base, isProper, ?_, ?_⟩
  · rw [commonBase?, plain.eq_ofNames, names, proper.parent?_concat, Option.bind_some, shrinks]
  · rw [names, List.dropLast_concat]
    exact fronts

/-! ## Paths beside each other -/

/-- A directory is above a path. -/
def Above (directory p : Path) : Prop := p.isWithin directory = true ∧ p ≠ directory

theorem above_iff (plain : q.Plain) (plain' : p.Plain) :
    Above q p ↔ q.names <+: p.names ∧ q.names ≠ p.names := by
  rw [Above, plain.eq_ofNames, plain'.eq_ofNames, plain'.proper.isWithin_iff plain.proper]
  simp [Path.ofNames, eq_comm]

/-- Plain paths other than the root, none of which lies in another. -/
structure Separate (places : List Path) : Prop where
  plain : ∀ p ∈ places, p.Plain
  notRoot : ∀ p ∈ places, p ≠ .root
  apart : ∀ p ∈ places, ∀ q ∈ places, p.isWithin q = true → p = q

theorem Separate.names_ne_nil (separate : Separate places) (member : p ∈ places) :
    p.names ≠ [] := by
  intro none
  refine separate.notRoot p member ?_
  rw [(separate.plain p member).eq_ofNames, none]
  rfl

/-- What is above the first of some paths, and at or above the others, is above all of them. -/
theorem Separate.above_all (separate : Separate (first :: places)) (plain : q.Plain) :
    (q.names <+: first.names.dropLast ∧ ∀ p ∈ places, q.names <+: p.names) ↔
      ∀ p ∈ first :: places, Above q p := by
  have isFirst : first ∈ first :: places := List.mem_cons_self
  have firstPlain := separate.plain first isFirst
  rw [List.forall_mem_cons, above_iff plain firstPlain,
    prefix_dropLast_iff (separate.names_ne_nil isFirst)]
  refine and_congr_right fun ⟨inFirst, notFirst⟩ => forall₂_congr fun p member => ?_
  have among := List.mem_cons_of_mem first member
  have isPlain := separate.plain p among
  rw [above_iff plain isPlain]
  refine (and_iff_left_of_imp fun _ same => notFirst ?_).symm
  -- A path at which the directory is lies above the first one, so it is the first one.
  have within : first.isWithin p = true := by
    rw [firstPlain.eq_ofNames, isPlain.eq_ofNames, firstPlain.proper.isWithin_iff isPlain.proper,
      ← same]
    exact inFirst
  rw [same, separate.apart first isFirst p among within]

/-- In whatever order the paths are given, their base is the deepest directory above all of them. -/
theorem Separate.exists_base (separate : Separate places) (some : places ≠ []) :
    ∃ base, Proper base ∧ (∀ p ∈ places, Above (.ofNames base) p) ∧
      (∀ q : Path, q.Plain → (∀ p ∈ places, Above q p) → q.names <+: base) ∧
      commonBase? places = .some (.ofNames base) := by
  obtain ⟨first, others, rfl⟩ := List.exists_cons_of_ne_nil some
  obtain ⟨plain, allPlain⟩ := List.forall_mem_cons.mp separate.plain
  obtain ⟨base, proper, common, fronts⟩ :=
    exists_commonBase? plain (separate.names_ne_nil List.mem_cons_self) allPlain
  refine ⟨base, proper, ?_, fun q isPlain above => ?_, common⟩
  · exact (separate.above_all (Path.plain_ofNames.mpr proper)).mp
      ((fronts base).mp (List.prefix_refl base))
  · exact (fronts q.names).mpr ((separate.above_all isPlain).mpr above)

theorem Separate.of_same {order : List Path} (separate : Separate places)
    (same : ∀ p, p ∈ order ↔ p ∈ places) : Separate order where
  plain p member := separate.plain p ((same p).mp member)
  notRoot p member := separate.notRoot p ((same p).mp member)
  apart p member q member' := separate.apart p ((same p).mp member) q ((same q).mp member')

theorem Separate.commonBase?_of_same {order : List Path} (separate : Separate places)
    (some : places ≠ []) (same : ∀ p, p ∈ order ↔ p ∈ places) :
    commonBase? order = commonBase? places := by
  have some' : order ≠ [] := by
    obtain ⟨p, member⟩ := List.exists_mem_of_ne_nil places some
    exact List.ne_nil_of_mem ((same p).mpr member)
  obtain ⟨base, proper, above, deepest, common⟩ := separate.exists_base some
  obtain ⟨base', proper', above', deepest', common'⟩ := (separate.of_same same).exists_base some'
  have long := deepest' _ (Path.plain_ofNames.mpr proper)
    fun p member => above p ((same p).mp member)
  have short := deepest _ (Path.plain_ofNames.mpr proper')
    fun p member => above' p ((same p).mpr member)
  have equal : base = base' := long.eq_of_length_le short.length_le
  rw [common, common', equal]

/-! ## Names that are shown -/

/-- A raw name: each character of it is a byte. -/
def IsRaw (name : String) : Prop := ∀ c ∈ name.toList, c.toNat < 256

instance (name : String) : Decidable (IsRaw name) :=
  List.decidableBAll (fun c : Char => c.toNat < 256) name.toList

/-- A raw name that stands for a text. -/
def IsText (name : String) : Prop := ∃ text, rawName text = name

/-- The names of a path that lead on from `base` stand for texts. -/
def TextBelow (base p : Path) : Prop := ∀ name ∈ p.names.drop base.names.length, IsText name

/-- What stands for a text stands for the one that is shown for it. -/
theorem isText_iff (name : String) : IsText name ↔ rawName (shown name) = name := by
  refine ⟨?_, fun same => ⟨shown name, same⟩⟩
  rintro ⟨text, rfl⟩
  rw [shown_rawName]

instance (name : String) : Decidable (IsText name) := decidable_of_iff _ (isText_iff name).symm

/-- Names that are shown can be read back exactly if all of them are texts. -/
theorem map_rawName_shown_iff :
    (names.map shown).map rawName = names ↔ ∀ name ∈ names, IsText name := by
  rw [List.map_map]
  nth_rewrite 2 [← List.map_id names]
  rw [List.map_inj_left]
  exact forall₂_congr fun name _ => (isText_iff name).symm

theorem toList_of_bytesOf (raw : IsRaw name) :
    (bytesOf name).map (fun b => Char.ofNat b.toNat) = name.toList := by
  rw [bytesOf, List.map_map]
  refine (List.map_congr_left fun c member => ?_).trans (List.map_id _)
  rw [Function.comp_apply, Utf8.toNat_ofNat (raw c member), Char.ofNat_toNat, id]

/-- A text in ASCII is shown for one raw name only. -/
theorem eq_of_shown {text : String} (raw : IsRaw name) (shows : shown name = text)
    (ascii : text.toList.all (·.toNat < 0x80) = true) : name = text := by
  have each : ∀ c ∈ text.toList, c.toNat < 0x80 := by simpa using ascii
  have raw' : IsRaw text := fun c member => (each c member).trans (by decide)
  have bytes : bytesOf name = bytesOf text := Utf8.eq_of_decodeLossy shows each
  exact String.toList_inj.mp <| calc name.toList
    _ = (bytesOf name).map (fun b => Char.ofNat b.toNat) := (toList_of_bytesOf raw).symm
    _ = (bytesOf text).map (fun b => Char.ofNat b.toNat) := by rw [bytes]
    _ = text.toList := toList_of_bytesOf raw'

/-- What is shown for the name of an entry could be the name of an entry. -/
theorem isName_shown (raw : IsRaw name) (isName : Path.IsName name) : Path.IsName (shown name) := by
  obtain ⟨⟨some, noSlash⟩, notHere, notUp⟩ := isName
  refine ⟨⟨fun none => some ?_, fun slash => noSlash ?_⟩, fun here => notHere ?_,
    fun up => notUp ?_⟩
  · exact eq_of_shown raw none (by decide)
  · obtain ⟨c, member, same⟩ := List.mem_map.mp (Utf8.mem_of_decodeLossy slash (by decide))
    have number := congrArg UInt8.toNat same
    rw [Utf8.toNat_ofNat (raw c member), Utf8.toNat_ofNat (by decide)] at number
    rwa [← Char.toNat_inj.mp number]
  · exact eq_of_shown raw here (by decide)
  · exact eq_of_shown raw up (by decide)

theorem proper_map_shown (raw : ∀ name ∈ names, IsRaw name) (proper : Proper names) :
    Proper (names.map shown) := by
  refine List.forall_mem_map.mpr fun name member => ?_
  exact isName_shown (raw name member) (proper name member)

/-- A name of an entry that is a text is the name of an entry by its bytes as well. -/
theorem isName_raw (isName : Path.IsName name) : Path.IsName (rawName name) := by
  obtain ⟨⟨some, noSlash⟩, notHere, notUp⟩ := isName
  have only {fixed : String} (same : rawName fixed = fixed) (isFixed : rawName name = fixed) :
      name = fixed := rawName_injective (isFixed.trans same.symm)
  refine ⟨⟨mt (only rawName_empty) some, fun slash => ?_⟩, mt (only rawName_dot) notHere,
    mt (only rawName_dots) notUp⟩
  have byte : .ofNat '/'.toNat ∈ bytesOf (rawName name) := List.mem_map_of_mem slash
  rw [bytesOf_rawName] at byte
  exact Utf8.notMem_encode (by decide) noSlash byte

theorem proper_map_rawName (proper : Proper names) : Proper (names.map rawName) :=
  List.forall_mem_map.mpr fun name member => isName_raw (proper name member)

/-! ## Names below the base -/

/-- A text of names of entries is read as the relative path through them. -/
theorem ofString_text (parts : ∀ name ∈ names, Path.IsPart name) (some : names ≠ []) :
    Path.ofString ("/".intercalate names) = ⟨false, names⟩ := by
  have read := Path.split_intercalate (fun name member => (parts name member).2) some
  obtain ⟨first, others, rfl⟩ := List.exists_cons_of_ne_nil some
  unfold Path.ofString
  split
  · rename_i empty
    rw [empty] at read
    cases read
    exact absurd rfl (parts "" List.mem_cons_self).1
  · rename_i slash
    rw [slash] at read
    cases read
    exact absurd rfl (parts "" List.mem_cons_self).1
  · rename_i chars _ slash
    rw [slash] at read
    rw [← List.nil_append ('/' :: chars), Path.split_append] at read
    cases read
    exact absurd rfl (parts "" List.mem_cons_self).1
  · rw [read]

/-- The steps between two places below a directory are those between what is left of them. -/
theorem steps_append (site target origin : List String) :
    ((site ++ origin).length - (commonFront (site ++ origin) (site ++ target)).length,
      (site ++ target).drop (commonFront (site ++ origin) (site ++ target)).length) =
      (origin.length - (commonFront origin target).length,
        target.drop (commonFront origin target).length) := by
  have past (count : Nat) : site.drop (site.length + count) = [] :=
    List.drop_eq_nil_of_le (Nat.le_add_right _ _)
  rw [commonFront_append]
  simp [List.drop_append, past, Nat.add_sub_add_left]

theorem wayTo_append (site target origin : List String) :
    wayTo (site ++ target) (site ++ origin) = wayTo target origin :=
  congrArg (fun steps : Nat × List String => List.replicate steps.1 ".." ++ steps.2)
    (steps_append site target origin)

/-- The steps from a relative path to another one. -/
theorem stepsTo_relative (proper : Proper target) (proper' : Proper (front ++ [name])) :
    stepsTo ⟨false, target⟩ ⟨false, front ++ [name]⟩ =
      (front.length - (commonFront front target).length,
        target.drop (commonFront front target).length) := by
  have components {names : List String} (proper : Proper names) :
      (⟨false, names⟩ : Path).components = names := by
    refine (Path.components_eq_filter fun _ => ?_).trans proper.filter_eq
    rintro starts
    exact (proper "." (List.mem_of_mem_head? starts)).2.1 rfl
  have properFront : Proper front := proper'.of_prefix (List.prefix_append _ _)
  have isName := proper' name (by simp)
  have origin : (((⟨false, front ++ [name]⟩ : Path).parent?).getD
      ⟨false, front ++ [name]⟩).components = front := by
    have above : (⟨false, front ++ [name]⟩ : Path).parent? =
        some ⟨false, Path.trimEnd false front⟩ := by
      simp [Path.parent?, Path.trimEnd_concat _ _ isName.notRedundant]
    have concat := Path.components_concat false front isName.notRedundant
    rw [components proper', List.append_left_inj] at concat
    rw [above, Option.getD_some, ← concat]
  rw [stepsTo, origin, components proper]

/-- The name in an archive of a raw path below the base is made up of what is shown for the names
that are left of the path. -/
theorem rawArchiveName_below (proper : Proper (base ++ rest)) (some : rest ≠ [])
    (raw : ∀ name ∈ rest, IsRaw name) :
    rawArchiveName (.ofNames (base ++ rest)) (.ofNames base) = "/".intercalate (rest.map shown) ∧
      Path.ofString ("/".intercalate (rest.map shown)) = ⟨false, rest.map shown⟩ := by
  obtain ⟨properBase, properRest⟩ := Path.proper_append.mp proper
  have isShown := proper_map_shown raw properRest
  refine ⟨?_, ofString_text (fun name member => (isShown name member).1) (by simpa using some)⟩
  have left : entryNames (.ofNames (base ++ rest)) (.ofNames base) =
      (base ++ rest).drop base.length :=
    entryNames_eq (Path.plain_ofNames.mpr proper) (.inr (Path.plain_ofNames.mpr properBase))
      (List.prefix_append base rest)
  rw [rawArchiveName, left, List.drop_left]

section Above

variable (proper : Proper base) (plain : p.Plain) (above : Above (.ofNames base) p)

include proper plain above

/-- From a directory above a path at least one name leads down to it. -/
theorem Above.splits : ∃ front name, p = .ofNames (base ++ (front ++ [name])) ∧
    Proper (base ++ (front ++ [name])) := by
  obtain ⟨⟨rest, names⟩, notAll⟩ := (above_iff (Path.plain_ofNames.mpr proper) plain).mp above
  rcases List.eq_nil_or_concat rest with rfl | ⟨front, name, rfl⟩
  · rw [List.append_nil] at names
    exact absurd names notAll
  · rw [List.concat_eq_append] at names
    refine ⟨front, name, ?_, names ▸ plain.proper⟩
    rw [plain.eq_ofNames, ← names]
    rfl

theorem Above.reads (raw : ∀ name ∈ p.names, IsRaw name) : ∃ front name,
    p = .ofNames (base ++ (front ++ [name])) ∧ Proper (base ++ (front ++ [name])) ∧
      Proper ((front ++ [name]).map shown) ∧
      rawArchiveName p (.ofNames base) = "/".intercalate ((front ++ [name]).map shown) ∧
      Path.ofString (rawArchiveName p (.ofNames base)) = ⟨false, (front ++ [name]).map shown⟩ := by
  obtain ⟨front, name, rfl, isProper⟩ := above.splits proper plain
  have rawRest : ∀ part ∈ front ++ [name], IsRaw part := fun part member =>
    raw part (List.mem_append_right base member)
  obtain ⟨named, read⟩ := rawArchiveName_below isProper (by simp) rawRest
  refine ⟨front, name, rfl, isProper, ?_, named, named ▸ read⟩
  exact proper_map_shown rawRest (Path.proper_append.mp isProper).2

/-- The name of a path below the base is made up of names, and leads back to the path exactly if the
names that are left of the path are texts. -/
theorem Above.archiveName_leads (raw : ∀ name ∈ p.names, IsRaw name) :
    rawArchiveName p (.ofNames base) ≠ "" ∧
      (∀ part ∈ Path.split (rawArchiveName p (.ofNames base)).toList,
        part ≠ "" ∧ part ≠ "." ∧ part ≠ "..") ∧
      ((Path.ofNames base).join (Path.ofString (rawArchiveName p (.ofNames base))).raw = p ↔
        TextBelow (.ofNames base) p) := by
  obtain ⟨front, name, rfl, isProper, isShown, named, read⟩ := above.reads proper plain raw
  refine ⟨fun empty => ?_, ?_, ?_⟩
  · rw [empty] at read
    exact absurd (congrArg Path.names read) (by simp [Path.ofString])
  · rw [named, Path.split_intercalate isShown.noSlash (by simp)]
    exact fun part among => ⟨(isShown part among).1.1, (isShown part among).2⟩
  · have joined : (Path.ofNames base).join ⟨false, ((front ++ [name]).map shown).map rawName⟩ =
        .ofNames (base ++ ((front ++ [name]).map shown).map rawName) := by
      rw [Path.join_of_relative _ rfl (by simp), proper.stem_eq]
      rfl
    have left : (Path.ofNames (base ++ (front ++ [name]))).names.drop
        (Path.ofNames base).names.length =
        front ++ [name] := List.drop_left
    rw [read, Path.raw, joined, TextBelow, left, ← map_rawName_shown_iff]
    simp [Path.ofNames]

/-- Between two paths below the base the way is the one between their names, if what is left of them
are texts. -/
theorem Above.linkTarget_names (raw : ∀ name ∈ p.names, IsRaw name)
    (texts : TextBelow (.ofNames base) p) (plain' : q.Plain) (above' : Above (.ofNames base) q)
    (raw' : ∀ name ∈ q.names, IsRaw name) (texts' : TextBelow (.ofNames base) q) :
    rawLinkTarget q p = linkTarget (.ofString (rawArchiveName q (.ofNames base)))
      (.ofString (rawArchiveName p (.ofNames base))) := by
  obtain ⟨front, name, rfl, isProper, -, -, read⟩ := above.reads proper plain raw
  obtain ⟨front', name', rfl, isProper', -, -, read'⟩ := above'.reads proper plain' raw'
  have back {rest : List String} (texts : TextBelow (.ofNames base) (.ofNames (base ++ rest))) :
      (⟨false, rest.map shown⟩ : Path).raw = ⟨false, rest⟩ := by
    have left : (Path.ofNames (base ++ rest)).names.drop (Path.ofNames base).names.length = rest :=
      List.drop_left
    rw [TextBelow, left, ← map_rawName_shown_iff] at texts
    rw [Path.raw, texts]
  have steps : stepsTo (.ofNames (base ++ (front' ++ [name'])))
      (.ofNames (base ++ (front ++ [name]))) =
      stepsTo ⟨false, front' ++ [name']⟩ ⟨false, front ++ [name]⟩ := by
    rw [stepsTo_relative (Path.proper_append.mp isProper').2 (Path.proper_append.mp isProper).2,
      ← steps_append base, ← List.append_assoc base front,
      stepsTo_eq plain' (by rwa [List.append_assoc])]
    rfl
  rw [read, read', linkTarget, back texts, back texts', rawLinkTarget, rawLinkTarget, steps]

end Above

/-- **The layout of an archive can be read back, as far as names are texts.** For raw paths of which
none is the root or lies in another, in whatever order they are given, the base is the deepest
directory above all of them. The name of each path in the archive is not empty and has no segment
that is not a name. From the base it leads to the path exactly if all names of the path below the
base stand for texts. Paths of which this is true have different names if they are different, and
from one of them to another it is as far, by the same way, as from the one's name to the other's. -/
theorem commonBase?_layout (some : places ≠ []) (separate : Separate places)
    (raw : ∀ p ∈ places, ∀ name ∈ p.names, IsRaw name) :
    ∃ base : Path, base.Plain ∧
      (∀ order : List Path, (∀ p, p ∈ order ↔ p ∈ places) → commonBase? order = .some base) ∧
      (∀ p ∈ places, Above base p) ∧
      (∀ q : Path, q.Plain → (∀ p ∈ places, Above q p) → base.isWithin q = true) ∧
      (∀ p ∈ places, rawArchiveName p base ≠ "" ∧
        (∀ part ∈ Path.split (rawArchiveName p base).toList, part ≠ "" ∧ part ≠ "." ∧ part ≠ "..") ∧
        (base.join (Path.ofString (rawArchiveName p base)).raw = p ↔ TextBelow base p)) ∧
      ∀ p ∈ places, ∀ q ∈ places, TextBelow base p → TextBelow base q →
        (rawArchiveName p base = rawArchiveName q base → p = q) ∧
          rawLinkTarget q p =
            linkTarget (.ofString (rawArchiveName q base)) (.ofString (rawArchiveName p base)) := by
  obtain ⟨base, proper, above, deepest, common⟩ := separate.exists_base some
  have names (p : Path) (member : p ∈ places) :=
    (above p member).archiveName_leads proper (separate.plain p member) (raw p member)
  refine ⟨.ofNames base, Path.plain_ofNames.mpr proper, fun order same => ?_, above,
    fun q isPlain isAbove => ?_, names, fun p member q member' texts texts' => ⟨fun same => ?_, ?_⟩⟩
  · rw [separate.commonBase?_of_same some same, common]
  · rw [isPlain.eq_ofNames, proper.isWithin_iff isPlain.proper]
    exact deepest q isPlain isAbove
  · rw [← (names p member).2.2.mpr texts, same, (names q member').2.2.mpr texts']
  · exact (above p member).linkTarget_names proper (separate.plain p member) (raw p member) texts
      (separate.plain q member') (above q member') (raw q member') texts'

/-- Two files and a link of a project. -/
def projectPlaces : List Path :=
  [.ofNames ["repo", "app", "src", "a.js"], .ofNames ["repo", "node_modules", "p", "index.js"],
    .ofNames ["repo", "app", "up"]]

/-- The base of a project, in either order of its places, and the way from a script to a package. -/
theorem commonBase?_layout_project :
    projectPlaces ≠ [] ∧ Separate projectPlaces ∧
      (∀ p ∈ projectPlaces, ∀ name ∈ p.names, IsRaw name) ∧
      commonBase? projectPlaces.reverse = some (.ofNames ["repo"]) ∧
      (∀ p ∈ projectPlaces, (Path.ofNames ["repo"]).join
        (Path.ofString (rawArchiveName p (.ofNames ["repo"]))).raw = p) ∧
      linkTarget (.ofString "node_modules/p/index.js") (.ofString "app/src/a.js") =
        "../../node_modules/p/index.js" := by
  have plain : ∀ p ∈ projectPlaces, p.absolute = true ∧ ∀ name ∈ p.names, Path.IsName name := by
    decide
  have separate : Separate projectPlaces :=
    ⟨fun p member => ⟨(plain p member).1, (plain p member).2⟩, by decide, by decide⟩
  have raw : ∀ p ∈ projectPlaces, ∀ name ∈ p.names, IsRaw name := by decide
  have texts : ∀ p ∈ projectPlaces, TextBelow (.ofNames ["repo"]) p := by
    unfold TextBelow
    decide
  obtain ⟨base, -, common, -, -, names, ways⟩ := commonBase?_layout (by decide) separate raw
  have isBase : commonBase? projectPlaces = some (.ofNames ["repo"]) := by decide
  cases (common projectPlaces fun _ => Iff.rfl).symm.trans isBase
  refine ⟨by decide, separate, raw, common _ fun _ => List.mem_reverse,
    fun p member => (names p member).2.2.mpr (texts p member), ?_⟩
  have script : .ofNames ["repo", "app", "src", "a.js"] ∈ projectPlaces := by decide
  have package : .ofNames ["repo", "node_modules", "p", "index.js"] ∈ projectPlaces := by decide
  obtain ⟨-, way⟩ := ways _ script _ package (texts _ script) (texts _ package)
  have named : rawArchiveName (.ofNames ["repo", "node_modules", "p", "index.js"])
      (.ofNames ["repo"]) = "node_modules/p/index.js" := by decide
  have named' : rawArchiveName (.ofNames ["repo", "app", "src", "a.js"]) (.ofNames ["repo"]) =
      "app/src/a.js" := by decide
  rw [named, named'] at way
  exact way.symm.trans (by decide)

/-- Two files beside each other whose names are no texts. They have the same name in the archive,
and from the base it leads to neither of them. -/
theorem rawArchiveName_collides :
    let places : List Path := [.ofNames ["a", "f\xff"], .ofNames ["a", "f\xfe"]]
    Separate places ∧ (∀ p ∈ places, ∀ name ∈ p.names, IsRaw name) ∧
      commonBase? places = some (.ofNames ["a"]) ∧
      ∀ p ∈ places, rawArchiveName p (.ofNames ["a"]) = "f\uFFFD" ∧
        (Path.ofNames ["a"]).join (Path.ofString "f\uFFFD").raw ≠ p := by
  intro places
  have plain : ∀ p ∈ places, p.absolute = true ∧ ∀ name ∈ p.names, Path.IsName name := by decide
  exact ⟨⟨fun p member => ⟨(plain p member).1, (plain p member).2⟩, by decide, by decide⟩,
    by decide, by decide, by decide⟩

/-! ## The way to a target -/

theorem length_wayTo (target origin : List String) : (wayTo target origin).length =
    (origin.length - (commonFront origin target).length) +
      (target.length - (commonFront origin target).length) := by
  simp [wayTo]

theorem wayTo_self (target : List String) : wayTo target target = [] := by
  have whole : commonFront target target = target := eq_of_prefixes fun front => by
    rw [prefix_commonFront_iff, and_self]
  simp [wayTo, whole]

/-- Up to what a place has in common with the target, and down from there. -/
theorem follow_steps (proper : Proper names) (origin target : List String) :
    follow origin
        (List.replicate (origin.length - (commonFront origin target).length) ".." ++ names) =
      commonFront origin target ++ names := by
  obtain ⟨ofOrigin, -⟩ := commonFront_prefix origin target
  have up : Path.descend? origin
      (List.replicate (origin.length - (commonFront origin target).length) "..") =
        some (commonFront origin target) := by
    rw [Path.descend?_ups, if_pos (Nat.sub_le _ _), Nat.sub_sub_self ofOrigin.length_le,
      ← List.prefix_iff_eq_take.mp ofOrigin]
  have arrives : Path.descend? origin
      (List.replicate (origin.length - (commonFront origin target).length) ".." ++ names) =
        some (commonFront origin target ++ names) := by
    rw [Path.descend?_append, up, Option.bind_some, Path.descend?_of_proper proper]
  simpa using Path.follow_of_descend? arrives []

/-! ## No way is shorter -/

/-- Going up leaves no more in common with the target. -/
theorem length_commonFront_dropLast (origin target : List String) :
    (commonFront origin.dropLast target).length ≤ (commonFront origin target).length := by
  obtain ⟨ofOrigin, ofTarget⟩ := commonFront_prefix origin.dropLast target
  exact (prefix_commonFront (ofOrigin.trans (List.dropLast_prefix origin)) ofTarget).length_le

/-- Going down by one name leaves at most one name more in common with the target. -/
theorem length_commonFront_concat (origin target : List String) (name : String) :
    (commonFront (origin ++ [name]) target).length ≤ (commonFront origin target).length + 1 := by
  obtain ⟨ofOrigin, ofTarget⟩ := commonFront_prefix (origin ++ [name]) target
  generalize commonFront (origin ++ [name]) target = front at ofOrigin ofTarget ⊢
  have shorter : front.dropLast <+: origin := by
    rcases List.prefix_concat_iff.mp ofOrigin with rfl | inOrigin
    · simp
    · exact (List.dropLast_prefix front).trans inOrigin
  have most := (prefix_commonFront shorter ((List.dropLast_prefix front).trans ofTarget)).length_le
  rw [List.length_dropLast] at most
  omega

/-- One name brings the target nearer by one name at most, and a redundant one does not at all. -/
theorem length_wayTo_step (target origin : List String) (name : String) :
    (wayTo target origin).length ≤ (wayTo target (follow origin [name])).length +
      ([name].filter (!Path.isRedundant ·)).length := by
  have one := Path.follow_concat origin [] name
  have start : follow origin [] = origin := by simp [follow]
  obtain ⟨ofOrigin, ofTarget⟩ := commonFront_prefix origin target
  have inOrigin := ofOrigin.length_le
  have inTarget := ofTarget.length_le
  rw [List.nil_append, start] at one
  rw [one]
  cases redundant : Path.isRedundant name with
  | true => simp
  | false =>
      have counts : ([name].filter (!Path.isRedundant ·)).length = 1 := by simp [redundant]
      rw [counts, length_wayTo, length_wayTo, if_neg Bool.false_ne_true]
      split
      · have fewer := length_commonFront_dropLast origin target
        rw [List.length_dropLast]
        omega
      · have fewer := length_commonFront_concat origin target name
        rw [List.length_append, List.length_singleton]
        omega

/-- However one goes on, what is left of the way and the names that were gone through are together
no fewer than the names of the way. -/
theorem length_wayTo_follow (target origin names : List String) :
    (wayTo target origin).length ≤ (wayTo target (follow origin names)).length +
      (names.filter (!Path.isRedundant ·)).length := by
  induction names using List.reverseRecOn with
  | nil => simp [follow]
  | append_singleton names name ih =>
      have step := length_wayTo_step target (follow origin names) name
      rw [← Path.follow_append] at step
      rw [List.filter_append, List.length_append]
      omega

/-- No relative path that leads to the target has fewer components than the way has names. -/
theorem length_wayTo_le (proper : Proper origin) (relative : p.absolute = false)
    (leads : Path.normalize (.ofNames origin) p = .ofNames target) :
    (wayTo target origin).length ≤ p.components.length := by
  have arrives : follow origin p.names = target := by
    rw [Path.normalize_of_relative _ _ relative] at leads
    have start : follow [] (Path.ofNames origin).names = origin := proper.follow_eq []
    rw [start] at leads
    exact congrArg Path.names leads
  have most := length_wayTo_follow target origin p.names
  rw [arrives, wayTo_self, List.length_nil, Nat.zero_add, ← Disk.filter_components p] at most
  exact most.trans (List.length_filter_le _ _)

/-! ## The text of a link -/

theorem wayTo_ne_nil (proper : Proper target) (elsewhere : target ≠ origin) :
    wayTo target origin ≠ [] := by
  intro none
  refine elsewhere ((text_wayTo_eq_empty_iff proper).mp ?_)
  rw [none]
  rfl

/-- The text of a link is read as the way to its target. -/
theorem ofString_wayTo (proper : Proper target) (elsewhere : target ≠ origin) :
    Path.ofString ("/".intercalate (wayTo target origin)) = ⟨false, wayTo target origin⟩ :=
  ofString_text (isPart_wayTo proper) (wayTo_ne_nil proper elsewhere)

/-- Steps upwards and names of entries are the components of the relative path through them. -/
theorem components_steps (ups : Nat) (proper : Proper names) :
    (⟨false, List.replicate ups ".." ++ names⟩ : Path).components =
      List.replicate ups ".." ++ names := by
  have up : Path.isRedundant ".." = false := by decide
  have kept : ∀ name ∈ List.replicate ups ".." ++ names, Path.isRedundant name = false := by
    refine List.forall_mem_append.mpr ⟨fun name member => ?_, fun name member => ?_⟩
    · rw [List.eq_of_mem_replicate member, up]
    · exact (proper name member).notRedundant
  have noDot : (List.replicate ups ".." ++ names).head? ≠ some "." := fun starts => by
    simpa [Path.isRedundant] using kept "." (List.mem_of_mem_head? starts)
  rw [Path.components_eq_filter fun _ => noDot]
  exact List.filter_eq_self.mpr fun name member => by simp [kept name member]

/-- The text of a link to a raw path: steps upwards, and what is shown for the names of the target
that the directory of the link has not in common with it. -/
theorem rawLinkTarget_eq {target : Path} (plain : target.Plain)
    (proper : Proper (front ++ [name])) :
    rawLinkTarget target (.ofNames (front ++ [name])) = "/".intercalate
      (List.replicate (front.length - (commonFront front target.names).length) ".." ++
        (target.names.drop (commonFront front target.names).length).map shown) := by
  rw [rawLinkTarget, stepsTo_eq plain proper]

theorem ofString_rawLinkTarget {target : Path} (plain : target.Plain)
    (raw : ∀ name ∈ target.names, IsRaw name) (proper : Proper (front ++ [name]))
    (elsewhere : target.names ≠ front) :
    Path.ofString (rawLinkTarget target (.ofNames (front ++ [name]))) =
      ⟨false, List.replicate (front.length - (commonFront front target.names).length) ".." ++
        (target.names.drop (commonFront front target.names).length).map shown⟩ := by
  have some := wayTo_ne_nil plain.proper elsewhere
  rw [wayTo] at some
  rw [rawLinkTarget_eq plain proper]
  refine ofString_text (List.forall_mem_append.mpr ⟨fun part member => ?_, ?_⟩)
    (by simpa using some)
  · rw [List.eq_of_mem_replicate member]
    decide
  · refine List.forall_mem_map.mpr fun part member => ?_
    have among := List.mem_of_mem_drop member
    exact (isName_shown (raw part among) (plain.proper part among)).1

/-- Read from the directory `origin`, the text leads to the target exactly if the names that are not
in common are texts. -/
theorem normalize_steps_iff (proper : Proper target) (raw : ∀ name ∈ target, IsRaw name)
    (properOrigin : Proper origin) :
    Path.normalize (.ofNames origin) (Path.raw
      ⟨false, List.replicate (origin.length - (commonFront origin target).length) ".." ++
        (target.drop (commonFront origin target).length).map shown⟩) = .ofNames target ↔
      ∀ name ∈ target.drop (commonFront origin target).length, IsText name := by
  obtain ⟨-, ofTarget⟩ := commonFront_prefix origin target
  have whole := List.prefix_iff_eq_append.mp ofTarget
  have left : Proper (target.drop (commonFront origin target).length) := fun name member =>
    proper name (List.mem_of_mem_drop member)
  have rawLeft : ∀ name ∈ target.drop (commonFront origin target).length, IsRaw name :=
    fun name member => raw name (List.mem_of_mem_drop member)
  have start : follow [] (Path.ofNames origin).names = origin := properOrigin.follow_eq []
  rw [← map_rawName_shown_iff, Path.normalize_of_relative _ _ rfl, start, Path.raw, List.map_append,
    List.map_replicate, rawName_dots,
    follow_steps (proper_map_rawName (proper_map_shown rawLeft left))]
  constructor
  · intro same
    exact List.append_cancel_left ((congrArg Path.names same).trans whole.symm)
  · intro same
    rw [same, whole]

/-- **The text of a link is the shortest way to its target, as far as names are texts.** Unless the
target is the directory of the link, the text is a relative path that is not empty, with all steps
upwards in front. From the directory of the link it leads to the target exactly if the names of the
target that are not in common with this directory stand for texts. No relative path with fewer
components leads there; and the text is the same when both paths are moved below another
directory. -/
theorem linkTarget_shortest {target link directory : Path} (plain : link.Plain)
    (plain' : target.Plain) (raw : ∀ name ∈ target.names, IsRaw name)
    (above : link.parent? = some directory) (elsewhere : target ≠ directory) :
    rawLinkTarget target link ≠ "" ∧ (Path.ofString (rawLinkTarget target link)).absolute = false ∧
      (∃ ups names, (Path.ofString (rawLinkTarget target link)).components =
        List.replicate ups ".." ++ names ∧ ".." ∉ names) ∧
      (Path.normalize directory (Path.ofString (rawLinkTarget target link)).raw = target ↔
        TextBelow (.ofNames (commonFront directory.names target.names)) target) ∧
      (∀ p : Path, p.absolute = false → Path.normalize directory p = target →
        (Path.ofString (rawLinkTarget target link)).components.length ≤ p.components.length) ∧
      ∀ site, Proper site →
        rawLinkTarget (target.mounted site) (link.mounted site) = rawLinkTarget target link := by
  obtain ⟨front, name, names⟩ : ∃ front name, link.names = front ++ [name] := by
    rcases List.eq_nil_or_concat link.names with none | ⟨front, name, names⟩
    · rw [plain.eq_ofNames, none, Path.parent?_root] at above
      cases above
    · exact ⟨front, name, by rw [names, List.concat_eq_append]⟩
  have isLink : link = .ofNames (front ++ [name]) := by rw [plain.eq_ofNames, names]
  have proper : Proper (front ++ [name]) := names ▸ plain.proper
  have properFront : Proper front := proper.of_prefix (List.prefix_append _ _)
  have isTarget : target = .ofNames target.names := plain'.eq_ofNames
  obtain rfl : directory = .ofNames front := by
    rw [plain.eq_of_parent above, names, List.dropLast_concat]
  have different : target.names ≠ front := by
    rintro rfl
    exact elsewhere isTarget
  have read := ofString_rawLinkTarget plain' raw proper different
  have left : ∀ part ∈ target.names.drop (commonFront front target.names).length, IsRaw part :=
    fun part member => raw part (List.mem_of_mem_drop member)
  have isShown := proper_map_shown left fun part member =>
    plain'.proper part (List.mem_of_mem_drop member)
  have components :=
    components_steps (front.length - (commonFront front target.names).length) isShown
  rw [← isLink] at read
  rw [read, components]
  refine ⟨fun empty => ?_, rfl, ⟨_, _, rfl, fun up => (isShown ".." up).2.2 rfl⟩, ?_,
    fun p relative leads => ?_, fun site properSite => ?_⟩
  · rw [empty] at read
    obtain ⟨noSteps, noNames⟩ := List.append_eq_nil_iff.mp (congrArg Path.names read).symm
    refine wayTo_ne_nil plain'.proper different ?_
    rw [wayTo, noSteps, List.map_eq_nil_iff.mp noNames]
    rfl
  · rw [isTarget]
    exact normalize_steps_iff plain'.proper raw properFront
  · have shortest := length_wayTo_le properFront relative (leads.trans isTarget)
    rw [wayTo] at shortest
    simpa using shortest
  · rw [isLink, rawLinkTarget, rawLinkTarget,
      stepsTo_mounted properSite plain'.absolute (proper name (by simp)).notRedundant]

/-- A link beside a package of another directory. -/
theorem linkTarget_shortest_shared :
    let link := Path.ofNames ["repo", "app", "node_modules", "shared"]
    let target := Path.ofNames ["repo", "libs", "shared"]
    let directory := Path.ofNames ["repo", "app", "node_modules"]
    link.Plain ∧ target.Plain ∧ (∀ name ∈ target.names, IsRaw name) ∧
      link.parent? = some directory ∧ target ≠ directory ∧
      rawLinkTarget target link = "../../libs/shared" ∧
      Path.normalize directory (Path.ofString "../../libs/shared").raw = target ∧
      (∀ p : Path, p.absolute = false → Path.normalize directory p = target →
        4 ≤ p.components.length) := by
  intro link target directory
  have plain : link.Plain := Path.plain_ofNames.mpr (by unfold Path.Proper; decide)
  have plain' : target.Plain := Path.plain_ofNames.mpr (by unfold Path.Proper; decide)
  have raw : ∀ name ∈ target.names, IsRaw name := by decide
  have above : link.parent? = some directory := by decide
  have elsewhere : target ≠ directory := by decide
  have text : rawLinkTarget target link = "../../libs/shared" := by decide
  have texts : TextBelow (.ofNames (commonFront directory.names target.names)) target := by
    unfold TextBelow
    decide
  obtain ⟨-, -, -, leads, shortest, -⟩ := linkTarget_shortest plain plain' raw above elsewhere
  rw [text] at leads shortest
  exact ⟨plain, plain', raw, above, elsewhere, text, leads.mpr texts, shortest⟩

/-- A link beside a file whose name is no text. Its text does not lead to the file. -/
theorem rawLinkTarget_astray :
    let link := Path.ofNames ["a", "l"]
    let target := Path.ofNames ["a", "f\xff"]
    let directory := Path.ofNames ["a"]
    link.Plain ∧ target.Plain ∧ (∀ name ∈ target.names, IsRaw name) ∧
      link.parent? = some directory ∧ target ≠ directory ∧ rawLinkTarget target link = "f\uFFFD" ∧
      Path.normalize directory (Path.ofString (rawLinkTarget target link)).raw ≠ target := by
  intro link target directory
  have plain : link.Plain := Path.plain_ofNames.mpr (by unfold Path.Proper; decide)
  have plain' : target.Plain := Path.plain_ofNames.mpr (by unfold Path.Proper; decide)
  have raw : ∀ name ∈ target.names, IsRaw name := by decide
  exact ⟨plain, plain', raw, by decide, by decide, by decide, by decide⟩

end FunctionArchive.Layout
