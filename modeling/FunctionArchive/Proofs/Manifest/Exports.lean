import FunctionArchive.Manifest.Exports
import FunctionArchive.Proofs.Json.Spelling

/-!
# What export maps say

What a value of an export map means is given by rules on values (`Means`), and so is the answer of
a map to a subpath (`Answers`): a map without subpaths speaks of the package itself alone; in a map
of subpaths an equal key decides, and otherwise the longest key whose parts before and behind its
first star enclose the subpath without an overlap. The rules determine the answer, and it is the one
that is looked up (`exportTarget?_follows`). The order of the subpaths matters only between keys of
one length that describe the same subpath.
-/

set_option autoImplicit false

namespace FunctionArchive.Manifest

/-! ## Values -/

/-- The conditions that hold for a `require`. -/
def Accepted (condition : String) : Prop :=
  condition = "require" ∨ condition = "node" ∨ condition = "default"

/-- Which file a value means, if any: a text itself, the first alternative that means one, or the
first of the accepted conditions that does. -/
inductive Means : Json → Option String → Prop
  | text (target : String) : Means (.string target) (some target)
  | alternative {front back : List Json} {item : Json} {target : String}
      (unusable : ∀ other ∈ front, Means other none) (usable : Means item (some target)) :
      Means (.array (front ++ item :: back)) (some target)
  | noAlternative {items : List Json} (unusable : ∀ item ∈ items, Means item none) :
      Means (.array items) none
  | condition {front back : List (String × Json)} {condition target : String} {value : Json}
      (unusable : ∀ other ∈ front, Accepted other.1 → Means other.2 none)
      (accepted : Accepted condition) (usable : Means value (some target)) :
      Means (.object (front ++ (condition, value) :: back)) (some target)
  | noCondition {entries : List (String × Json)}
      (unusable : ∀ entry ∈ entries, Accepted entry.1 → Means entry.2 none) :
      Means (.object entries) none
  | null : Means .null none
  | bool (b : Bool) : Means (.bool b) none
  | number (n : JsonNumber) : Means (.number n) none

theorem contains_requireConditions {condition : String} :
    requireConditions.contains condition = true ↔ Accepted condition := by
  simp [requireConditions, Accepted]

theorem firstAlternative?_eq_none {items : List Json}
    (unusable : ∀ item ∈ items, conditionalTarget? item = none) :
    firstAlternative? items = none := by
  induction items with
  | nil => rfl
  | cons item rest ih =>
      obtain ⟨here, later⟩ := List.forall_mem_cons.mp unusable
      rw [firstAlternative?, here, Option.none_or, ih later]

theorem firstAlternative?_append {front back : List Json} {item : Json} {target : String}
    (unusable : ∀ other ∈ front, conditionalTarget? other = none)
    (usable : conditionalTarget? item = some target) :
    firstAlternative? (front ++ item :: back) = some target := by
  induction front with
  | nil => rw [List.nil_append, firstAlternative?, usable, Option.some_or]
  | cons other rest ih =>
      obtain ⟨here, later⟩ := List.forall_mem_cons.mp unusable
      rw [List.cons_append, firstAlternative?, here, Option.none_or, ih later]

theorem firstCondition?_eq_none {entries : List (String × Json)}
    (unusable : ∀ entry ∈ entries, Accepted entry.1 → conditionalTarget? entry.2 = none) :
    firstCondition? entries = none := by
  induction entries with
  | nil => rfl
  | cons entry rest ih =>
      obtain ⟨here, later⟩ := List.forall_mem_cons.mp unusable
      rw [firstCondition?, ih later]
      split
      · next accepted => rw [here (contains_requireConditions.mp accepted), Option.none_or]
      · rfl

theorem firstCondition?_append {front back : List (String × Json)} {condition target : String}
    {value : Json} (unusable : ∀ other ∈ front, Accepted other.1 →
      conditionalTarget? other.2 = none)
    (accepted : Accepted condition) (usable : conditionalTarget? value = some target) :
    firstCondition? (front ++ (condition, value) :: back) = some target := by
  induction front with
  | nil =>
      rw [List.nil_append, firstCondition?,
        if_pos (contains_requireConditions.mpr accepted), usable,
        Option.some_or]
  | cons other rest ih =>
      obtain ⟨here, later⟩ := List.forall_mem_cons.mp unusable
      rw [List.cons_append, firstCondition?, ih later]
      split
      · next accepted => rw [here (contains_requireConditions.mp accepted), Option.none_or]
      · rfl

theorem Means.conditionalTarget?_eq {value : Json} {target : Option String}
    (means : Means value target) : conditionalTarget? value = target := by
  induction means with
  | text target => rfl
  | alternative _ _ unusable usable => exact firstAlternative?_append unusable usable
  | noAlternative _ unusable => exact firstAlternative?_eq_none unusable
  | condition _ accepted _ unusable usable => exact firstCondition?_append unusable accepted usable
  | noCondition _ unusable => exact firstCondition?_eq_none unusable
  | null | bool | number => rfl

mutual

/-- Every value means something, or nothing. -/
theorem exists_means : (value : Json) → ∃ target, Means value target
  | .null => ⟨none, .null⟩
  | .bool b => ⟨none, .bool b⟩
  | .number n => ⟨none, .number n⟩
  | .string target => ⟨some target, .text target⟩
  | .array items => by
      rcases exists_alternative items with unusable | ⟨front, item, back, target, rfl, before, here⟩
      · exact ⟨none, .noAlternative unusable⟩
      · exact ⟨some target, .alternative before here⟩
  | .object entries => by
      rcases exists_condition entries with
        unusable | ⟨front, condition, value, back, target, rfl, before, accepted, here⟩
      · exact ⟨none, .noCondition unusable⟩
      · exact ⟨some target, .condition before accepted here⟩

theorem exists_alternative : (items : List Json) →
    (∀ item ∈ items, Means item none) ∨
      ∃ front item back target, items = front ++ item :: back ∧
        (∀ other ∈ front, Means other none) ∧ Means item (some target)
  | [] => .inl (List.forall_mem_nil _)
  | item :: rest => by
      obtain ⟨target?, means⟩ := exists_means item
      cases target? with
      | some target => exact .inr ⟨[], item, rest, target, rfl, List.forall_mem_nil _, means⟩
      | none =>
          rcases exists_alternative rest with unusable |
            ⟨front, item', back, target, rfl, before, here⟩
          · exact .inl (List.forall_mem_cons.mpr ⟨means, unusable⟩)
          · exact .inr ⟨item :: front, item', back, target, rfl,
              List.forall_mem_cons.mpr ⟨means, before⟩, here⟩

theorem exists_condition : (entries : List (String × Json)) →
    (∀ entry ∈ entries, Accepted entry.1 → Means entry.2 none) ∨
      ∃ front condition value back target, entries = front ++ (condition, value) :: back ∧
        (∀ other ∈ front, Accepted other.1 → Means other.2 none) ∧ Accepted condition ∧
        Means value (some target)
  | [] => .inl (List.forall_mem_nil _)
  | (condition, value) :: rest => by
      obtain ⟨target?, means⟩ := exists_means value
      by_cases usable : Accepted condition ∧ target?.isSome = true
      · obtain ⟨accepted, isSome⟩ := usable
        obtain ⟨target, rfl⟩ := Option.isSome_iff_exists.mp isSome
        exact .inr ⟨[], condition, value, rest, target, rfl, List.forall_mem_nil _, accepted, means⟩
      · have here : Accepted condition → Means value none := fun accepted => by
          have nothing : target? = none := by simpa [accepted] using usable
          exact nothing ▸ means
        rcases exists_condition rest with
          unusable | ⟨front, condition', value', back, target, rfl, before, accepted, means'⟩
        · exact .inl (List.forall_mem_cons.mpr ⟨here, unusable⟩)
        · exact .inr ⟨(condition, value) :: front, condition', value', back, target, rfl,
            List.forall_mem_cons.mpr ⟨here, before⟩, accepted, means'⟩

end

/-! ## Keys with a star -/

/-- The text that the star of a key stands for in a subpath: what lies in front of the first star
and what lies behind it enclose the text and do not overlap. -/
def Describes (key subpath text : String) : Prop :=
  ∃ front back : String, key = front ++ "*" ++ back ∧ '*' ∉ front.toList ∧
    subpath = front ++ text ++ back

theorem takeWhile_noStar {front : List Char} (noStar : '*' ∉ front) (rest : List Char) :
    (front ++ rest).takeWhile (· != '*') = front ++ rest.takeWhile (· != '*') := by
  refine List.takeWhile_append_of_pos fun c member => ?_
  rw [bne_iff_ne]
  rintro rfl
  exact noStar member

theorem underStar?_star {front back subpath : List Char} (noStar : '*' ∉ front) :
    underStar? (front ++ '*' :: back) subpath =
      if front.isPrefixOf subpath then
        let rest := subpath.drop front.length
        if back.isSuffixOf rest then some (rest.take (rest.length - back.length)) else none
      else none := by
  have star : ('*' :: back).takeWhile (· != '*') = [] := rfl
  simp only [underStar?, takeWhile_noStar noStar, star, List.append_nil, List.drop_left]

theorem underStar?_noStar {key subpath : List Char} (noStar : '*' ∉ key) :
    underStar? key subpath = none := by
  have whole : key.takeWhile (· != '*') = key := by simpa using takeWhile_noStar noStar []
  simp only [underStar?, whole, List.drop_length]

theorem underStar?_eq_some_iff {key subpath text : List Char} :
    underStar? key subpath = some text ↔
      ∃ front back, key = front ++ '*' :: back ∧ '*' ∉ front ∧ subpath = front ++ text ++ back := by
  constructor
  · intro found
    by_cases star : '*' ∈ key
    · obtain ⟨front, back, rfl, noStar⟩ := List.eq_append_cons_of_mem star
      rw [underStar?_star noStar] at found
      split at found
      · next inFront =>
        dsimp only at found
        split at found
        · next behind =>
          obtain ⟨rest, rfl⟩ := List.isPrefixOf_iff_prefix.mp inFront
          rw [List.drop_left] at behind found
          obtain ⟨inner, rfl⟩ := List.isSuffixOf_iff_suffix.mp behind
          refine ⟨front, back, rfl, noStar, ?_⟩
          simpa using found
        · cases found
      · cases found
    · rw [underStar?_noStar star] at found
      cases found
  · rintro ⟨front, back, rfl, noStar, rfl⟩
    have inFront : front.isPrefixOf (front ++ text ++ back) = true := by
      rw [List.isPrefixOf_iff_prefix, List.append_assoc]
      exact List.prefix_append _ _
    have behind : back.isSuffixOf (text ++ back) = true :=
      List.isSuffixOf_iff_suffix.mpr (List.suffix_append _ _)
    rw [underStar?_star noStar, if_pos inFront, List.append_assoc, List.drop_left]
    dsimp only
    rw [if_pos behind, List.length_append, Nat.add_sub_cancel, List.take_left]

theorem describes_iff {key subpath : String} {chars : List Char} :
    underStar? key.toList subpath.toList = some chars ↔
      Describes key subpath (String.ofList chars) := by
  rw [underStar?_eq_some_iff]
  constructor
  · rintro ⟨front, back, isKey, noStar, isSubpath⟩
    refine ⟨String.ofList front, String.ofList back, String.toList_inj.mp ?_, ?_,
      String.toList_inj.mp ?_⟩
    · simpa using isKey
    · simpa using noStar
    · simpa using isSubpath
  · rintro ⟨front, back, rfl, noStar, rfl⟩
    exact ⟨front.toList, back.toList, by simp, noStar, by simp⟩

/-- A target in which every star is replaced by a text. -/
def Fills (target text filled : String) : Prop :=
  ∃ pieces : List String, (∀ piece ∈ pieces, '*' ∉ piece.toList) ∧
    target = "*".intercalate pieces ∧ filled = text.intercalate pieces

/-- The characters of a target with every star replaced. -/
def fill (text target : List Char) : List Char :=
  target.flatMap fun c => if c == '*' then text else [c]

theorem fill_append (text front back : List Char) :
    fill text (front ++ back) = fill text front ++ fill text back :=
  List.flatMap_append

theorem fill_noStar {text piece : List Char} (noStar : '*' ∉ piece) : fill text piece = piece := by
  induction piece with
  | nil => rfl
  | cons c rest ih =>
      obtain ⟨here, later⟩ := not_or.mp (List.mem_cons.not.mp noStar)
      rw [fill, List.flatMap_cons, ← fill, ih later, if_neg (by simpa using Ne.symm here),
        List.singleton_append]

theorem fill_intercalate {text : List Char} {pieces : List (List Char)}
    (noStar : ∀ piece ∈ pieces, '*' ∉ piece) :
    fill text (['*'].intercalate pieces) = text.intercalate pieces := by
  induction pieces with
  | nil => rfl
  | cons piece rest ih =>
      obtain ⟨here, later⟩ := List.forall_mem_cons.mp noStar
      cases rest with
      | nil => simpa [List.intercalate] using fill_noStar here
      | cons next others =>
          have star : fill text ['*'] = text := by simp [fill]
          rw [List.intercalate_cons_cons, List.intercalate_cons_cons, ← ih later, fill_append,
            fill_append, star, fill_noStar here]

/-- Every text falls into pieces between its stars. -/
theorem exists_pieces (target : List Char) :
    ∃ piece rest, (∀ p ∈ piece :: rest, '*' ∉ p) ∧ target = ['*'].intercalate (piece :: rest) := by
  induction target with
  | nil => exact ⟨[], [], by simp, rfl⟩
  | cons c chars ih =>
      obtain ⟨piece, rest, noStar, rfl⟩ := ih
      by_cases star : c = '*'
      · subst star
        exact ⟨[], piece :: rest, List.forall_mem_cons.mpr ⟨List.not_mem_nil, noStar⟩,
          by rw [List.intercalate_cons_cons]; rfl⟩
      · obtain ⟨here, later⟩ := List.forall_mem_cons.mp noStar
        refine ⟨c :: piece, rest, List.forall_mem_cons.mpr ⟨?_, later⟩, ?_⟩
        · exact List.mem_cons.not.mpr (not_or.mpr ⟨Ne.symm star, here⟩)
        · cases rest with
          | nil => simp [List.intercalate]
          | cons next others =>
              rw [List.intercalate_cons_cons, List.intercalate_cons_cons]
              rfl

theorem fills_iff {target text filled : String} :
    Fills target text filled ↔ replaceStars target text.toList = filled := by
  have replaced : replaceStars target text.toList =
      String.ofList (fill text.toList target.toList) := rfl
  rw [replaced]
  constructor
  · rintro ⟨pieces, noStar, rfl, rfl⟩
    refine String.toList_inj.mp ?_
    rw [String.toList_ofList, String.toList_intercalate, String.toList_intercalate]
    exact fill_intercalate (List.forall_mem_map.mpr noStar)
  · rintro rfl
    obtain ⟨piece, rest, noStar, whole⟩ := exists_pieces target.toList
    have same : String.toList ∘ String.ofList = id := funext fun chars => String.toList_ofList
    refine ⟨(piece :: rest).map String.ofList, ?_, String.toList_inj.mp ?_,
      String.toList_inj.mp ?_⟩
    · exact List.forall_mem_map.mpr fun p member => by simpa using noStar p member
    · rw [whole, String.toList_intercalate, List.map_map, same, List.map_id]
      rfl
    · rw [String.toList_ofList, whole, fill_intercalate noStar, String.toList_intercalate,
        List.map_map, same, List.map_id]

/-! ## The longest key -/

/-- The entry of a map that decides on a subpath, and the text under its star: of the keys that
describe the subpath the longest in bytes, and of equally long ones the last. -/
def Decides (entries : List (String × Json)) (subpath : String) (value : Json) (text : String) :
    Prop :=
  ∃ before key after, entries = before ++ (key, value) :: after ∧ Describes key subpath text ∧
    (∀ other ∈ before, ∀ text', Describes other.1 subpath text' →
      other.1.utf8ByteSize ≤ key.utf8ByteSize) ∧
    ∀ other ∈ after, ∀ text', Describes other.1 subpath text' →
      other.1.utf8ByteSize < key.utf8ByteSize

/-- Unless no key describes a subpath, an entry decides on it. -/
theorem exists_decides (entries : List (String × Json)) (subpath : String) :
    (∀ entry ∈ entries, ∀ text, ¬Describes entry.1 subpath text) ∨
      ∃ value text, Decides entries subpath value text := by
  induction entries with
  | nil => exact .inl (List.forall_mem_nil _)
  | cons entry rest ih =>
      obtain ⟨key, value⟩ := entry
      by_cases describes : ∃ text, Describes key subpath text
      · obtain ⟨text, describes⟩ := describes
        rcases ih with none | ⟨value', text', before, key', after, rfl, describes', most, least⟩
        · exact .inr ⟨value, text, [], key, rest, rfl, describes, List.forall_mem_nil _,
            fun other member text' described => absurd described (none other member text')⟩
        · rcases Nat.lt_or_ge key'.utf8ByteSize key.utf8ByteSize with longer | notLonger
          · refine .inr ⟨value, text, [], key, _, rfl, describes, List.forall_mem_nil _, ?_⟩
            refine List.forall_mem_append.mpr ⟨fun other member text described => ?_,
              List.forall_mem_cons.mpr ⟨fun _ _ => longer, fun other member text described => ?_⟩⟩
            · exact Nat.lt_of_le_of_lt (most other member text described) longer
            · exact Nat.lt_trans (least other member text described) longer
          · exact .inr ⟨value', text', (key, value) :: before, key', after, rfl, describes',
              List.forall_mem_cons.mpr ⟨fun _ _ => notLonger, most⟩, least⟩
      · have here : ∀ text, ¬Describes key subpath text := not_exists.mp describes
        rcases ih with none | ⟨value', text', before, key', after, rfl, describes', most, least⟩
        · exact .inl (List.forall_mem_cons.mpr ⟨here, none⟩)
        · exact .inr ⟨value', text', (key, value) :: before, key', after, rfl, describes',
            List.forall_mem_cons.mpr ⟨fun text described => absurd described (here text), most⟩,
            least⟩

theorem mem_of_longest? {α : Type} {entries : List (String × α)} {best : String × α}
    (isLongest : longest? entries = some best) : best ∈ entries := by
  induction entries generalizing best with
  | nil => cases isLongest
  | cons entry rest ih =>
      unfold longest? at isLongest
      split at isLongest
      · cases isLongest
        exact List.mem_cons_self
      · next other isOther =>
        split at isLongest <;> cases isLongest
        · exact List.mem_cons_self
        · exact List.mem_cons_of_mem _ (ih isOther)

theorem longest?_eq {α : Type} {before after : List (String × α)} {entry : String × α}
    (most : ∀ other ∈ before, other.1.utf8ByteSize ≤ entry.1.utf8ByteSize)
    (least : ∀ other ∈ after, other.1.utf8ByteSize < entry.1.utf8ByteSize) :
    longest? (before ++ entry :: after) = some entry := by
  induction before with
  | nil =>
      rw [List.nil_append, longest?]
      split
      · rfl
      · next best isBest => rw [if_pos (least best (mem_of_longest? isBest))]
  | cons other rest ih =>
      obtain ⟨here, later⟩ := List.forall_mem_cons.mp most
      rw [List.cons_append, longest?, ih later]
      exact if_neg (Nat.not_lt_of_le here)

/-- The entries of a map whose keys describe a subpath, with the texts under their stars. -/
def described (entries : List (String × Json)) (subpath : String) :
    List (String × Json × List Char) :=
  entries.filterMap fun (key, value) =>
    (underStar? key.toList subpath.toList).map fun text => (key, (value, text))

theorem describes_of_mem_described {entries : List (String × Json)} {subpath : String}
    {item : String × Json × List Char} (member : item ∈ described entries subpath) :
    ∃ value, (item.1, value) ∈ entries ∧ Describes item.1 subpath (String.ofList item.2.2) := by
  obtain ⟨⟨key, value⟩, among, isItem⟩ := List.mem_filterMap.mp member
  obtain ⟨text, under, rfl⟩ := Option.map_eq_some_iff.mp isItem
  exact ⟨value, among, describes_iff.mp under⟩

theorem longest?_described {entries : List (String × Json)} {subpath text : String} {value : Json}
    (decides : Decides entries subpath value text) :
    ∃ key, longest? (described entries subpath) = some (key, (value, text.toList)) := by
  obtain ⟨before, key, after, rfl, describes, most, least⟩ := decides
  have under : underStar? key.toList subpath.toList = some text.toList :=
    describes_iff.mpr (by simpa using describes)
  have parts : described (before ++ (key, value) :: after) subpath =
      described before subpath ++ (key, (value, text.toList)) :: described after subpath := by
    rw [described, List.filterMap_append, List.filterMap_cons]
    simp only [under, Option.map_some]
    rfl
  refine ⟨key, parts ▸ longest?_eq (fun other member => ?_) fun other member => ?_⟩
  · obtain ⟨value', among, describes'⟩ := describes_of_mem_described member
    exact most _ among _ describes'
  · obtain ⟨value', among, describes'⟩ := describes_of_mem_described member
    exact least _ among _ describes'

/-! ## Maps -/

/-- Whether an export map speaks of subpaths: some key starts with a dot. -/
def SpeaksOfSubpaths : Json → Prop
  | .object entries => ∃ entry ∈ entries, ∃ rest : String, entry.1 = "." ++ rest
  | _ => False

/-- The answer of an export map to a subpath. -/
inductive Answers (subpath : String) : Json → Option String → Prop
  /-- Without subpaths the map is about the package itself. -/
  | package {map : Json} {target : Option String} (single : ¬SpeaksOfSubpaths map)
      (isPackage : subpath = ".") (means : Means map target) : Answers subpath map target
  | inside {map : Json} (single : ¬SpeaksOfSubpaths map) (notPackage : subpath ≠ ".") :
      Answers subpath map none
  /-- A key that is the subpath decides, even if it means no file. -/
  | exact {entries : List (String × Json)} {value : Json} {target : Option String}
      (several : SpeaksOfSubpaths (.object entries))
      (equal : Json.entry? entries subpath = some value) (means : Means value target) :
      Answers subpath (.object entries) target
  /-- Otherwise the longest key that describes the subpath decides. -/
  | pattern {entries : List (String × Json)} {value : Json} {text target filled : String}
      (several : SpeaksOfSubpaths (.object entries))
      (different : ∀ entry ∈ entries, entry.1 ≠ subpath)
      (decides : Decides entries subpath value text) (means : Means value (some target))
      (fills : Fills target text filled) : Answers subpath (.object entries) (some filled)
  | unusable {entries : List (String × Json)} {value : Json} {text : String}
      (several : SpeaksOfSubpaths (.object entries))
      (different : ∀ entry ∈ entries, entry.1 ≠ subpath)
      (decides : Decides entries subpath value text) (means : Means value none) :
      Answers subpath (.object entries) none
  | hidden {entries : List (String × Json)} (several : SpeaksOfSubpaths (.object entries))
      (different : ∀ entry ∈ entries, entry.1 ≠ subpath)
      (undescribed : ∀ entry ∈ entries, ∀ text, ¬Describes entry.1 subpath text) :
      Answers subpath (.object entries) none

variable {m : Manifest} {map : Json} {subpath : String} {entries entries' : List (String × Json)}
  {target : Option String}

theorem isSubpathMap_iff :
    isSubpathMap entries = true ↔ SpeaksOfSubpaths (.object entries) := by
  have dotted (key : String) :
      (key.toList.head? == some '.') = true ↔ ∃ rest : String, key = "." ++ rest := by
    rw [beq_iff_eq]
    constructor
    · intro first
      obtain ⟨rest, chars⟩ : ∃ rest, key.toList = '.' :: rest := by
        cases chars : key.toList with
        | nil => simp [chars] at first
        | cons c rest => exact ⟨rest, by simpa [chars] using first⟩
      exact ⟨String.ofList rest, String.toList_inj.mp (by simpa using chars)⟩
    · rintro ⟨rest, rfl⟩
      simp
  rw [isSubpathMap, List.any_eq_true]
  exact exists_congr fun entry => and_congr_right fun _ => dotted entry.1

theorem entry?_eq_none_iff :
    Json.entry? entries subpath = none ↔ ∀ entry ∈ entries, entry.1 ≠ subpath := by
  simp [Json.entry?]

theorem exportTarget?_single (present : m.exportMap = some map) (single : ¬SpeaksOfSubpaths map) :
    m.exportTarget? subpath = if subpath == "." then conditionalTarget? map else none := by
  unfold exportTarget?
  rw [present]
  cases map with
  | object entries =>
      have noMap : isSubpathMap entries = false := by
        rw [← Bool.not_eq_true, isSubpathMap_iff]
        exact single
      simp only [noMap, Bool.false_eq_true, if_false]
  | null | bool | number | string | array => rfl

theorem exportTarget?_several (present : m.exportMap = some (.object entries))
    (several : SpeaksOfSubpaths (.object entries)) :
    m.exportTarget? subpath = subpathTarget? entries subpath := by
  unfold exportTarget?
  rw [present]
  simp only [isSubpathMap_iff.mpr several, if_true]

/-- Without an equal key the answer is that of the longest key. -/
theorem subpathTarget?_different (different : ∀ entry ∈ entries, entry.1 ≠ subpath) :
    subpathTarget? entries subpath = (longest? (described entries subpath)).bind fun best =>
      (conditionalTarget? best.2.1).map (replaceStars · best.2.2) := by
  rw [subpathTarget?, entry?_eq_none_iff.mpr different]
  show (longest? (described entries subpath) >>= _) = _
  cases longest? (described entries subpath) with
  | none => rfl
  | some best => cases isMeant : conditionalTarget? best.2.1 <;> simp [isMeant]

theorem Answers.eq (present : m.exportMap = some map) (answers : Answers subpath map target) :
    m.exportTarget? subpath = target := by
  cases answers with
  | package single isPackage means =>
      rw [exportTarget?_single present single, if_pos (beq_iff_eq.mpr isPackage),
        means.conditionalTarget?_eq]
  | inside single notPackage =>
      rw [exportTarget?_single present single, if_neg (by simpa using notPackage)]
  | exact several equal means =>
      rw [exportTarget?_several present several, subpathTarget?, equal]
      exact means.conditionalTarget?_eq
  | pattern several different decides means fills =>
      obtain ⟨key, isLongest⟩ := longest?_described decides
      rw [exportTarget?_several present several, subpathTarget?_different different, isLongest,
        Option.bind_some, means.conditionalTarget?_eq, Option.map_some, fills_iff.mp fills]
  | unusable several different decides means =>
      obtain ⟨key, isLongest⟩ := longest?_described decides
      rw [exportTarget?_several present several, subpathTarget?_different different, isLongest,
        Option.bind_some, means.conditionalTarget?_eq, Option.map_none]
  | @hidden entries several different undescribed =>
      have empty : described entries subpath = [] :=
        List.eq_nil_iff_forall_not_mem.mpr fun item member => by
          obtain ⟨value, among, describes⟩ := describes_of_mem_described member
          exact undescribed (item.1, value) among _ describes
      rw [exportTarget?_several present several, subpathTarget?_different different, empty]
      rfl

/-- Every map has an answer to every subpath. -/
theorem exists_answers (subpath : String) (map : Json) : ∃ target, Answers subpath map target := by
  by_cases several : SpeaksOfSubpaths map
  · cases map with
    | null | bool | number | string | array => exact several.elim
    | object entries =>
        cases equal : Json.entry? entries subpath with
        | some value =>
            obtain ⟨target, means⟩ := exists_means value
            exact ⟨target, .exact several equal means⟩
        | none =>
            have different := entry?_eq_none_iff.mp equal
            rcases exists_decides entries subpath with undescribed | ⟨value, text, decides⟩
            · exact ⟨none, .hidden several different undescribed⟩
            · obtain ⟨target?, means⟩ := exists_means value
              cases target? with
              | none => exact ⟨none, .unusable several different decides means⟩
              | some target =>
                  exact ⟨_, .pattern several different decides means (fills_iff.mpr rfl)⟩
  · by_cases isPackage : subpath = "."
    · obtain ⟨target, means⟩ := exists_means map
      exact ⟨target, .package several isPackage means⟩
    · exact ⟨none, .inside several isPackage⟩

/-! ## The order of subpaths -/

/-- No two keys of one length describe a subpath. -/
def Untied (entries : List (String × Json)) (subpath : String) : Prop :=
  ∀ entry ∈ entries, ∀ other ∈ entries, ∀ text text', Describes entry.1 subpath text →
    Describes other.1 subpath text' → entry.1.utf8ByteSize = other.1.utf8ByteSize →
      entry.1 = other.1

theorem SpeaksOfSubpaths.perm (reordered : entries.Perm entries')
    (several : SpeaksOfSubpaths (.object entries)) : SpeaksOfSubpaths (.object entries') := by
  obtain ⟨entry, member, dotted⟩ := several
  exact ⟨entry, reordered.mem_iff.mp member, dotted⟩

/-- Among keys of different lengths the same one decides in any order. -/
theorem Decides.perm {value : Json} {text : String} (distinct : (entries.map Prod.fst).Nodup)
    (reordered : entries.Perm entries')
    (untied : Untied entries subpath)
    (decides : Decides entries subpath value text) : Decides entries' subpath value text := by
  obtain ⟨before, key, after, rfl, describes, most, least⟩ := decides
  have member : (key, value) ∈ before ++ (key, value) :: after := by simp
  have atMost : ∀ other ∈ before ++ (key, value) :: after, ∀ text',
      Describes other.1 subpath text' → other.1.utf8ByteSize ≤ key.utf8ByteSize :=
    List.forall_mem_append.mpr ⟨most, List.forall_mem_cons.mpr
      ⟨fun _ _ => Nat.le_refl _, fun other later text' describes' =>
        Nat.le_of_lt (least other later text' describes')⟩⟩
  obtain ⟨before', after', split⟩ := List.append_of_mem (reordered.mem_iff.mp member)
  have original {other : String × Json} (among : other ∈ before' ++ (key, value) :: after') :
      other ∈ before ++ (key, value) :: after := reordered.mem_iff.mpr (split ▸ among)
  refine ⟨before', key, after', split, describes, fun other earlier text' describes' => ?_,
    fun other later text' describes' => ?_⟩
  · exact atMost other (original (List.mem_append_left _ earlier)) text' describes'
  · have among := original (List.mem_append_right _ (List.mem_cons_of_mem _ later))
    have distinct' := (reordered.map Prod.fst).nodup_iff.mp distinct
    rw [split, List.map_append, List.nodup_append, List.map_cons, List.nodup_cons] at distinct'
    have apart : other.1 ≠ key := fun same =>
      distinct'.2.1.1 (List.mem_map.mpr ⟨other, later, same⟩)
    refine Nat.lt_of_le_of_ne (atMost other among text' describes') fun equal => apart ?_
    exact untied other among (key, value) member text' text describes' describes equal

theorem Answers.perm (several : SpeaksOfSubpaths (.object entries))
    (distinct : (entries.map Prod.fst).Nodup) (reordered : entries.Perm entries')
    (untied : Untied entries subpath)
    (answers : Answers subpath (.object entries) target) :
    Answers subpath (.object entries') target := by
  have several' := several.perm reordered
  have different' (different : ∀ entry ∈ entries, entry.1 ≠ subpath) :
      ∀ entry ∈ entries', entry.1 ≠ subpath :=
    fun entry member => different entry (reordered.mem_iff.mpr member)
  cases answers with
  | package single => exact absurd several single
  | inside single => exact absurd several single
  | exact _ equal means =>
      have distinct' := (reordered.map Prod.fst).nodup_iff.mp distinct
      refine .exact several' ?_ means
      rw [Json.entry?_eq_some_iff distinct', ← reordered.mem_iff,
        ← Json.entry?_eq_some_iff distinct, equal]
  | pattern _ different decides means fills =>
      exact .pattern several' (different' different) (decides.perm distinct reordered untied) means
        fills
  | unusable _ different decides means =>
      exact .unusable several' (different' different) (decides.perm distinct reordered untied) means
  | hidden _ different undescribed =>
      exact .hidden several' (different' different) fun entry member =>
        undescribed entry (reordered.mem_iff.mpr member)

/-- **The rules of export maps.** What is looked up for a subpath in the export map of a package is
the answer that the rules give, and nothing else. In a map of subpaths the order of these does not
matter, unless two different keys that describe the subpath have the same length. -/
theorem exportTarget?_follows (m : Manifest) (map : Json) (present : m.exportMap = some map)
    (subpath : String) :
    (∀ target, m.exportTarget? subpath = target ↔ Answers subpath map target) ∧
      ∀ entries entries' : List (String × Json), map = .object entries →
        SpeaksOfSubpaths map → (entries.map Prod.fst).Nodup → entries.Perm entries' →
        Untied entries subpath →
        { m with exportMap := some (.object entries') }.exportTarget? subpath =
          m.exportTarget? subpath := by
  have answered : Answers subpath map (m.exportTarget? subpath) := by
    obtain ⟨target, answers⟩ := exists_answers subpath map
    exact answers.eq present ▸ answers
  refine ⟨fun target => ⟨fun same => same ▸ answered, Answers.eq present⟩, ?_⟩
  rintro entries entries' rfl several distinct reordered untied
  exact Answers.eq rfl (answered.perm several distinct reordered untied)

namespace Example

/-- A map whose keys describe some subpaths more than once. -/
def features : List (String × Json) :=
  [("./features/*", .string "./a/*.js"),
    ("./features/x-*", .object [("import", .string "./no"),
      ("node", .array [.null, .string "./b/*/*.js"])]),
    ("./*", .string "./any/*")]

/-- A package with this map. -/
def featured : Manifest :=
  { ofFields .root {} with exportMap := some (.object features) }

end Example

/-- The longest of three keys decides, in any order. -/
theorem exportTarget?_follows_features :
    Example.featured.exportMap = some (.object Example.features) ∧
      Answers "./features/x-y" (.object Example.features) (some "./b/y/y.js") ∧
      { Example.featured with exportMap := some (.object Example.features.reverse) }.exportTarget?
          "./features/x-y" = some "./b/y/y.js" := by
  have found : Example.featured.exportTarget? "./features/x-y" = some "./b/y/y.js" := rfl
  have holds := exportTarget?_follows Example.featured _ rfl "./features/x-y"
  have sizes : ∀ key ∈ Example.features.map Prod.fst, ∀ other ∈ Example.features.map Prod.fst,
      key.utf8ByteSize = other.utf8ByteSize → key = other := by decide
  refine ⟨rfl, (holds.1 _).mp found, ?_⟩
  rw [← found]
  exact holds.2 _ _ rfl ⟨_, List.mem_cons_self, "/features/*", rfl⟩ (by decide)
    (List.reverse_perm _).symm fun entry member other member' _ _ _ _ =>
      sizes _ (List.mem_map_of_mem member) _ (List.mem_map_of_mem member')

end FunctionArchive.Manifest
