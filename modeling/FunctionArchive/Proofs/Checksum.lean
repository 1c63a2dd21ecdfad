import FunctionArchive.Checksum
import FunctionArchive.Proofs.Disk.Listing
import FunctionArchive.Proofs.Path.Plain
import FunctionArchive.Proofs.Text.Utf8
import Mathlib

/-!
# What a checksum tells apart

The stream of a directory gives each path up to a zero byte, and no path holds one. So the first
path is read back from a stream. Where its content ends is not told: the content may go on like the
paths and contents that come next. Two streams are the same if that is all in which their items
differ (`stream_eq_iff`), and whether an item is a file or a link does not show at all.

A directory is told apart from another by its checksum where no content begins with that of the
item at the same path in the other one (`ofPath_distinguishes`). The digest is taken to tell
the two streams apart, as far as they differ.

The whole of Mathlib is imported for the examples at the end: `cbv` evaluates them with equations of
library functions, such as `List.lookup`, that Mathlib declares.
-/

set_option autoImplicit false

namespace FunctionArchive

namespace Checksum

open Disk (Node)
open FunctionArchive.Path (IsName Proper)

variable {xs ys : List (String × Item)} {path : String} {item item' : Item}

/-! ## Streams -/

theorem stream_cons (path : String) (item : Item) (rest : List (String × Item)) :
    stream ((path, item) :: rest) =
      Utf8.encode path ++ 0 :: (item.content ++ stream rest) := by
  simp [stream]

/-- Paths as operating systems allow them: none holds a zero. -/
def Clean (items : List (String × Item)) : Prop := ∀ entry ∈ items, '\x00' ∉ entry.1.toList

/-- What is in front of the first zero byte is read back. -/
theorem append_zero_inj {a b x y : List UInt8} (whole : 0 ∉ a) (whole' : 0 ∉ b)
    (same : a ++ 0 :: x = b ++ 0 :: y) : a = b ∧ x = y := by
  induction a generalizing b with
  | nil =>
      cases b with
      | nil => exact ⟨rfl, (List.cons.inj same).2⟩
      | cons first rest =>
          have zero : 0 = first := (List.cons.inj same).1
          exact absurd (zero ▸ List.mem_cons_self) whole'
  | cons first rest ih =>
      cases b with
      | nil =>
          have zero : first = 0 := (List.cons.inj same).1
          exact absurd (zero ▸ List.mem_cons_self) whole
      | cons first' rest' =>
          obtain ⟨rfl, others⟩ := List.cons.inj same
          obtain ⟨rfl, behind⟩ := ih (fun zero => whole (List.mem_cons_of_mem _ zero))
            (fun zero => whole' (List.mem_cons_of_mem _ zero)) others
          exact ⟨rfl, behind⟩

/-- Items that a stream does not tell apart: the same contents at the same paths, until the content
at one path goes on in one list where it ends in the other, and goes on like what comes next
there. -/
inductive Blurred : List (String × Item) → List (String × Item) → Prop
  | done : Blurred [] []
  | next {path : String} {item item' : Item} {xs ys : List (String × Item)}
      (content : item.content = item'.content) (rest : Blurred xs ys) :
      Blurred ((path, item) :: xs) ((path, item') :: ys)
  | longer {path : String} {item item' : Item} {more : List UInt8} {xs ys : List (String × Item)}
      (notEmpty : more ≠ []) (goesOn : item'.content = item.content ++ more)
      (imitates : stream xs = more ++ stream ys) :
      Blurred ((path, item) :: xs) ((path, item') :: ys)
  | shorter {path : String} {item item' : Item} {more : List UInt8} {xs ys : List (String × Item)}
      (notEmpty : more ≠ []) (goesOn : item.content = item'.content ++ more)
      (imitates : stream ys = more ++ stream xs) :
      Blurred ((path, item) :: xs) ((path, item') :: ys)

theorem Blurred.stream_eq (blurred : Blurred xs ys) : stream xs = stream ys := by
  induction blurred with
  | done => rfl
  | next content _ ih => rw [stream_cons, stream_cons, content, ih]
  | longer _ goesOn imitates => rw [stream_cons, stream_cons, goesOn, imitates, List.append_assoc]
  | shorter _ goesOn imitates => rw [stream_cons, stream_cons, goesOn, imitates, List.append_assoc]

/-- The items of which streams are made are told apart but for such. -/
theorem stream_eq_iff (clean : Clean xs) (clean' : Clean ys) :
    stream xs = stream ys ↔ Blurred xs ys := by
  refine ⟨fun same => ?_, Blurred.stream_eq⟩
  induction xs generalizing ys with
  | nil =>
      cases ys with
      | nil => exact .done
      | cons entry rest => simp [stream] at same
  | cons entry rest ih =>
      cases ys with
      | nil => simp [stream] at same
      | cons entry' rest' =>
          obtain ⟨path, item⟩ := entry
          obtain ⟨path', item'⟩ := entry'
          obtain ⟨first, others⟩ := List.forall_mem_cons.mp clean
          obtain ⟨first', others'⟩ := List.forall_mem_cons.mp clean'
          rw [stream_cons, stream_cons] at same
          obtain ⟨paths, behind⟩ := append_zero_inj (Utf8.zero_notMem_encode first)
            (Utf8.zero_notMem_encode first') same
          cases Utf8.encode_injective paths
          rcases List.append_eq_append_iff.mp behind with
            ⟨more, goesOn, imitates⟩ | ⟨more, goesOn, imitates⟩
          · by_cases none : more = []
            · subst none
              exact .next (by simpa using goesOn.symm) (ih others others' (by simpa using imitates))
            · exact .longer none goesOn imitates
          · by_cases none : more = []
            · subst none
              exact .next (by simpa using goesOn)
                (ih others others' (by simpa using imitates.symm))
            · exact .shorter none goesOn imitates

/-- Different items, of which the content of one begins with that of the other. A file and a link
may even have the same content. -/
def Item.Confusable (item item' : Item) : Prop :=
  item ≠ item' ∧ (item.content <+: item'.content ∨ item'.content <+: item.content)

/-- Items that a stream does not tell apart are the same, or some are confusable. -/
theorem Blurred.eq_or_confusable (blurred : Blurred xs ys) :
    xs = ys ∨ ∃ path item item', (path, item) ∈ xs ∧ (path, item') ∈ ys ∧
      item.Confusable item' := by
  induction blurred with
  | done => exact .inl rfl
  | @next path item item' xs ys content _ ih =>
      by_cases same : item = item'
      · subst same
        rcases ih with rfl | ⟨other, a, b, among, among', confusable⟩
        · exact .inl rfl
        · exact .inr ⟨other, a, b, List.mem_cons_of_mem _ among, List.mem_cons_of_mem _ among',
            confusable⟩
      · exact .inr ⟨path, item, item', List.mem_cons_self, List.mem_cons_self, same,
          .inl (content ▸ List.prefix_refl _)⟩
  | @longer path item item' more xs ys notEmpty goesOn _ =>
      refine .inr ⟨path, item, item', List.mem_cons_self, List.mem_cons_self, ?_,
        .inl ⟨more, goesOn.symm⟩⟩
      rintro rfl
      exact notEmpty (List.self_eq_append_right.mp goesOn)
  | @shorter path item item' more xs ys notEmpty goesOn _ =>
      refine .inr ⟨path, item, item', List.mem_cons_self, List.mem_cons_self, ?_,
        .inr ⟨more, goesOn.symm⟩⟩
      rintro rfl
      exact notEmpty (List.self_eq_append_right.mp goesOn)

/-! ## Trees -/

/-- A tree as an operating system keeps it: the entries of a directory have different names, each
of them the name of an entry and without a zero. -/
def Tidy (n : Node) : Prop :=
  ∀ names entries, n.at? names = some (.directory entries) →
    (entries.map Prod.fst).Nodup ∧ ∀ entry ∈ entries, IsName entry.1 ∧ '\x00' ∉ entry.1.toList

variable {n inner leaf : Node} {name : String} {names : List String}
  {entries : List (String × Node)}

theorem mem_of_lookup_iff (different : (entries.map Prod.fst).Nodup) :
    entries.lookup name = some inner ↔ (name, inner) ∈ entries := by
  refine ⟨Disk.Node.mem_of_lookup, fun member => ?_⟩
  induction entries with
  | nil => cases member
  | cons entry rest ih =>
      obtain ⟨key, node⟩ := entry
      obtain ⟨new, others⟩ := List.nodup_cons.mp different
      rcases List.mem_cons.mp member with first | later
      · cases first
        simp
      · have notKey : name ≠ key := by
          rintro rfl
          exact new (List.mem_map.mpr ⟨(name, inner), later, rfl⟩)
        rw [List.lookup_cons, beq_false_of_ne notKey]
        exact ih others later

theorem Tidy.lookup (tidy : Tidy (.directory entries)) (found : entries.lookup name = some inner) :
    Tidy inner := by
  intro names entries' there
  refine tidy (name :: names) entries' ?_
  simp [Node.at?, Node.child?, found, there]

/-- The names that lead to something in a tidy tree are names of entries. -/
theorem Tidy.of_at? (tidy : Tidy n) (there : n.at? names = some inner) :
    Proper names ∧ ∀ name ∈ names, '\x00' ∉ name.toList := by
  induction names generalizing n with
  | nil => exact ⟨Path.proper_nil, List.forall_mem_nil _⟩
  | cons name rest ih =>
      cases n with
      | file f => cases there
      | link target => cases there
      | directory entries =>
          obtain ⟨node, found, below⟩ := Option.bind_eq_some_iff.mp there
          obtain ⟨isName, without⟩ :=
            (tidy [] entries rfl).2 (name, node) (Disk.Node.mem_of_lookup found)
          obtain ⟨proper, others⟩ := ih (tidy.lookup found) below
          exact ⟨List.forall_mem_cons.mpr ⟨isName, proper⟩,
            List.forall_mem_cons.mpr ⟨without, others⟩⟩

theorem mem_leavesOf : (names, leaf) ∈ Node.leavesOf entries ↔
    ∃ name inner rest, (name, inner) ∈ entries ∧ names = name :: rest ∧
      (rest, leaf) ∈ inner.leaves := by
  induction entries with
  | nil => simp [Node.leavesOf]
  | cons entry others ih =>
      obtain ⟨key, node⟩ := entry
      rw [Node.leavesOf, List.mem_append, ih]
      constructor
      · rintro (here | ⟨name, inner, rest, member, split, below⟩)
        · obtain ⟨⟨rest, leaf'⟩, below, same⟩ := List.mem_map.mp here
          cases same
          exact ⟨key, node, rest, List.mem_cons_self, rfl, below⟩
        · exact ⟨name, inner, rest, List.mem_cons_of_mem _ member, split, below⟩
      · rintro ⟨name, inner, rest, member, rfl, below⟩
        rcases List.mem_cons.mp member with first | later
        · cases first
          exact .inl (List.mem_map.mpr ⟨(rest, leaf), below, rfl⟩)
        · exact .inr ⟨name, inner, rest, later, rfl, below⟩

/-- The leaves of a tidy tree that count are what stands in it. -/
theorem mem_leaves (tidy : Tidy n) (counts : Item.ofNode? leaf = some item) :
    (names, leaf) ∈ n.leaves ↔ n.at? names = some leaf := by
  induction names generalizing n with
  | nil =>
      cases n with
      | file f => simp [Node.leaves, Node.at?, eq_comm]
      | link target => simp [Node.leaves, Node.at?, eq_comm]
      | directory entries =>
          have other : Node.directory entries ≠ leaf := by
            rintro rfl
            cases counts
          cases entries with
          | nil => simp [Node.leaves, Node.at?, other, other.symm]
          | cons entry rest => simp [Node.leaves, Node.at?, mem_leavesOf, other]
  | cons name rest ih =>
      cases n with
      | file f => simp [Node.leaves, Node.at?, Node.child?]
      | link target => simp [Node.leaves, Node.at?, Node.child?]
      | directory entries =>
          have different := (tidy [] entries rfl).1
          have listed : (name :: rest, leaf) ∈ (Node.directory entries).leaves ↔
              (name :: rest, leaf) ∈ Node.leavesOf entries := by
            cases entries <;> simp [Node.leaves, Node.leavesOf]
          rw [listed, mem_leavesOf]
          constructor
          · rintro ⟨_, inner, _, member, split, below⟩
            cases split
            have found := (mem_of_lookup_iff different).mpr member
            simpa [Node.at?, Node.child?, found] using (ih (tidy.lookup found)).mp below
          · intro there
            obtain ⟨inner, found, below⟩ := Option.bind_eq_some_iff.mp there
            exact ⟨name, inner, rest, Disk.Node.mem_of_lookup found, rfl,
              (ih (tidy.lookup found)).mpr below⟩

/-! ## Directories -/

/-- What counts of a directory under some names: the file or link that stands there. Under no name
it is the link at the path of the directory itself. -/
def itemAt? (d : Disk) (path : Path) (n : Node) : List String → Option Item
  | [] => (d.linkText path).toOption.map .link
  | name :: rest => (n.at? (name :: rest)).bind Item.ofNode?

/-- A path leads to a directory that is kept as an operating system keeps it. -/
structure Holds (d : Disk) (path : Path) (n : Node) : Prop where
  found : ∃ names, d.find path = .ok ⟨names, n⟩
  isDirectory : ∃ entries, n = .directory entries
  tidy : Tidy n

variable {d d' : Disk} {path path' : Path} {n' : Node} {text : String} {item item' : Item}

/-- A character that is in none of some names is not in the path that they make up. -/
theorem notMem_text {c : Char} (notSlash : c ≠ '/') (without : ∀ name ∈ names, c ∉ name.toList) :
    c ∉ ("/".intercalate names).toList := by
  rw [String.toList_intercalate]
  show c ∉ ['/'].intercalate (names.map String.toList)
  induction names with
  | nil => simp
  | cons name rest ih =>
      obtain ⟨first, others⟩ := List.forall_mem_cons.mp without
      cases rest with
      | nil => simpa using first
      | cons next more =>
          rw [List.map_cons, List.map_cons, List.intercalate_cons_cons, ← List.map_cons]
          simp only [List.mem_append, List.mem_singleton, not_or]
          exact ⟨⟨first, notSlash⟩, ih others⟩

theorem mem_itemsOf (tidy : Tidy n) : (text, item) ∈ itemsOf n ↔
    ∃ names, (n.at? names).bind Item.ofNode? = some item ∧ "/".intercalate names = text := by
  rw [itemsOf, List.mem_mergeSort, List.mem_filterMap]
  constructor
  · rintro ⟨⟨names, leaf⟩, listed, same⟩
    obtain ⟨item', counts, rfl, rfl⟩ : ∃ item', Item.ofNode? leaf = some item' ∧
        "/".intercalate names = text ∧ item' = item := by simpa using same
    exact ⟨names, by simp [(mem_leaves tidy counts).mp listed, counts], rfl⟩
  · rintro ⟨names, there, rfl⟩
    obtain ⟨leaf, stands, counts⟩ := Option.bind_eq_some_iff.mp there
    exact ⟨(names, leaf), (mem_leaves tidy counts).mpr stands, by simp [counts]⟩

namespace Holds

theorem proper (holds : Holds d path n) (there : itemAt? d path n names = some item) :
    Proper names ∧ ∀ name ∈ names, '\x00' ∉ name.toList := by
  cases names with
  | nil => exact ⟨Path.proper_nil, List.forall_mem_nil _⟩
  | cons name rest =>
      obtain ⟨leaf, stands, -⟩ := Option.bind_eq_some_iff.mp there
      exact holds.tidy.of_at? stands

/-- The items of a directory are what counts of it. -/
theorem mem_items (holds : Holds d path n) : (text, item) ∈ items d path n ↔
    ∃ names, itemAt? d path n names = some item ∧ "/".intercalate names = text := by
  have below : (text, item) ∈ itemsOf n ↔ ∃ name rest,
      itemAt? d path n (name :: rest) = some item ∧ "/".intercalate (name :: rest) = text := by
    rw [mem_itemsOf holds.tidy]
    constructor
    · rintro ⟨names, there, same⟩
      cases names with
      | nil =>
          obtain ⟨entries, rfl⟩ := holds.isDirectory
          cases there
      | cons name rest => exact ⟨name, rest, there, same⟩
    · rintro ⟨name, rest, there, same⟩
      exact ⟨name :: rest, there, same⟩
  have whole : (∃ names, itemAt? d path n names = some item ∧ "/".intercalate names = text) ↔
      (itemAt? d path n [] = some item ∧ "" = text) ∨ (text, item) ∈ itemsOf n := by
    rw [below]
    constructor
    · rintro ⟨names, there, same⟩
      cases names with
      | nil => exact .inl ⟨there, same⟩
      | cons name rest => exact .inr ⟨name, rest, there, same⟩
    · rintro (⟨there, same⟩ | ⟨name, rest, there, same⟩)
      · exact ⟨[], there, same⟩
      · exact ⟨name :: rest, there, same⟩
  rw [whole, items, itemAt?]
  cases d.linkText path with
  | error fault => simp [Except.toOption]
  | ok target => simp [Except.toOption, eq_comm, and_comm]

theorem mem_items_text (holds : Holds d path n) (isProper : Proper names) :
    ("/".intercalate names, item) ∈ items d path n ↔ itemAt? d path n names = some item := by
  rw [holds.mem_items]
  constructor
  · rintro ⟨names', there, spelt⟩
    -- Names of entries are read back from the path that they make up.
    rw [← (holds.proper there).1.text_inj isProper spelt]
    exact there
  · exact fun there => ⟨names, there, rfl⟩

theorem clean (holds : Holds d path n) : Clean (items d path n) := by
  rintro ⟨text, item⟩ listed zero
  obtain ⟨names, there, rfl⟩ := holds.mem_items.mp listed
  exact notMem_text (by decide) (holds.proper there).2 zero

theorem ofPath_eq (holds : Holds d path n) :
    ofPath d path = .ok (Sha256.hexDigest (stream (items d path n))) := by
  obtain ⟨names, found⟩ := holds.found
  obtain ⟨entries, rfl⟩ := holds.isDirectory
  rw [ofPath, found]

end Holds

/-- Directories with the same items hold the same under the same names. -/
theorem itemAt?_of_items (holds : Holds d path n) (holds' : Holds d' path' n')
    (same : items d path n = items d' path' n') (names : List String) :
    itemAt? d path n names = itemAt? d' path' n' names := by
  by_cases isProper : Proper names
  · refine Option.ext fun item => ?_
    rw [← holds.mem_items_text isProper, ← holds'.mem_items_text isProper, same]
  · have nothing {d : Disk} {path : Path} {n : Node} (holds : Holds d path n) :
        itemAt? d path n names = none :=
      Option.eq_none_iff_forall_ne_some.mpr fun item there => isProper (holds.proper there).1
    rw [nothing holds, nothing holds']

/-- Directories whose checksums are the same hold the same files and links under the same names,
unless they hold confusable items under some names. The digest is taken to tell their streams apart
if these are different. -/
theorem ofPath_distinguishes (holds : Holds d path n) (holds' : Holds d' path' n')
    (same : ofPath d path = ofPath d' path')
    (apart : Sha256.hexDigest (stream (items d path n)) =
      Sha256.hexDigest (stream (items d' path' n')) →
        stream (items d path n) = stream (items d' path' n')) :
    (∀ names, itemAt? d path n names = itemAt? d' path' n' names) ∨
      ∃ names item item', itemAt? d path n names = some item ∧
        itemAt? d' path' n' names = some item' ∧ item.Confusable item' := by
  rw [holds.ofPath_eq, holds'.ofPath_eq] at same
  have blurred := (stream_eq_iff holds.clean holds'.clean).mp (apart (Except.ok.inj same))
  rcases blurred.eq_or_confusable with alike | ⟨text, item, item', among, among', confusable⟩
  · exact .inl (itemAt?_of_items holds holds' alike)
  · obtain ⟨names, there, rfl⟩ := holds.mem_items.mp among
    refine .inr ⟨names, item, item', there, ?_, confusable⟩
    exact (holds'.mem_items_text (holds.proper there).1).mp among'

/-! ### Some directories -/

theorem tidy_of_counts (counts : Item.ofNode? n = some item) : Tidy n := by
  intro names entries there
  cases names with
  | nil =>
      cases there
      cases counts
  | cons name rest =>
      cases n with
      | file f => cases there
      | link target => cases there
      | directory entries' => cases counts

theorem tidy_directory (different : (entries.map Prod.fst).Nodup)
    (named : ∀ entry ∈ entries, IsName entry.1 ∧ '\x00' ∉ entry.1.toList)
    (inside : ∀ entry ∈ entries, Tidy entry.2) : Tidy (.directory entries) := by
  intro names entries' there
  cases names with
  | nil =>
      cases there
      exact ⟨different, named⟩
  | cons name rest =>
      obtain ⟨inner, member, below⟩ := Disk.Node.at?_directory_cons there
      exact inside _ member rest entries' below

namespace Sample

def file (bytes : List UInt8) : Node := .file ⟨bytes, 0o644, 0⟩

def library : Node := .directory [("u", file [0x79])]

/-- Two lists of the same entries. -/
def front : Node := .directory [("a", file [0x78]), ("lib", library)]

def back : Node := .directory [("lib", library), ("a", file [0x78])]

/-- The content of `a` goes on here like the path that comes next in `two`. -/
def one : Node := .directory [("a", file [0x78]), ("b", file [])]

def two : Node := .directory [("a", file []), ("xb", file [])]

/-- A file here has the text of the link in `four` for its content. -/
def three : Node := .directory [("a", file [0x74])]

def four : Node := .directory [("a", .link "t")]

def disk : Disk where
  root := .directory [("front", front), ("back", back), ("one", one), ("two", two),
    ("three", three), ("four", four)]
  current := .root
  now := 0

theorem tidy_file (bytes : List UInt8) : Tidy (file bytes) := by
  have counts : Item.ofNode? (file bytes) = some (.file bytes) := rfl
  exact tidy_of_counts counts

theorem tidy_library : Tidy library :=
  tidy_directory (by decide) (by decide) (List.forall_mem_singleton.mpr (tidy_file _))

/-- A directory of the disk is one that is kept as an operating system keeps it. -/
theorem holds {name : String} (there : disk.root.at? [name] = some (.directory entries))
    (down : Disk.LeadsDown [name]) (tidy : Tidy (.directory entries)) :
    Holds disk (.ofNames [name]) (.directory entries) :=
  ⟨⟨[name], Disk.find_of_at? there down (by simp)⟩, ⟨entries, rfl⟩, tidy⟩

theorem holds_front : Holds disk (.ofNames ["front"]) front := by
  refine holds rfl (by unfold Disk.LeadsDown; decide) (tidy_directory (by decide) (by decide) ?_)
  simp [tidy_file, tidy_library]

theorem holds_back : Holds disk (.ofNames ["back"]) back := by
  refine holds rfl (by unfold Disk.LeadsDown; decide) (tidy_directory (by decide) (by decide) ?_)
  simp [tidy_file, tidy_library]

theorem holds_one : Holds disk (.ofNames ["one"]) one := by
  refine holds rfl (by unfold Disk.LeadsDown; decide) (tidy_directory (by decide) (by decide) ?_)
  simp [tidy_file]

theorem holds_two : Holds disk (.ofNames ["two"]) two := by
  refine holds rfl (by unfold Disk.LeadsDown; decide) (tidy_directory (by decide) (by decide) ?_)
  simp [tidy_file]

theorem holds_three : Holds disk (.ofNames ["three"]) three := by
  refine holds rfl (by unfold Disk.LeadsDown; decide) (tidy_directory (by decide) (by decide) ?_)
  simp [tidy_file]

theorem holds_four : Holds disk (.ofNames ["four"]) four := by
  refine holds rfl (by unfold Disk.LeadsDown; decide) (tidy_directory (by decide) (by decide) ?_)
  exact List.forall_mem_singleton.mpr (tidy_of_counts rfl)

theorem items_front : items disk (.ofNames ["front"]) front =
    [("a", .file [0x78]), ("lib/u", .file [0x79])] := by cbv

theorem items_back : items disk (.ofNames ["back"]) back =
    [("a", .file [0x78]), ("lib/u", .file [0x79])] := by cbv

theorem items_one : items disk (.ofNames ["one"]) one = [("a", .file [0x78]), ("b", .file [])] := by
  cbv

theorem items_two : items disk (.ofNames ["two"]) two = [("a", .file []), ("xb", .file [])] := by
  cbv

theorem items_three : items disk (.ofNames ["three"]) three = [("a", .file [0x74])] := by cbv

theorem items_four : items disk (.ofNames ["four"]) four = [("a", .link "t")] := by cbv

end Sample

open Sample

/-- The same entries have the same checksum in whatever order they are listed. -/
theorem ofPath_distinguishes_front :
    ofPath disk (.ofNames ["front"]) = ofPath disk (.ofNames ["back"]) ∧
      ((∀ names, itemAt? disk (.ofNames ["front"]) front names =
          itemAt? disk (.ofNames ["back"]) back names) ∨
        ∃ names item item', itemAt? disk (.ofNames ["front"]) front names = some item ∧
          itemAt? disk (.ofNames ["back"]) back names = some item' ∧ item.Confusable item') := by
  have streams : stream (items disk (.ofNames ["front"]) front) =
      stream (items disk (.ofNames ["back"]) back) := by
    rw [items_front, items_back]
  have same : ofPath disk (.ofNames ["front"]) = ofPath disk (.ofNames ["back"]) := by
    rw [holds_front.ofPath_eq, holds_back.ofPath_eq, streams]
  exact ⟨same, ofPath_distinguishes holds_front holds_back same fun _ => streams⟩

/-- Directories whose files have other names have the same checksum, and so have a file and a
link. -/
theorem ofPath_confuses :
    (ofPath disk (.ofNames ["one"]) = ofPath disk (.ofNames ["two"]) ∧
      itemAt? disk (.ofNames ["one"]) one ["xb"] = none ∧
      itemAt? disk (.ofNames ["two"]) two ["xb"] = some (.file [])) ∧
    ofPath disk (.ofNames ["three"]) = ofPath disk (.ofNames ["four"]) ∧
      itemAt? disk (.ofNames ["three"]) three ["a"] = some (.file [0x74]) ∧
      itemAt? disk (.ofNames ["four"]) four ["a"] = some (.link "t") := by
  have continued : stream (items disk (.ofNames ["one"]) one) =
      stream (items disk (.ofNames ["two"]) two) := by
    rw [items_one, items_two]
    exact Blurred.stream_eq (.shorter (List.cons_ne_nil 0x78 []) rfl (by cbv))
  have kinds : stream (items disk (.ofNames ["three"]) three) =
      stream (items disk (.ofNames ["four"]) four) := by
    rw [items_three, items_four]
    exact Blurred.stream_eq (.next (by cbv) .done)
  refine ⟨⟨?_, rfl, rfl⟩, ?_, rfl, rfl⟩
  · rw [holds_one.ofPath_eq, holds_two.ofPath_eq, continued]
  · rw [holds_three.ofPath_eq, holds_four.ofPath_eq, kinds]

end Checksum

end FunctionArchive
