import FunctionArchive.Manifest
import FunctionArchive.Proofs.Json.Reading
import Mathlib.Data.String.Basic
import Mathlib.Tactic.Tauto

/-!
# Manifests field by field

A table of a manifest holds the entries whose value can be used and no others (`mem_table`), in the
order of their keys (`table_increasing`). Reading a manifest that is an object succeeds whatever
kinds of values its members have, and each field of the result follows from the member with its key
alone (`read_fieldwise`).
-/

set_option autoImplicit false

namespace FunctionArchive.Json

/-- Whether what is said about a peer allows that it is missing. -/
def SaysOptional : Json → Prop
  | .object answers => entry? answers "optional" = some (.bool true)
  | .array items => items = [.bool true]
  | .null | .bool _ | .number _ | .string _ => False

end FunctionArchive.Json

namespace FunctionArchive.Manifest

/-! ## Tables -/

section Tables

variable {α : Type} {rows : List (String × α)} {key : String} {value : α}

theorem mem_keys_insertSorted {k : String} : k ∈ (insertSorted key value rows).map Prod.fst ↔
    k = key ∨ k ∈ rows.map Prod.fst := by
  induction rows with
  | nil => simp [insertSorted]
  | cons entry rest ih =>
      rw [insertSorted]
      split
      · next same => simp [eq_of_beq same]
      · split <;> grind

/-- The keys of a table are in order. -/
theorem insertSorted_increasing (increasing : (rows.map Prod.fst).Pairwise (· < ·)) :
    ((insertSorted key value rows).map Prod.fst).Pairwise (· < ·) := by
  induction rows with
  | nil => simp [insertSorted]
  | cons entry rest ih =>
      obtain ⟨k, v⟩ := entry
      obtain ⟨least, later⟩ := List.pairwise_cons.mp increasing
      rw [insertSorted]
      split
      · next same =>
          cases eq_of_beq same
          exact increasing
      · next other =>
          rw [beq_iff_eq] at other
          split
          · next less =>
              refine List.pairwise_cons.mpr ⟨fun k' member => ?_, increasing⟩
              rcases List.mem_cons.mp member with rfl | further
              · exact less
              · exact less.trans (least k' further)
          · next notLess =>
              refine List.pairwise_cons.mpr ⟨fun k' member => ?_, ih later⟩
              rcases mem_keys_insertSorted.mp member with rfl | further
              · exact lt_of_le_of_ne (not_lt.mp notLess) (Ne.symm other)
              · exact least k' further

/-- A new key adds its entry. -/
theorem mem_insertSorted (fresh : key ∉ rows.map Prod.fst) {entry : String × α} :
    entry ∈ insertSorted key value rows ↔ entry = (key, value) ∨ entry ∈ rows := by
  induction rows with
  | nil => simp [insertSorted]
  | cons first rest ih =>
      obtain ⟨k, v⟩ := first
      rw [List.map_cons, List.mem_cons, not_or] at fresh
      rw [insertSorted, if_neg (by simpa using fresh.1)]
      split
      · rw [List.mem_cons]
      · rw [List.mem_cons, ih fresh.2, List.mem_cons]
        tauto

variable {decode : Json → Option α} {entries : List (String × Json)}

/-- Adds an entry to a table if its value can be used. -/
def addEntry (decode : Json → Option α) (out : List (String × α)) (entry : String × Json) :
    List (String × α) :=
  match decode entry.2 with
  | some value => insertSorted entry.1 value out
  | none => out

theorem foldl_addEntry_increasing (increasing : (rows.map Prod.fst).Pairwise (· < ·)) :
    ((entries.foldl (addEntry decode) rows).map Prod.fst).Pairwise (· < ·) := by
  induction entries generalizing rows with
  | nil => exact increasing
  | cons entry rest ih =>
      refine ih ?_
      unfold addEntry
      split
      · exact insertSorted_increasing increasing
      · exact increasing

theorem mem_foldl_addEntry (distinct : (entries.map Prod.fst).Nodup)
    (fresh : ∀ k ∈ entries.map Prod.fst, k ∉ rows.map Prod.fst) :
    (key, value) ∈ entries.foldl (addEntry decode) rows ↔
      (key, value) ∈ rows ∨ ∃ v, (key, v) ∈ entries ∧ decode v = some value := by
  induction entries generalizing rows with
  | nil => simp
  | cons entry rest ih =>
      obtain ⟨k, v⟩ := entry
      rw [List.map_cons, List.nodup_cons] at distinct
      obtain ⟨here, there⟩ := List.forall_mem_cons.mp fresh
      rw [List.foldl_cons]
      cases usable : decode v with
      | none =>
          have same : addEntry decode rows (k, v) = rows := by simp [addEntry, usable]
          rw [same, ih distinct.2 there]
          grind
      | some x =>
          have added : addEntry decode rows (k, v) = insertSorted k x rows := by
            simp [addEntry, usable]
          rw [added, ih distinct.2 ?_, mem_insertSorted here]
          · grind
          · intro k' member inside
            rcases mem_keys_insertSorted.mp inside with rfl | before
            · exact distinct.1 member
            · exact there k' member before

theorem table_object (decode : Json → Option α) (entries : List (String × Json)) :
    table decode (.object entries) = entries.foldl (addEntry decode) [] := rfl

theorem table_increasing (decode : Json → Option α) (v : Json) :
    ((table decode v).map Prod.fst).Pairwise (· < ·) := by
  cases v with
  | object entries =>
      rw [table_object]
      exact foldl_addEntry_increasing List.Pairwise.nil
  | _ => exact List.Pairwise.nil

/-- A table holds the entries whose value can be used. -/
theorem mem_table {v : Json}
    (distinct : ∀ entries, v = .object entries → (entries.map Prod.fst).Nodup) :
    (key, value) ∈ table decode v ↔
      ∃ answer, Json.atKey? v key = some answer ∧ decode answer = some value := by
  cases v with
  | object entries =>
      have distinct := distinct entries rfl
      rw [table_object, mem_foldl_addEntry distinct (by simp)]
      simp only [List.not_mem_nil, false_or, Json.atKey?, Json.entry?_eq_some_iff distinct]
  | _ => simp [table, Json.atKey?]

end Tables

theorem peerMeta?_eq_true_iff {v : Json} : peerMeta? v = some true ↔ v.SaysOptional := by
  cases v with
  | object answers =>
      cases found : Json.entry? answers "optional" with
      | none => simp [peerMeta?, Json.SaysOptional, found]
      | some answer => cases answer <;> simp [peerMeta?, Json.SaysOptional, found, Json.bool?]
  | array items =>
      match items with
      | [] => simp [peerMeta?, Json.SaysOptional]
      | [item] => cases item <;> simp [peerMeta?, Json.SaysOptional, Json.bool?]
      | _ :: _ :: _ => simp [peerMeta?, Json.SaysOptional]
  | _ => simp [peerMeta?, Json.SaysOptional]

/-! ## Members and fields -/

open Json (Reader Heading Spelling Document memberValue? blanks)
open Json.Reader (code bind_ok)

variable {f g : Field} {fields fields' : Fields} {m : Heading × Spelling}
  {members : List (Heading × Spelling)}

/-- The field that a member gives, if its key is known. -/
def fieldOf? (m : Heading × Spelling) : Option Field := Field.all.find? (·.key == m.1.name)

theorem find?_key_eq_some_iff {key : String} :
    Field.all.find? (·.key == key) = some f ↔ f.key = key := by
  constructor
  · intro found
    simpa using List.find?_some found
  · rintro rfl
    cases f <;> rfl

theorem fieldOf?_eq_some_iff : fieldOf? m = some f ↔ f.key = m.1.name := find?_key_eq_some_iff

/-- A field is the same in two sets of fields. -/
def Field.Agrees (fields fields' : Fields) : Field → Prop
  | .name => fields.name = fields'.name
  | .version => fields.version = fields'.version
  | .main => fields.main = fields'.main
  | .moduleType => fields.moduleType = fields'.moduleType
  | .exportMap => fields.exportMap = fields'.exportMap
  | .dependencies => fields.dependencies = fields'.dependencies
  | .optionalDependencies => fields.optionalDependencies = fields'.optionalDependencies
  | .peerDependencies => fields.peerDependencies = fields'.peerDependencies
  | .peerMeta => fields.peerOptional = fields'.peerOptional

namespace Field.Agrees

theorem refl (fields : Fields) (f : Field) : f.Agrees fields fields := by
  cases f <;> rfl

theorem trans {fields'' : Fields} (first : f.Agrees fields fields')
    (second : f.Agrees fields' fields'') : f.Agrees fields fields'' := by
  cases f <;> exact Eq.trans first second

theorem symm (agrees : f.Agrees fields fields') : f.Agrees fields' fields := by
  cases f <;> exact Eq.symm agrees

/-- Storing a field leaves the others. -/
theorem set_of_ne (other : f ≠ g) (fields : Fields) (v : Json) :
    f.Agrees (fields.set v g) fields := by
  cases f <;> cases g <;> first | rfl | exact absurd rfl other

/-- What a field becomes does not depend on what was there. -/
theorem set_self (fields fields' : Fields) (v : Json) (f : Field) :
    f.Agrees (fields.set v f) (fields'.set v f) := by
  cases f <;> rfl

end Field.Agrees

/-- Stores what a member gives. -/
def Fields.take (fields : Fields) (m : Heading × Spelling) : Fields :=
  match fieldOf? m, m.2.value? with
  | some f, some v => fields.set v f
  | _, _ => fields

/-- The fields of which only one is given. -/
def Fields.only (f : Field) : Option Json → Fields
  | some v => Fields.set {} v f
  | none => {}

theorem take_agrees (other : m.1.name ≠ f.key) (fields : Fields) :
    f.Agrees (fields.take m) fields := by
  unfold Fields.take
  split
  · next g v known given =>
      refine .set_of_ne ?_ fields v
      rintro rfl
      exact other (fieldOf?_eq_some_iff.mp known).symm
  · exact .refl fields f

theorem foldl_take_agrees (others : ∀ m ∈ members, m.1.name ≠ f.key) (fields : Fields) :
    f.Agrees (members.foldl Fields.take fields) fields := by
  induction members generalizing fields with
  | nil => exact .refl fields f
  | cons m rest ih =>
      obtain ⟨here, there⟩ := List.forall_mem_cons.mp others
      exact (ih there _).trans (take_agrees here fields)

/-- What is gathered from members with different keys has each field from its own member. -/
theorem foldl_take_only (distinct : (members.map (·.1.name)).Nodup) {fields : Fields}
    (empty : f.Agrees fields {}) :
    f.Agrees (members.foldl Fields.take fields) (.only f (memberValue? members f.key)) := by
  induction members generalizing fields with
  | nil => exact empty
  | cons m rest ih =>
      rw [List.map_cons, List.nodup_cons] at distinct
      rw [List.foldl_cons]
      by_cases own : m.1.name = f.key
      · have others : ∀ m' ∈ rest, m'.1.name ≠ f.key := fun m' member same =>
          distinct.1 (own ▸ same ▸ List.mem_map_of_mem member)
        refine (foldl_take_agrees others _).trans ?_
        have value : memberValue? (m :: rest) f.key = m.2.value? := by
          simp [memberValue?, own]
        rw [value, Fields.take, fieldOf?_eq_some_iff.mpr own.symm]
        cases m.2.value? with
        | none => exact empty
        | some v => exact .set_self fields {} v f
      · have value : memberValue? (m :: rest) f.key = memberValue? rest f.key := by
          simp [memberValue?, own]
        rw [value]
        exact ih distinct.2 ((take_agrees own fields).trans empty)

/-! ## Reading the members -/

variable {d : Document} {bound : Nat} {rest : List UInt8}

/-- A member whose value can be read if it belongs to a field: every number stays in range, and the
nesting leaves room for the object around it. A member that is no field may hold anything. -/
def IsLegible (depth : Nat) (m : Heading × Spelling) : Prop :=
  (fieldOf? m).isSome → (∀ n ∈ m.2.numerals, n.value?.isSome) ∧ m.2.nesting < depth

variable {depth : Nat} {state : Fields × List Field}

/-- An entry is read to its end and stores what its member gives. -/
theorem readEntry_text (legible : IsLegible depth m) (enough : m.2.text.length ≤ bound)
    (unseen : ∀ f ∈ state.2, f.key ≠ m.1.name) (ended : Json.Ended rest) :
    ∃ seen, (∀ f ∈ seen, f ∈ state.2 ∨ f.key = m.1.name) ∧
      readEntry depth bound state m.1.name (blanks m.1.beforeColon ++ code ':' ::
          (blanks m.1.beforeValue ++ (m.2.text ++ rest))) = .ok ((state.1.take m, seen), rest) := by
  have known : Field.all.find? (·.key == m.1.name) = fieldOf? m := rfl
  rw [readEntry, known]
  cases field : fieldOf? m with
  | none =>
      refine ⟨state.2, fun f member => .inl member, ?_⟩
      change (Reader.colon >>= _) _ = _
      rw [bind_ok (Json.colon_blanks m.1.beforeColon),
        bind_ok (m.2.isSkipped m.1.beforeValue enough ended), Fields.take, field]
      rfl
  | some f =>
      obtain ⟨numbers, shallow⟩ := legible (by rw [field]; rfl)
      obtain ⟨v, value⟩ := m.2.exists_value? numbers
      have isKey := fieldOf?_eq_some_iff.mp field
      have fresh : ¬state.2.contains f = true := fun seen =>
        unseen f (List.contains_iff_mem.mp seen) isKey
      refine ⟨f :: state.2, List.forall_mem_cons.mpr ⟨.inr isKey, fun g member => .inl member⟩, ?_⟩
      dsimp only
      rw [if_neg fresh, bind_ok (Json.colon_blanks m.1.beforeColon),
        bind_ok (m.2.isRead m.1.beforeValue enough shallow value ended), Fields.take, field, value]
      rfl

/-- The members are read one by one. -/
theorem entriesFrom_texts {first : Bool} (close : List Json.Blank)
    (distinct : (members.map (·.1.name)).Nodup) (legible : ∀ m ∈ members, IsLegible depth m)
    (enough : (Spelling.memberTexts first members).length < bound)
    (unseen : ∀ m ∈ members, ∀ f ∈ state.2, f.key ≠ m.1.name) :
    ∃ seen, Reader.entriesFrom (readEntry depth) bound first state
        (Spelling.memberTexts first members ++ (blanks close ++ code '}' :: rest)) =
      .ok ((members.foldl Fields.take state.1, seen), code '}' :: rest) := by
  induction members generalizing bound first state with
  | nil =>
      obtain ⟨bound, rfl⟩ := Nat.exists_eq_succ_of_ne_zero (Nat.ne_zero_of_lt enough)
      refine ⟨state.2, ?_⟩
      rw [Spelling.memberTexts, List.nil_append, Reader.entriesFrom,
        bind_ok (Json.hasKey_close first close)]
      rfl
  | cons m members ih =>
      obtain ⟨heading, s⟩ := m
      obtain ⟨bound, rfl⟩ := Nat.exists_eq_succ_of_ne_zero (Nat.ne_zero_of_lt enough)
      rw [List.map_cons, List.nodup_cons] at distinct
      obtain ⟨here, there⟩ := List.forall_mem_cons.mp legible
      obtain ⟨unseenHere, unseenThere⟩ := List.forall_mem_cons.mp unseen
      rw [Spelling.memberTexts, List.length_append, List.length_append] at enough
      have := s.text_length_pos
      have ended : Json.Ended
          (Spelling.memberTexts false members ++ (blanks close ++ code '}' :: rest)) :=
        Spelling.ended_memberTexts members close
      have short : s.text.length ≤ bound := by omega
      obtain ⟨seen, origin, read⟩ := readEntry_text here short unseenHere ended
      have unseenLater : ∀ m ∈ members, ∀ f ∈ seen, f.key ≠ m.1.name := by
        intro m member f among same
        rcases origin f among with before | now
        · exact unseenThere m member f before same
        · exact distinct.1 (now.symm.trans same ▸ List.mem_map_of_mem member)
      obtain ⟨all, further⟩ : ∃ all, Reader.entriesFrom (readEntry depth) bound false
          (state.1.take (heading, s), seen)
          (Spelling.memberTexts false members ++ (blanks close ++ code '}' :: rest)) =
        .ok ((members.foldl Fields.take (state.1.take (heading, s)), all), code '}' :: rest) :=
        ih distinct.2 there (by omega) unseenLater
      have dropped (more : List UInt8) : Reader.drop (code '"' :: more) = .ok ((), more) := rfl
      refine ⟨all, ?_⟩
      rw [Spelling.memberTexts, List.append_assoc, List.append_assoc, Reader.entriesFrom,
        bind_ok (Spelling.hasKey_heading heading first)]
      simp only [if_true]
      rw [bind_ok (dropped _), bind_ok (Json.Piece.string_texts heading.key)]
      exact (bind_ok read).trans further

/-- A document whose manifest is read: the keys of its members differ, and those that are fields can
be read. -/
structure Readable (d : Document) : Prop where
  distinct : (d.members.map (·.1.name)).Nodup
  legible : ∀ m ∈ d.members, IsLegible (Reader.nestingLimit - 1) m

theorem text_eq (d : Document) : d.text = blanks d.before ++ code '{' ::
    (Spelling.memberTexts true d.members ++ (blanks d.close ++ code '}' :: blanks d.after)) := by
  simp [Document.text, Spelling.text]

theorem readFields_text (readable : Readable d) (enough : d.text.length ≤ bound) :
    readFields bound d.text = .ok (d.members.foldl Fields.take {}, blanks d.after) := by
  rw [text_eq] at enough ⊢
  simp only [List.length_append, List.length_cons] at enough
  obtain ⟨seen, read⟩ : ∃ seen, Reader.entriesFrom (readEntry (Reader.nestingLimit - 1)) bound true
      ({}, []) (Spelling.memberTexts true d.members ++
        (blanks d.close ++ code '}' :: blanks d.after)) =
      .ok ((d.members.foldl Fields.take {}, seen), code '}' :: blanks d.after) :=
    entriesFrom_texts d.close readable.distinct readable.legible (by omega) (by simp)
  rw [readFields, bind_ok (Json.peekPart_blanks d.before (by decide))]
  have brace (more : List UInt8) :
      Reader.object bound Reader.nestingLimit (readEntry (Reader.nestingLimit - 1)) ({}, [])
          (code '{' :: more) =
        Reader.closedBy Reader.endObject
          (Reader.entriesFrom (readEntry (Reader.nestingLimit - 1)) bound true ({}, [])) more := rfl
  have object := (brace _).trans (Json.closedBy_ok read Json.endObject_close)
  exact bind_ok object

theorem endDocument_blanks (run : List Json.Blank) :
    Reader.endDocument (blanks run) = .ok ((), []) := by
  have passed : (blanks run).dropWhile Reader.isBlank = [] := by
    induction run with
    | nil => rfl
    | cons blank run ih => simpa [blanks, Json.isBlank_byte] using ih
  have nothing : Reader.peekPart (blanks run) = .ok (none, []) := by
    rw [Reader.peekPart, passed]
    rfl
  rw [Reader.endDocument, bind_ok nothing]
  rfl

theorem run_text (readable : Readable d) :
    Reader.run readFields d.text = .ok (d.members.foldl Fields.take {}) := by
  have read : readFields (d.text.length + 2) d.text =
      .ok (d.members.foldl Fields.take {}, blanks d.after) :=
    readFields_text readable (by omega)
  have ended := endDocument_blanks d.after
  have whole : (do
      let fields ← readFields (d.text.length + 2)
      Reader.endDocument
      pure fields : Reader Fields) d.text = .ok (d.members.foldl Fields.take {}, []) := by
    rw [bind_ok read, bind_ok ended]
    rfl
  rw [Reader.run]
  simp only [whole]

/-! ## The fields of the result -/

/-- A field is the same in two manifests. -/
def Field.Same (m m' : Manifest) : Field → Prop
  | .name => m.name = m'.name
  | .version => m.version = m'.version
  | .main => m.main = m'.main
  | .moduleType => m.moduleType = m'.moduleType
  | .exportMap => m.exportMap = m'.exportMap
  | .dependencies => m.dependencies = m'.dependencies
  | .optionalDependencies => m.optionalDependencies = m'.optionalDependencies
  | .peerDependencies => m.peerDependencies = m'.peerDependencies
  | .peerMeta => m.peerOptional = m'.peerOptional

theorem Field.Agrees.same (agrees : f.Agrees fields fields') (directory directory' : Path) :
    f.Same (ofFields directory fields) (ofFields directory' fields') := by
  cases f with
  | main => exact congrArg (Option.filter _) agrees
  | optionalDependencies => exact congrArg (List.map Prod.fst) agrees
  | name | version | moduleType | exportMap | dependencies | peerDependencies | peerMeta =>
      exact agrees

theorem string?_eq_some_iff {v : Json} {s : String} : v.string? = some s ↔ v = .string s := by
  cases v <;> simp [Json.string?]

section Given

variable {given : Option Json}

theorem bind_string?_eq_some_iff {s : String} :
    given.bind Json.string? = some s ↔ given = some (.string s) := by
  cases given <;> simp [string?_eq_some_iff]

variable {α : Type} {decode : Json → Option α}

theorem elim_table_increasing : ((given.elim [] (table decode)).map Prod.fst).Pairwise (· < ·) := by
  cases given with
  | none => exact List.Pairwise.nil
  | some v => exact table_increasing decode v

theorem mem_elim_table {key : String} {value : α}
    (distinct : ∀ entries, given = some (.object entries) → (entries.map Prod.fst).Nodup) :
    (key, value) ∈ given.elim [] (table decode) ↔
      ∃ answer, given.bind (Json.atKey? · key) = some answer ∧
        decode answer = some value := by
  cases given with
  | none => simp
  | some v => exact mem_table fun entries same => distinct entries (congrArg some same)

theorem mem_strings {key range : String}
    (distinct : ∀ entries, given = some (.object entries) → (entries.map Prod.fst).Nodup) :
    (key, range) ∈ given.elim [] (table Json.string?) ↔
      given.bind (Json.atKey? · key) = some (.string range) := by
  rw [mem_elim_table distinct]
  simp [string?_eq_some_iff]

end Given

/-- The value of a key has each of its own keys once. -/
theorem nodup_of_value? (key : String) (entries : List (String × Json))
    (given : d.value? key = some (.object entries)) : (entries.map Prod.fst).Nodup := by
  obtain ⟨m, -, means⟩ := Option.bind_eq_some_iff.mp given
  exact Spelling.nodup_of_value? means

/-- The fields that a document gives, each from the member with its key. -/
def fieldsOf (d : Document) : Fields where
  name := (d.value? "name").bind Json.string?
  version := (d.value? "version").bind Json.string?
  main := (d.value? "main").bind Json.string?
  moduleType := (d.value? "type").bind Json.string?
  exportMap := (d.value? "exports").filter fun v => !v matches .null
  dependencies := (d.value? "dependencies").elim [] (table Json.string?)
  optionalDependencies := (d.value? "optionalDependencies").elim [] (table Json.string?)
  peerDependencies := (d.value? "peerDependencies").elim [] (table Json.string?)
  peerOptional := (d.value? "peerDependenciesMeta").elim [] (table peerMeta?)

theorem only_agrees (d : Document) (f : Field) :
    f.Agrees (.only f (d.value? f.key)) (fieldsOf d) := by
  cases f with
  | exportMap =>
      change (Fields.only .exportMap (d.value? "exports")).exportMap =
        (d.value? "exports").filter fun v => !v matches .null
      cases d.value? "exports" with
      | none => rfl
      | some v => cases v <;> rfl
  | name | version | main | moduleType | dependencies | optionalDependencies | peerDependencies
  | peerMeta =>
      unfold Field.Agrees fieldsOf
      dsimp only [Field.key]
      generalize d.value? _ = given
      cases given <;> rfl

theorem fields_ext (agrees : ∀ f : Field, f.Agrees fields fields') : fields = fields' := by
  have name := agrees .name
  have version := agrees .version
  have main := agrees .main
  have moduleType := agrees .moduleType
  have exportMap := agrees .exportMap
  have dependencies := agrees .dependencies
  have optionalDependencies := agrees .optionalDependencies
  have peerDependencies := agrees .peerDependencies
  have peerMeta := agrees .peerMeta
  cases fields
  cases fields'
  simp_all only [Field.Agrees]

/-- What is gathered from the members is what the document gives. -/
theorem foldl_take_eq (readable : Readable d) :
    d.members.foldl Fields.take {} = fieldsOf d :=
  fields_ext fun f => (foldl_take_only readable.distinct (.refl {} f)).trans (only_agrees d f)

theorem read_text (readable : Readable d) (path : Path) :
    read path d.text = .ok (ofFields (path.parent?.getD ⟨false, []⟩) (fieldsOf d)) := by
  rw [read, run_text readable, foldl_take_eq readable]

/-! ## What a manifest says -/

/-- What a manifest says is what its document says. -/
structure Reflects (m : Manifest) (d : Document) : Prop where
  name : ∀ s, m.name = some s ↔ d.value? "name" = some (.string s)
  version : ∀ s, m.version = some s ↔ d.value? "version" = some (.string s)
  main : ∀ s, m.main = some s ↔ d.value? "main" = some (.string s) ∧ Text.isBlankText s = false
  moduleType : ∀ s, m.moduleType = some s ↔ d.value? "type" = some (.string s)
  exportMap : ∀ v, m.exportMap = some v ↔ d.value? "exports" = some v ∧ v ≠ .null
  dependencies : (m.dependencies.map Prod.fst).Pairwise (· < ·) ∧ ∀ package range,
    (package, range) ∈ m.dependencies ↔
      d.tableValue? "dependencies" package = some (.string range)
  optionalDependencies : ∀ package, m.isOptional package = true ↔
    ∃ range, d.tableValue? "optionalDependencies" package = some (.string range)
  peerDependencies : (m.peerDependencies.map Prod.fst).Pairwise (· < ·) ∧ ∀ package range,
    (package, range) ∈ m.peerDependencies ↔
      d.tableValue? "peerDependencies" package = some (.string range)
  peerOptional : ∀ package, m.isPeerOptional package = true ↔
    ∃ answer, d.tableValue? "peerDependenciesMeta" package = some answer ∧ answer.SaysOptional

/-- Fields that each follow from their own member say what the document says. -/
theorem reflects (directory : Path) (d : Document) :
    Reflects (ofFields directory (fieldsOf d)) d where
  name _ := bind_string?_eq_some_iff
  version _ := bind_string?_eq_some_iff
  main s := by
    change ((d.value? "main").bind Json.string?).filter (!Text.isBlankText ·) = some s ↔ _
    rw [Option.filter_eq_some_iff, bind_string?_eq_some_iff, Bool.not_eq_true']
  moduleType _ := bind_string?_eq_some_iff
  exportMap v := by
    change (d.value? "exports").filter _ = some v ↔ _
    rw [Option.filter_eq_some_iff]
    cases v <;> simp
  dependencies := ⟨elim_table_increasing, fun _ _ => mem_strings (nodup_of_value? _)⟩
  optionalDependencies package := by
    have names : (ofFields directory (fieldsOf d)).optionalDependencies =
        ((d.value? "optionalDependencies").elim [] (table Json.string?)).map Prod.fst := rfl
    rw [isOptional, names, List.contains_iff_mem, List.mem_map]
    simp only [Prod.exists, exists_and_right, exists_eq_right, mem_strings (nodup_of_value? _)]
    rfl
  peerDependencies := ⟨elim_table_increasing, fun _ _ => mem_strings (nodup_of_value? _)⟩
  peerOptional package := by
    have answers : (ofFields directory (fieldsOf d)).peerOptional =
        (d.value? "peerDependenciesMeta").elim [] (table peerMeta?) := rfl
    have distinct : (((d.value? "peerDependenciesMeta").elim [] (table peerMeta?)).map
        Prod.fst).Nodup := elim_table_increasing.imp ne_of_lt
    have said (answer? : Option Bool) : answer?.getD false = true ↔ answer? = some true := by
      cases answer? <;> simp
    rw [isPeerOptional, answers, said, Json.entry?_eq_some_iff distinct,
      mem_elim_table (nodup_of_value? _)]
    simp only [peerMeta?_eq_true_iff]
    rfl

/-! ## Edits -/

/-- An edit of the members of a document: the value of one of them is replaced, or members that are
no fields are added, removed or moved. Its first argument is the key of the member that is
replaced. -/
inductive Edit : Option String → List (Heading × Spelling) → List (Heading × Spelling) → Prop
  | replace {heading heading' : Heading} (front back : List (Heading × Spelling))
      (same : heading.name = heading'.name) (s s' : Spelling) :
      Edit (some heading.name) (front ++ (heading, s) :: back) (front ++ (heading', s') :: back)
  | unknown {members members' : List (Heading × Spelling)}
      (same : members.filter (fieldOf? · |>.isSome) = members'.filter (fieldOf? · |>.isSome)) :
      Edit none members members'

/-- The value of a field is that of a member that is a field. -/
theorem memberValue?_filter (members : List (Heading × Spelling)) (f : Field) :
    memberValue? (members.filter (fieldOf? · |>.isSome)) f.key = memberValue? members f.key := by
  have known (m : Heading × Spelling) (own : (m.1.name == f.key) = true) : (fieldOf? m).isSome := by
    rw [fieldOf?_eq_some_iff.mpr (eq_of_beq own).symm]
    rfl
  rw [memberValue?, memberValue?, List.find?_filter]
  congr 2
  funext m
  cases own : m.1.name == f.key with
  | false => simp
  | true => simp [known m own]

/-- An edit leaves the values of the other fields. -/
theorem Edit.memberValue?_eq {touched : Option String} {members' : List (Heading × Spelling)}
    (edit : Edit touched members members') (other : touched ≠ some f.key) :
    memberValue? members f.key = memberValue? members' f.key := by
  cases edit with
  | replace front back same s s' =>
      have here : ∀ name, name ≠ f.key → (name == f.key) = false := fun _ => beq_eq_false_iff_ne.mpr
      have apart : _ ≠ f.key := fun own => other (congrArg some own)
      simp only [memberValue?, List.find?_append, List.find?_cons, here _ apart,
        here _ (same ▸ apart)]
  | unknown same => rw [← memberValue?_filter, same, memberValue?_filter]

theorem same_of_value? {d' : Document} (directory : Path)
    (same : d.value? f.key = d'.value? f.key) :
    f.Same (ofFields directory (fieldsOf d)) (ofFields directory (fieldsOf d')) := by
  refine Field.Agrees.same ?_ directory directory
  have agrees := only_agrees d f
  rw [same] at agrees
  exact agrees.symm.trans (only_agrees d' f)

/-- **Manifests are read field by field.** The manifest of an object with different keys is read,
whatever its values are, if the numbers of its fields stay in range and are not nested too deep. A
field of the wrong kind counts as absent, and so does an entry of the wrong kind in a table; and an
edit of one member, or of members that are no fields, changes no other field. -/
theorem read_fieldwise (path : Path) (d : Document) (readable : Readable d) :
    ∃ m, read path d.text = .ok m ∧ m.directory = path.parent?.getD ⟨false, []⟩ ∧ Reflects m d ∧
      ∀ touched d', Edit touched d.members d'.members → Readable d' →
        ∃ m', read path d'.text = .ok m' ∧ m'.directory = m.directory ∧
          ∀ f : Field, touched ≠ some f.key → f.Same m m' :=
  ⟨_, read_text readable path, rfl, reflects _ d, fun _ _ edit readable' =>
    ⟨_, read_text readable' path, rfl, fun _ other =>
      same_of_value? _ (edit.memberValue?_eq other)⟩⟩

namespace Example

/-- The characters of a text as they are, if they may stand so. -/
def plain (text : String) : List Json.Piece :=
  text.toList.filterMap fun c =>
    if allowed : 0x20 ≤ c.toNat ∧ c ≠ '"' ∧ c ≠ '\\' then some (.plain c allowed) else none

/-- A member of an object. -/
def member (key : List Json.Piece) (value : Spelling) : Heading × Spelling :=
  (⟨⟨[], [.space]⟩, key, [], [.space]⟩, value)

/-- The number `1e999`. -/
def huge : Json.Numeral := ⟨false, ⟨1, []⟩, nofun, none, some ⟨false, .absent, ⟨9, [9, 9]⟩⟩⟩

/-- A manifest with values of several kinds, an escaped key, and a number out of range in a member
that is no field. -/
def mixed (version : Spelling) : Document where
  before := []
  members :=
    [member (plain "version") version,
      member (plain "main") (.string (plain " ")),
      member (.unit ⟨⟨0, false⟩, ⟨0, false⟩, ⟨6, false⟩, ⟨14, true⟩⟩ (by decide) :: plain "ame")
        (.string (plain "p")),
      member (plain "huge") (.array [(⟨[], []⟩, .number huge)] []),
      member (plain "dependencies") (.object
        [member (plain "q") (.string (plain "1")), member (plain "r") .null] []),
      member (plain "peerDependenciesMeta") (.object
        [member (plain "s") (.object [member (plain "optional") (.bool true)] []),
          member (plain "t") (.bool true)] [])]
  close := [.lineFeed]
  after := [.lineFeed]

/-- A version that is a number, and one that is a string. -/
def number : Spelling := .number ⟨false, ⟨1, []⟩, nofun, none, none⟩

def string : Spelling := .string (plain "1")

end Example

open Example (mixed number) in
/-- A version that is a number counts as absent, and replacing it by a string changes no other
field. -/
theorem read_fieldwise_mixed : Readable (mixed number) ∧ Readable (mixed Example.string) ∧
    ∃ m m', read (Path.root.child fileName) (mixed number).text = .ok m ∧
      read (Path.root.child fileName) (mixed Example.string).text = .ok m' ∧
      m.version = none ∧ m'.version = some "1" ∧ m.name = some "p" ∧ m'.name = some "p" ∧
      m.main = none ∧ ("q", "1") ∈ m.dependencies ∧ m.isPeerOptional "s" = true ∧
      ¬m.isPeerOptional "t" = true := by
  have readable : Readable (mixed number) := ⟨by decide, by unfold IsLegible; decide⟩
  have readable' : Readable (mixed Example.string) := ⟨by decide, by unfold IsLegible; decide⟩
  obtain ⟨m, read, -, reflects, edits⟩ :=
    read_fieldwise (Path.root.child fileName) (mixed number) readable
  obtain ⟨m', read', -, reflects', -⟩ :=
    read_fieldwise (Path.root.child fileName) (mixed Example.string) readable'
  obtain ⟨m'', read'', -, same⟩ :=
    edits _ (mixed Example.string) (.replace [] _ rfl number Example.string) readable'
  cases read'.symm.trans read''
  have name : m.name = some "p" := (reflects.name _).mpr rfl
  have version : m.version = none := by
    cases given : m.version with
    | none => rfl
    | some s => cases (reflects.version s).mp given
  have main : m.main = none := by
    cases given : m.main with
    | none => rfl
    | some s =>
        obtain ⟨written, notBlank⟩ := (reflects.main s).mp given
        cases written
        cases notBlank
  refine ⟨readable, readable', m, m', read, read', version, (reflects'.version _).mpr rfl, name,
    (same .name (by decide)).symm.trans name, main, (reflects.dependencies.2 _ _).mpr rfl,
    (reflects.peerOptional _).mpr ⟨_, rfl, rfl⟩, fun missing => ?_⟩
  obtain ⟨answer, given, optional⟩ := (reflects.peerOptional _).mp missing
  cases given
  exact optional

end FunctionArchive.Manifest
