import FunctionArchive.Proofs.Json.Numbers
import Mathlib.Tactic.IntervalCases

/-!
# Reading values

A reader that is given the text of a value gives the value that is meant, at any depth that its
nesting allows (`Spelling.isRead`), and one that passes over the value takes the same text
(`Spelling.isSkipped`), however deep it is nested and whatever its numbers are. Both are by
induction on the value, with one loop over the items of an array and one over the members of an
object.
-/

set_option autoImplicit false

namespace FunctionArchive.Json

open Reader

variable {rest : List UInt8} {b : UInt8}

/-! ## Between the parts -/

theorem isBlank_byte (blank : Blank) : isBlank blank.byte = true := by
  cases blank <;> rfl

/-- Blanks are passed. -/
theorem peekPart_blanks (run : List Blank) (part : isBlank b = false) :
    peekPart (blanks run ++ b :: rest) = .ok (some b, b :: rest) := by
  have passed : (blanks run ++ b :: rest).dropWhile isBlank = b :: rest := by
    induction run with
    | nil => simp [blanks, part]
    | cons blank run ih => simpa [blanks, isBlank_byte] using ih
  rw [peekPart, passed]
  rfl

/-- A number ends in front of a blank, a comma or a closing bracket. -/
theorem ended_blanks (run : List Blank) (ended : Ended (b :: rest)) :
    Ended (blanks run ++ b :: rest) := by
  cases run with
  | nil => exact ended
  | cons blank run =>
      rintro _ ⟨⟩
      cases blank <;> decide

theorem ended_cons (other : isDigit b = false ∧ b ≠ code '.' ∧ b ≠ code 'e' ∧ b ≠ code 'E') :
    Ended (b :: rest) := by
  rintro _ ⟨⟩
  exact other

theorem closedBy_ok {α : Type} {finish : Reader Unit} {body : Reader α} {bytes left : List UInt8}
    {a : α} (inside : body bytes = .ok (a, left)) (closed : finish left = .ok ((), rest)) :
    closedBy finish body bytes = .ok (a, rest) := by
  rw [closedBy, inside]
  dsimp only
  rw [closed]

/-- The first byte of a value is neither blank nor a closing bracket. -/
theorem Spelling.text_eq_cons (s : Spelling) :
    ∃ b more, s.text = b :: more ∧ isBlank b = false ∧ b ≠ code ']' := by
  cases s with
  | null => exact ⟨_, _, rfl, rfl, by decide⟩
  | bool b => cases b <;> exact ⟨_, _, rfl, rfl, by decide⟩
  | number n =>
      rw [text, Numeral.text]
      split
      · exact ⟨_, _, rfl, rfl, by decide⟩
      · refine ⟨digit n.whole.first, _, rfl, ?_, digit_ne _ (by decide)⟩
        generalize n.whole.first = d
        revert d
        decide
  | string s => exact ⟨_, _, rfl, rfl, by decide⟩
  | array items close => exact ⟨_, _, rfl, rfl, by decide⟩
  | object members close => exact ⟨_, _, rfl, rfl, by decide⟩

/-! ## The parts of arrays and objects -/

theorem hasElement_gap (gap : Gap) (first : Bool) (s : Spelling) :
    hasElement first (gap.text first ++ (s.text ++ rest)) = .ok (true, s.text ++ rest) := by
  obtain ⟨b, more, same, part, notClose⟩ := s.text_eq_cons
  have inside : peekPart (blanks gap.before ++ (s.text ++ rest)) =
      .ok (some b, s.text ++ rest) := by
    rw [same]
    exact peekPart_blanks gap.before part
  have other : (b == code ']') = false := beq_eq_false_iff_ne.mpr notClose
  cases first with
  | true =>
      rw [Gap.text, if_pos rfl, List.nil_append, hasElement, bind_ok inside]
      simp only [other]
      rfl
  | false =>
      have comma : peekPart (blanks gap.beforeComma ++
          code ',' :: (blanks gap.before ++ (s.text ++ rest))) =
            .ok (some (code ','), code ',' :: (blanks gap.before ++ (s.text ++ rest))) :=
        peekPart_blanks gap.beforeComma (by decide)
      have dropped : drop (code ',' :: (blanks gap.before ++ (s.text ++ rest))) =
          .ok ((), blanks gap.before ++ (s.text ++ rest)) := rfl
      rw [Gap.text, if_neg Bool.false_ne_true, List.append_assoc, List.append_assoc,
        List.singleton_append, hasElement, bind_ok comma]
      change (drop >>= _) _ = _
      rw [bind_ok dropped, bind_ok inside]
      simp only [other]
      rfl

theorem hasElement_close (first : Bool) (close : List Blank) :
    hasElement first (blanks close ++ code ']' :: rest) = .ok (false, code ']' :: rest) := by
  rw [hasElement, bind_ok (peekPart_blanks close (by decide))]
  rfl

theorem endArray_close : endArray (code ']' :: rest) = .ok ((), rest) := rfl

theorem hasKey_gap (gap : Gap) (first : Bool) :
    hasKey first (gap.text first ++ code '"' :: rest) = .ok (true, code '"' :: rest) := by
  have inside : peekPart (blanks gap.before ++ code '"' :: rest) =
      .ok (some (code '"'), code '"' :: rest) := peekPart_blanks gap.before (by decide)
  cases first with
  | true =>
      rw [Gap.text, if_pos rfl, List.nil_append, hasKey, bind_ok inside]
      rfl
  | false =>
      have comma : peekPart (blanks gap.beforeComma ++
          code ',' :: (blanks gap.before ++ code '"' :: rest)) =
            .ok (some (code ','), code ',' :: (blanks gap.before ++ code '"' :: rest)) :=
        peekPart_blanks gap.beforeComma (by decide)
      have dropped : drop (code ',' :: (blanks gap.before ++ code '"' :: rest)) =
          .ok ((), blanks gap.before ++ code '"' :: rest) := rfl
      rw [Gap.text, if_neg Bool.false_ne_true, List.append_assoc, List.append_assoc,
        List.singleton_append, hasKey, bind_ok comma]
      change (drop >>= _) _ = _
      rw [bind_ok dropped, bind_ok inside]
      rfl

theorem hasKey_close (first : Bool) (close : List Blank) :
    hasKey first (blanks close ++ code '}' :: rest) = .ok (false, code '}' :: rest) := by
  rw [hasKey, bind_ok (peekPart_blanks close (by decide))]
  rfl

theorem endObject_close : endObject (code '}' :: rest) = .ok ((), rest) := rfl

theorem colon_blanks (run : List Blank) :
    colon (blanks run ++ code ':' :: rest) = .ok ((), rest) := by
  rw [colon, bind_ok (peekPart_blanks run (by decide))]
  rfl

/-! ## Values -/

namespace Spelling

/-- What follows the text of an item ends it: a comma, or a closing bracket. -/
theorem ended_itemTexts (items : List (Gap × Spelling)) (close : List Blank) :
    Ended (itemTexts false items ++ (blanks close ++ code ']' :: rest)) := by
  cases items with
  | nil => exact ended_blanks close (ended_cons (by decide))
  | cons item items =>
      obtain ⟨gap, s⟩ := item
      simp only [itemTexts, Gap.text, Bool.false_eq_true, if_false, List.append_assoc]
      exact ended_blanks gap.beforeComma (ended_cons (by decide))

theorem ended_memberTexts (members : List (Heading × Spelling)) (close : List Blank) :
    Ended (memberTexts false members ++ (blanks close ++ code '}' :: rest)) := by
  cases members with
  | nil => exact ended_blanks close (ended_cons (by decide))
  | cons m members =>
      obtain ⟨heading, s⟩ := m
      simp only [memberTexts, Heading.text, Gap.text, Bool.false_eq_true, if_false,
        List.append_assoc]
      exact ended_blanks heading.gap.beforeComma (ended_cons (by decide))

/-- Reading gives the value that is meant, at any depth that the nesting allows. -/
def IsRead (s : Spelling) : Prop :=
  ∀ ⦃bound depth : Nat⦄ ⦃v : Json⦄ ⦃rest : List UInt8⦄ (run : List Blank), s.text.length ≤ bound →
    s.nesting < depth → s.value? = some v → Ended rest →
      value bound depth (blanks run ++ (s.text ++ rest)) = .ok (v, rest)

variable {bound depth : Nat}

theorem text_length_pos (s : Spelling) : 0 < s.text.length := by
  obtain ⟨b, more, same, -⟩ := s.text_eq_cons
  rw [same]
  exact Nat.succ_pos _

theorem value_blanks (run : List Blank) (s : Spelling) :
    value (bound + 1) depth (blanks run ++ (s.text ++ rest)) =
      value (bound + 1) depth (s.text ++ rest) := by
  obtain ⟨b, more, same, part, -⟩ := s.text_eq_cons
  have here : peekPart (b :: (more ++ rest)) = .ok (some b, b :: (more ++ rest)) :=
    peekPart_blanks [] part
  rw [same, List.cons_append, value, bind_ok (peekPart_blanks run part), bind_ok here]

/-- The items of an array are read one by one. -/
theorem items_texts {items : List (Gap × Spelling)} (each : ∀ item ∈ items, item.2.IsRead)
    {first : Bool} {taken values : List Json} (close : List Blank)
    (enough : (itemTexts first items).length < bound) (shallow : nestingOfItems items < depth)
    (means : itemValues? items = some values) :
    value.items bound depth first taken
        (itemTexts first items ++ (blanks close ++ code ']' :: rest)) =
      .ok (values.reverse ++ taken, code ']' :: rest) := by
  induction items generalizing bound first taken values with
  | nil =>
      cases means
      obtain ⟨bound, rfl⟩ := Nat.exists_eq_succ_of_ne_zero (Nat.ne_zero_of_lt enough)
      rw [itemTexts, List.nil_append, value.items, bind_ok (hasElement_close first close)]
      rfl
  | cons item items ih =>
      obtain ⟨gap, s⟩ := item
      obtain ⟨bound, rfl⟩ := Nat.exists_eq_succ_of_ne_zero (Nat.ne_zero_of_lt enough)
      obtain ⟨v, value, means⟩ := Option.bind_eq_some_iff.mp means
      obtain ⟨values, others, same⟩ := Option.bind_eq_some_iff.mp means
      cases same
      obtain ⟨here, there⟩ : s.IsRead ∧ ∀ item ∈ items, item.2.IsRead :=
        List.forall_mem_cons.mp each
      rw [itemTexts, List.length_append, List.length_append] at enough
      rw [nestingOfItems] at shallow
      have := s.text_length_pos
      have read : Reader.value bound depth
          (s.text ++ (itemTexts false items ++ (blanks close ++ code ']' :: rest))) =
            .ok (v, itemTexts false items ++ (blanks close ++ code ']' :: rest)) :=
        here [] (by omega) (by omega) value (ended_itemTexts items close)
      have further : Reader.value.items bound depth false (v :: taken)
          (itemTexts false items ++ (blanks close ++ code ']' :: rest)) =
            .ok (values.reverse ++ v :: taken, code ']' :: rest) :=
        ih there (by omega) (by omega) others
      rw [itemTexts, List.append_assoc, List.append_assoc, value.items,
        bind_ok (hasElement_gap gap first s)]
      simp only [if_true]
      rw [bind_ok read, further]
      simp

/-- A key is read to the quote behind it, when another member follows. -/
theorem hasKey_heading (heading : Heading) (first : Bool) :
    hasKey first (heading.text first ++ rest) =
      .ok (true, code '"' :: (Piece.texts heading.key ++ code '"' ::
        (blanks heading.beforeColon ++ code ':' :: (blanks heading.beforeValue ++ rest)))) := by
  have same : heading.text first ++ rest = heading.gap.text first ++ code '"' ::
      (Piece.texts heading.key ++ code '"' ::
        (blanks heading.beforeColon ++ code ':' :: (blanks heading.beforeValue ++ rest))) := by
    simp [Heading.text]
  rw [same, hasKey_gap]

/-- The members of an object are read one by one. -/
theorem fields_texts {members : List (Heading × Spelling)} (each : ∀ m ∈ members, m.2.IsRead)
    {first : Bool} {taken entries : List (String × Json)} (close : List Blank)
    (enough : (memberTexts first members).length < bound)
    (shallow : nestingOfMembers members < depth) (means : memberValues? members = some entries) :
    value.fields bound depth first taken
        (memberTexts first members ++ (blanks close ++ code '}' :: rest)) =
      .ok (entries.reverse ++ taken, code '}' :: rest) := by
  induction members generalizing bound first taken entries with
  | nil =>
      cases means
      obtain ⟨bound, rfl⟩ := Nat.exists_eq_succ_of_ne_zero (Nat.ne_zero_of_lt enough)
      rw [memberTexts, List.nil_append, value.fields, bind_ok (hasKey_close first close)]
      rfl
  | cons m members ih =>
      obtain ⟨heading, s⟩ := m
      obtain ⟨bound, rfl⟩ := Nat.exists_eq_succ_of_ne_zero (Nat.ne_zero_of_lt enough)
      obtain ⟨v, value, means⟩ := Option.bind_eq_some_iff.mp means
      obtain ⟨entries, others, same⟩ := Option.bind_eq_some_iff.mp means
      cases same
      obtain ⟨here, there⟩ : s.IsRead ∧ ∀ m ∈ members, m.2.IsRead :=
        List.forall_mem_cons.mp each
      rw [memberTexts, List.length_append, List.length_append] at enough
      rw [nestingOfMembers] at shallow
      have := s.text_length_pos
      have dropped (more : List UInt8) : drop (code '"' :: more) = .ok ((), more) := rfl
      have read : Reader.value bound depth (blanks heading.beforeValue ++
          (s.text ++ (memberTexts false members ++ (blanks close ++ code '}' :: rest)))) =
            .ok (v, memberTexts false members ++ (blanks close ++ code '}' :: rest)) :=
        here heading.beforeValue (by omega) (by omega) value (ended_memberTexts members close)
      have further : Reader.value.fields bound depth false ((heading.name, v) :: taken)
          (memberTexts false members ++ (blanks close ++ code '}' :: rest)) =
            .ok (entries.reverse ++ (heading.name, v) :: taken, code '}' :: rest) :=
        ih there (by omega) (by omega) others
      rw [memberTexts, List.append_assoc, List.append_assoc, value.fields,
        bind_ok (hasKey_heading heading first)]
      simp only [if_true]
      rw [bind_ok (dropped _), bind_ok (Piece.string_texts heading.key),
        bind_ok (colon_blanks heading.beforeColon), bind_ok read]
      rw [Heading.name] at further
      rw [further]
      simp [Heading.name]

theorem value_number (n : Numeral) (more : List UInt8) :
    value (bound + 1) depth (n.text ++ more) =
      (Reader.number n.negative >>= fun x => pure (.number x)) (n.unsigned ++ more) := by
  rw [Numeral.text]
  cases sign : n.negative with
  | true => rfl
  | false =>
      simp only [Bool.false_eq_true, if_false]
      rw [n.unsigned_eq]
      obtain ⟨d, small⟩ := n.whole.first
      interval_cases d <;> rfl

theorem value_array (deep : ¬depth ≤ 1) (more : List UInt8) :
    value (bound + 1) depth (code '[' :: more) =
      (closedBy endArray (value.items bound (depth - 1) true []) >>= fun items =>
        pure (.array items.reverse)) more := by
  have bracket : value (bound + 1) depth (code '[' :: more) =
      (if depth ≤ 1 then stopAhead .recursionLimit
      else do
        drop
        let items ← closedBy endArray (value.items bound (depth - 1) true [])
        return .array items.reverse : Reader Json) (code '[' :: more) := rfl
  rw [bracket, if_neg deep]
  rfl

theorem value_object (deep : ¬depth ≤ 1) (more : List UInt8) :
    value (bound + 1) depth (code '{' :: more) =
      (closedBy endObject (value.fields bound (depth - 1) true []) >>= fun entries =>
        pure (objectOf entries.reverse)) more := by
  have brace : value (bound + 1) depth (code '{' :: more) =
      (if depth ≤ 1 then stopAhead .recursionLimit
      else do
        drop
        let entries ← closedBy endObject (value.fields bound (depth - 1) true [])
        return objectOf entries.reverse : Reader Json) (code '{' :: more) := rfl
  rw [brace, if_neg deep]
  rfl

/-- It is enough to read a value without blanks in front of it. -/
theorem IsRead.of_text {s : Spelling} (read : ∀ ⦃bound depth : Nat⦄ ⦃v : Json⦄ ⦃rest : List UInt8⦄,
    s.text.length ≤ bound + 1 → s.nesting < depth → s.value? = some v → Ended rest →
      value (bound + 1) depth (s.text ++ rest) = .ok (v, rest)) : s.IsRead := by
  intro bound depth v rest run enough shallow means ended
  obtain ⟨bound, rfl⟩ := Nat.exists_eq_succ_of_ne_zero
    (Nat.ne_zero_of_lt (Nat.lt_of_lt_of_le s.text_length_pos enough))
  exact (value_blanks run s).trans (read enough shallow means ended)

/-- **Reading a value.** A reader that is given the text of a value gives the value. -/
theorem isRead (s : Spelling) : s.IsRead := by
  induction s using byParts with
  | null =>
      refine .of_text fun bound depth v rest _ _ means _ => ?_
      cases means
      rfl
  | bool b =>
      refine .of_text fun bound depth v rest _ _ means _ => ?_
      cases means
      cases b <;> rfl
  | number n =>
      refine .of_text fun bound depth v rest _ _ means ended => ?_
      obtain ⟨x, number, rfl⟩ := Option.map_eq_some_iff.mp means
      rw [text, value_number, bind_ok (n.number_unsigned ended number)]
      rfl
  | string s =>
      refine .of_text fun bound depth v rest _ _ means _ => ?_
      cases means
      have quoted : value (bound + 1) depth (text (.string s) ++ rest) =
          (Reader.string >>= fun s => pure (.string s)) (Piece.texts s ++ code '"' :: rest) := by
        simp only [text, List.cons_append, List.append_assoc, List.nil_append]
        rfl
      rw [quoted, bind_ok (Piece.string_texts s)]
      rfl
  | array items close each =>
      refine .of_text fun bound depth v rest enough shallow means _ => ?_
      obtain ⟨values, items_mean, rfl⟩ := Option.map_eq_some_iff.mp means
      rw [nesting] at shallow
      simp only [text, List.length_cons, List.length_append] at enough
      have read : value.items bound (depth - 1) true []
          (itemTexts true items ++ (blanks close ++ code ']' :: rest)) =
            .ok (values.reverse ++ [], code ']' :: rest) :=
        items_texts each close (by omega) (by omega) items_mean
      simp only [text, List.cons_append, List.append_assoc, List.nil_append]
      rw [value_array (by omega), bind_ok (closedBy_ok read endArray_close), List.append_nil,
        List.reverse_reverse]
      rfl
  | object members close each =>
      refine .of_text fun bound depth v rest enough shallow means _ => ?_
      obtain ⟨entries, members_mean, rfl⟩ := Option.map_eq_some_iff.mp means
      rw [nesting] at shallow
      simp only [text, List.length_cons, List.length_append] at enough
      have read : value.fields bound (depth - 1) true []
          (memberTexts true members ++ (blanks close ++ code '}' :: rest)) =
            .ok (entries.reverse ++ [], code '}' :: rest) :=
        fields_texts each close (by omega) (by omega) members_mean
      simp only [text, List.cons_append, List.append_assoc, List.nil_append]
      rw [value_object (by omega), bind_ok (closedBy_ok read endObject_close), List.append_nil,
        List.reverse_reverse]
      rfl

/-! ## Passing over values -/

/-- Passing over a value takes its text, and the blanks in front of it. -/
def IsSkipped (s : Spelling) : Prop :=
  ∀ ⦃bound : Nat⦄ ⦃rest : List UInt8⦄ (run : List Blank), s.text.length ≤ bound → Ended rest →
    skip bound (blanks run ++ (s.text ++ rest)) = .ok ((), rest)

theorem skip_blanks (run : List Blank) (s : Spelling) :
    skip (bound + 1) (blanks run ++ (s.text ++ rest)) = skip (bound + 1) (s.text ++ rest) := by
  obtain ⟨b, more, same, part, -⟩ := s.text_eq_cons
  have here : peekPart (b :: (more ++ rest)) = .ok (some b, b :: (more ++ rest)) :=
    peekPart_blanks [] part
  rw [same, List.cons_append, skip, bind_ok (peekPart_blanks run part), bind_ok here]

theorem IsSkipped.of_text {s : Spelling} (passed : ∀ ⦃bound : Nat⦄ ⦃rest : List UInt8⦄,
    s.text.length ≤ bound + 1 → Ended rest → skip (bound + 1) (s.text ++ rest) = .ok ((), rest)) :
    s.IsSkipped := by
  intro bound rest run enough ended
  obtain ⟨bound, rfl⟩ := Nat.exists_eq_succ_of_ne_zero
    (Nat.ne_zero_of_lt (Nat.lt_of_lt_of_le s.text_length_pos enough))
  exact (skip_blanks run s).trans (passed enough ended)

theorem skip_number (n : Numeral) (more : List UInt8) :
    skip (bound + 1) (n.text ++ more) = skipNumber (n.unsigned ++ more) := by
  rw [Numeral.text]
  cases sign : n.negative with
  | true => rfl
  | false =>
      simp only [Bool.false_eq_true, if_false]
      rw [n.unsigned_eq]
      obtain ⟨d, small⟩ := n.whole.first
      interval_cases d <;> rfl

/-- One item of an array is passed, and the others are left. -/
theorem skipItems_cons {s : Spelling} (each : s.IsSkipped) (gap : Gap) (first : Bool)
    (enough : s.text.length ≤ bound) (ended : Ended rest) :
    skip.items (bound + 1) first (gap.text first ++ (s.text ++ rest)) =
      skip.items bound false rest := by
  cases first with
  | true =>
      obtain ⟨b, more, same, part, notClose⟩ := s.text_eq_cons
      have passed := each [] enough ended
      have inside : peekPart (blanks gap.before ++ (s.text ++ rest)) =
          .ok (some b, s.text ++ rest) := by
        rw [same]
        exact peekPart_blanks gap.before part
      have other : (b == code ']') = false := beq_eq_false_iff_ne.mpr notClose
      rw [Gap.text, if_pos rfl, List.nil_append, skip.items, bind_ok inside]
      simp only [other, Bool.false_eq_true, if_false, if_true]
      exact bind_ok passed
  | false =>
      have comma : peekPart (blanks gap.beforeComma ++
          code ',' :: (blanks gap.before ++ (s.text ++ rest))) =
            .ok (some (code ','), code ',' :: (blanks gap.before ++ (s.text ++ rest))) :=
        peekPart_blanks gap.beforeComma (by decide)
      rw [Gap.text, if_neg Bool.false_ne_true, List.append_assoc, List.append_assoc,
        List.singleton_append, skip.items, bind_ok comma]
      exact bind_ok (each gap.before enough ended)

theorem skipItems_texts {items : List (Gap × Spelling)} (each : ∀ item ∈ items, item.2.IsSkipped)
    {first : Bool} (close : List Blank) (enough : (itemTexts first items).length < bound) :
    skip.items bound first (itemTexts first items ++ (blanks close ++ code ']' :: rest)) =
      .ok ((), rest) := by
  induction items generalizing bound first with
  | nil =>
      obtain ⟨bound, rfl⟩ := Nat.exists_eq_succ_of_ne_zero (Nat.ne_zero_of_lt enough)
      rw [itemTexts, List.nil_append, skip.items, bind_ok (peekPart_blanks close (by decide))]
      rfl
  | cons item items ih =>
      obtain ⟨gap, s⟩ := item
      obtain ⟨bound, rfl⟩ := Nat.exists_eq_succ_of_ne_zero (Nat.ne_zero_of_lt enough)
      obtain ⟨here, there⟩ : s.IsSkipped ∧ ∀ item ∈ items, item.2.IsSkipped :=
        List.forall_mem_cons.mp each
      rw [itemTexts, List.length_append, List.length_append] at enough
      have := s.text_length_pos
      rw [itemTexts, List.append_assoc, List.append_assoc,
        skipItems_cons here gap first (by omega) (ended_itemTexts items close)]
      exact ih there (by omega)

/-- Passing over a member of an object, in front of which a comma has been read if one is due, and
over the members behind it. -/
def skipMember (bound : Nat) : Reader Unit := do
  match ← peekPart with
  | none => stopAhead .eofObject
  | some b => if b == code '"' then drop else stopAhead .keyMustBeString
  skipString
  match ← peekPart with
  | none => stopAhead .eofObject
  | some b => if b == code ':' then drop else stopAhead .expectedColon
  skip bound
  skip.fields bound false

theorem skipMember_text {s : Spelling} (each : s.IsSkipped)
    (run beforeColon beforeValue : List Blank) (key : List Piece) (enough : s.text.length ≤ bound)
    (ended : Ended rest) :
    skipMember bound (blanks run ++ code '"' :: (Piece.texts key ++ code '"' ::
        (blanks beforeColon ++ code ':' :: (blanks beforeValue ++ (s.text ++ rest))))) =
      skip.fields bound false rest := by
  have quote : peekPart (blanks run ++ code '"' :: (Piece.texts key ++ code '"' ::
      (blanks beforeColon ++ code ':' :: (blanks beforeValue ++ (s.text ++ rest))))) = _ :=
    peekPart_blanks run (by decide)
  have colon : peekPart (blanks beforeColon ++ code ':' ::
      (blanks beforeValue ++ (s.text ++ rest))) = _ := peekPart_blanks beforeColon (by decide)
  rw [skipMember, bind_ok quote]
  change (skipString >>= _) (Piece.texts key ++ code '"' :: _) = _
  rw [bind_ok (Piece.skipString_texts key), bind_ok colon]
  exact bind_ok (each beforeValue enough ended)

/-- One member of an object is passed, and the others are left. -/
theorem skipFields_cons {s : Spelling} (each : s.IsSkipped) (heading : Heading) (first : Bool)
    (enough : s.text.length ≤ bound) (ended : Ended rest) :
    skip.fields (bound + 1) first (heading.text first ++ (s.text ++ rest)) =
      skip.fields bound false rest := by
  obtain ⟨gap, key, beforeColon, beforeValue⟩ := heading
  have member (run : List Blank) :=
    skipMember_text each run beforeColon beforeValue key enough ended
  cases first with
  | true =>
      simp only [Heading.text, Gap.text, if_true, List.nil_append, List.append_assoc,
        List.cons_append]
      rw [skip.fields, bind_ok (peekPart_blanks gap.before (by decide))]
      exact member []
  | false =>
      simp only [Heading.text, Gap.text, Bool.false_eq_true, if_false, List.nil_append,
        List.append_assoc, List.cons_append]
      rw [skip.fields, bind_ok (peekPart_blanks gap.beforeComma (by decide))]
      exact member gap.before

theorem skipFields_texts {members : List (Heading × Spelling)}
    (each : ∀ m ∈ members, m.2.IsSkipped) {first : Bool} (close : List Blank)
    (enough : (memberTexts first members).length < bound) :
    skip.fields bound first (memberTexts first members ++ (blanks close ++ code '}' :: rest)) =
      .ok ((), rest) := by
  induction members generalizing bound first with
  | nil =>
      obtain ⟨bound, rfl⟩ := Nat.exists_eq_succ_of_ne_zero (Nat.ne_zero_of_lt enough)
      rw [memberTexts, List.nil_append, skip.fields, bind_ok (peekPart_blanks close (by decide))]
      rfl
  | cons m members ih =>
      obtain ⟨heading, s⟩ := m
      obtain ⟨bound, rfl⟩ := Nat.exists_eq_succ_of_ne_zero (Nat.ne_zero_of_lt enough)
      obtain ⟨here, there⟩ : s.IsSkipped ∧ ∀ m ∈ members, m.2.IsSkipped :=
        List.forall_mem_cons.mp each
      rw [memberTexts, List.length_append, List.length_append] at enough
      have := s.text_length_pos
      rw [memberTexts, List.append_assoc, List.append_assoc,
        skipFields_cons here heading first (by omega) (ended_memberTexts members close)]
      exact ih there (by omega)

/-- **Passing over a value** takes its text, however deep it is nested and whatever its numbers
are. -/
theorem isSkipped (s : Spelling) : s.IsSkipped := by
  induction s using byParts with
  | null =>
      refine .of_text fun bound rest _ _ => ?_
      rfl
  | bool b =>
      refine .of_text fun bound rest _ _ => ?_
      cases b <;> rfl
  | number n =>
      refine .of_text fun bound rest _ ended => ?_
      rw [text, skip_number, n.skipNumber_unsigned ended]
  | string s =>
      refine .of_text fun bound rest _ _ => ?_
      have quoted : skip (bound + 1) (text (.string s) ++ rest) =
          skipString (Piece.texts s ++ code '"' :: rest) := by
        simp only [text, List.cons_append, List.append_assoc, List.nil_append]
        rfl
      rw [quoted, Piece.skipString_texts]
  | array items close each =>
      refine .of_text fun bound rest enough _ => ?_
      simp only [text, List.length_cons, List.length_append] at enough
      have bracket : skip (bound + 1) (text (.array items close) ++ rest) =
          skip.items bound true (itemTexts true items ++ (blanks close ++ code ']' :: rest)) := by
        simp only [text, List.cons_append, List.append_assoc, List.nil_append]
        rfl
      rw [bracket, skipItems_texts each close (by omega)]
  | object members close each =>
      refine .of_text fun bound rest enough _ => ?_
      simp only [text, List.length_cons, List.length_append] at enough
      have brace : skip (bound + 1) (text (.object members close) ++ rest) =
          skip.fields bound true
            (memberTexts true members ++ (blanks close ++ code '}' :: rest)) := by
        simp only [text, List.cons_append, List.append_assoc, List.nil_append]
        rfl
      rw [brace, skipFields_texts each close (by omega)]

end Spelling

end FunctionArchive.Json
