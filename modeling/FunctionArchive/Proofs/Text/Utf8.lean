import FunctionArchive.Text.CodePage437
import FunctionArchive.Text.Utf8
import Mathlib.Data.String.Basic
import Mathlib.Tactic.IntervalCases

/-!
# Texts as bytes

The bytes of a text are those of its characters, and these are made of the digits of the number of
the character to the base 64 (`Encodes`). So a text is read back from its bytes
(`decodeLossy_encode`, `decode?_encode`), and texts are in the order of their bytes
(`encode_lt_iff`). A text whose bytes are all ASCII is read back in other character sets too, and
whatever bytes are read leniently, characters in ASCII are shown for their own bytes only
(`eq_of_decodeLossy`, `mem_of_decodeLossy`).
-/

set_option autoImplicit false

namespace FunctionArchive.Utf8

/-- The bytes that are read from a position on, behind those that were read before. -/
theorem toList_loop (bytes : ByteArray) (i : Nat) (before : List UInt8) :
    ByteArray.toList.loop bytes i before = before.reverse ++ bytes.data.toList.drop i := by
  fun_induction ByteArray.toList.loop bytes i before with
  | case1 i before inside ih =>
      have inside' : i < bytes.data.toList.length := by simpa using inside
      rw [ih, List.drop_eq_getElem_cons inside']
      simp [ByteArray.get!, inside]
  | case2 i before outside =>
      have done : bytes.data.toList.length ≤ i := by simpa using outside
      rw [List.drop_eq_nil_of_le done, List.append_nil]

/-- The bytes of a text are those of its characters. -/
theorem encode_eq (text : String) : encode text = text.toList.flatMap String.utf8EncodeChar := by
  have bytes : text.toUTF8 = (text.toList.flatMap String.utf8EncodeChar).toByteArray :=
    String.utf8Encode_toList.symm
  show ByteArray.toList.loop text.toUTF8 0 [] = _
  rw [toList_loop, bytes, List.toList_data_toByteArray]
  rfl

theorem encode_injective : Function.Injective encode := by
  intro text text' same
  rw [encode_eq, encode_eq] at same
  have bytes := congrArg List.toByteArray same
  exact String.toByteArray_inj.mp
    (String.utf8Encode_toList.symm.trans (bytes.trans String.utf8Encode_toList))

/-! ## Characters -/

/-- The bytes of the character with a number, by how many there are. -/
inductive Encodes (v : Nat) : List UInt8 → Prop
  | one (most : v < 0x80) : Encodes v [.ofNat v]
  | two {a b : Nat} (number : v = a * 64 + b) (least : 2 ≤ a) (most : a < 32) (tail : b < 64) :
      Encodes v [.ofNat (a + 0xC0), .ofNat (b + 0x80)]
  | three {a b c : Nat} (number : v = (a * 64 + b) * 64 + c) (least : 0x800 ≤ v) (most : a < 16)
      (second : b < 64) (tail : c < 64) :
      Encodes v [.ofNat (a + 0xE0), .ofNat (b + 0x80), .ofNat (c + 0x80)]
  | four {a b c d : Nat} (number : v = ((a * 64 + b) * 64 + c) * 64 + d) (least : 0x10000 ≤ v)
      (most : a < 5) (second : b < 64) (third : c < 64) (tail : d < 64) :
      Encodes v [.ofNat (a + 0xF0), .ofNat (b + 0x80), .ofNat (c + 0x80), .ofNat (d + 0x80)]

theorem valid (c : Char) :
    c.val.toNat < 0xD800 ∨ 0xDFFF < c.val.toNat ∧ c.val.toNat < 0x110000 := c.valid

theorem encodes (c : Char) : Encodes c.val.toNat (String.utf8EncodeChar c) := by
  have valid := valid c
  unfold String.utf8EncodeChar
  dsimp only
  generalize c.val.toNat = v at valid
  split
  · exact .one (by omega)
  split
  · exact .two (by omega) (by omega) (by omega) (by omega)
  split
  · exact .three (by omega) (by omega) (by omega) (by omega) (by omega)
  · exact .four (by omega) (by omega) (by omega) (by omega) (by omega) (by omega)

variable {bytes rest : List UInt8} {c c' : Char} {n count value : Nat} {low high : UInt8}

theorem toNat_ofNat (small : n < 256) : (UInt8.ofNat n).toNat = n := by
  rw [UInt8.toNat_ofNat']
  exact Nat.mod_eq_of_lt small

theorem Encodes.notEmpty (encodes : Encodes value bytes) : bytes ≠ [] := by
  cases encodes <;> exact List.cons_ne_nil _ _

/-- A byte below 128 is a character of its own. -/
theorem Encodes.of_small (encodes : Encodes value bytes) {b : UInt8} (member : b ∈ bytes)
    (small : b < 128) : value < 0x80 ∧ bytes = [.ofNat value] := by
  have least {n : Nat} (inside : b = .ofNat n) (few : n < 256) : n < 128 := by
    rw [inside, UInt8.lt_iff_toNat_lt, toNat_ofNat few] at small
    exact small
  cases encodes with
  | one most => exact ⟨most, rfl⟩
  | two _ _ most tail =>
      simp only [List.mem_cons, List.not_mem_nil, or_false] at member
      rcases member with byte | byte <;> have := least byte (by omega) <;> omega
  | three _ _ most second tail =>
      simp only [List.mem_cons, List.not_mem_nil, or_false] at member
      rcases member with byte | byte | byte <;> have := least byte (by omega) <;> omega
  | four _ _ most second third tail =>
      simp only [List.mem_cons, List.not_mem_nil, or_false] at member
      rcases member with byte | byte | byte | byte <;> have := least byte (by omega) <;> omega

/-- Only a character in ASCII has its byte. -/
theorem eq_of_mem_encodeChar (ascii : c'.toNat < 0x80)
    (member : .ofNat c'.toNat ∈ String.utf8EncodeChar c) : c = c' := by
  have small : UInt8.ofNat c'.toNat < 128 := by
    rw [UInt8.lt_iff_toNat_lt, toNat_ofNat (Nat.lt_trans ascii (by decide))]
    exact ascii
  obtain ⟨few, bytes⟩ := (encodes c).of_small member small
  rw [bytes, List.mem_singleton] at member
  have same := congrArg UInt8.toNat member
  rw [toNat_ofNat (Nat.lt_trans ascii (by decide)),
    toNat_ofNat (Nat.lt_trans few (by decide))] at same
  exact (Char.toNat_inj.mp same).symm

theorem notMem_encode (ascii : c.toNat < 0x80) {text : String} (without : c ∉ text.toList) :
    .ofNat c.toNat ∉ encode text := by
  rw [encode_eq]
  intro member
  obtain ⟨c', inside, byte⟩ := List.mem_flatMap.mp member
  rw [eq_of_mem_encodeChar ascii byte] at inside
  exact without inside

theorem zero_notMem_encode {text : String} (without : '\x00' ∉ text.toList) :
    0 ∉ encode text :=
  notMem_encode (by decide) without

/-! ## Reading back -/

theorem lead?_one (most : n < 0x80) : lead? (.ofNat n) = some (0, 0x80, 0xBF, n) := by
  interval_cases n <;> rfl

theorem lead?_two (least : 2 ≤ n) (most : n < 32) :
    lead? (.ofNat (n + 0xC0)) = some (1, 0x80, 0xBF, n) := by
  interval_cases n <;> rfl

/-- Some of the numbers that three bytes could have have fewer bytes, and some are no characters. -/
theorem lead?_three (most : n < 16) :
    lead? (.ofNat (n + 0xE0)) =
      some (2, if n = 0 then 0xA0 else 0x80, if n = 13 then 0x9F else 0xBF, n) := by
  interval_cases n <;> rfl

theorem lead?_four (most : n < 5) :
    lead? (.ofNat (n + 0xF0)) =
      some (3, if n = 0 then 0x90 else 0x80, if n = 4 then 0x8F else 0xBF, n) := by
  interval_cases n <;> rfl

theorem continuation_cons (digit : n < 64) (least : low.toNat ≤ n + 0x80)
    (most : n + 0x80 ≤ high.toNat) :
    continuation (count + 1) low high value (.ofNat (n + 0x80) :: rest) =
      continuation count 0x80 0xBF (value * 64 + n) rest := by
  have number : (UInt8.ofNat (n + 0x80)).toNat = n + 0x80 := toNat_ofNat (by omega)
  have inside : low ≤ .ofNat (n + 0x80) ∧ .ofNat (n + 0x80) ≤ high := by
    rw [UInt8.le_iff_toNat_le, UInt8.le_iff_toNat_le, number]
    exact ⟨least, most⟩
  rw [continuation, if_pos (by simpa using inside), number, Nat.add_sub_cancel]

/-- Behind the second byte of a character all digits are allowed. -/
theorem continuation_tail (digit : n < 64) :
    continuation (count + 1) 0x80 0xBF value (.ofNat (n + 0x80) :: rest) =
      continuation count 0x80 0xBF (value * 64 + n) rest :=
  continuation_cons digit (Nat.le_add_left _ _)
    (Nat.add_le_add_right (Nat.le_of_lt_succ digit) 0x80)

theorem decodeFrom_cons {b : UInt8} {bits : Nat} (bound : Nat)
    (lead : lead? b = some (count, low, high, bits)) :
    decodeFrom (bound + 1) (b :: rest) =
      ((continuation count low high bits rest).1.map Char.ofNat) ::
        decodeFrom bound (continuation count low high bits rest).2 := by
  simp only [decodeFrom, lead]

/-- The bytes of a character are read as this character. -/
theorem decodeFrom_encodeChar (bound : Nat) (c : Char) (rest : List UInt8) :
    decodeFrom (bound + 1) (String.utf8EncodeChar c ++ rest) = some c :: decodeFrom bound rest := by
  have back : Char.ofNat c.val.toNat = c := Char.ofNat_toNat c
  have valid := valid c
  have encodes := encodes c
  generalize c.val.toNat = v, String.utf8EncodeChar c = bytes at back valid encodes
  cases encodes with
  | one most =>
      rw [List.singleton_append, decodeFrom_cons bound (lead?_one most)]
      simp only [continuation, Option.map_some, back]
  | two number least most tail =>
      rw [List.cons_append, List.singleton_append, decodeFrom_cons bound (lead?_two least most),
        continuation_tail tail, ← number]
      simp only [continuation, Option.map_some, back]
  | three number least most second tail =>
      rw [List.cons_append, List.cons_append, List.singleton_append,
        decodeFrom_cons bound (lead?_three most), continuation_cons second, continuation_tail tail,
        ← number]
      · simp only [continuation, Option.map_some, back]
      all_goals split <;> simp only [UInt8.reduceToNat] <;> omega
  | four number least most second third tail =>
      rw [List.cons_append, List.cons_append, List.cons_append, List.singleton_append,
        decodeFrom_cons bound (lead?_four most), continuation_cons second, continuation_tail third,
        continuation_tail tail, ← number]
      · simp only [continuation, Option.map_some, back]
      all_goals split <;> simp only [UInt8.reduceToNat] <;> omega

theorem decodeFrom_flatMap (chars : List Char) {bound : Nat} (enough : chars.length ≤ bound) :
    decodeFrom bound (chars.flatMap String.utf8EncodeChar) = chars.map some := by
  induction chars generalizing bound with
  | nil => cases bound <;> rfl
  | cons c rest ih =>
      obtain ⟨bound, rfl⟩ := Nat.exists_eq_succ_of_ne_zero (Nat.ne_zero_of_lt enough)
      rw [List.flatMap_cons, decodeFrom_encodeChar, ih (Nat.le_of_succ_le_succ enough),
        List.map_cons]

/-- The characters of a text are read back from its bytes. -/
theorem decode_encode (text : String) : decode (encode text) = text.toList.map some := by
  rw [decode, encode_eq]
  refine decodeFrom_flatMap _ ?_
  induction text.toList with
  | nil => exact Nat.le_refl _
  | cons c rest ih =>
      have some := List.length_pos_iff.mpr (encodes c).notEmpty
      rw [List.flatMap_cons, List.length_append, List.length_cons]
      omega

theorem decodeLossy_encode (text : String) : decodeLossy (encode text) = text := by
  rw [decodeLossy, decode_encode, List.map_map]
  have same : ((fun c : Option Char => c.getD (Char.ofNat 0xFFFD)) ∘ some) = id := rfl
  rw [same, List.map_id, String.ofList_toList]

theorem decode?_encode (text : String) : decode? (encode text) = some text := by
  have whole (chars : List Char) : (chars.map some).mapM (m := Option) id = some chars := by
    induction chars with
    | nil => rfl
    | cons c rest ih => simp [ih]
  rw [decode?, decode_encode, whole, Option.map_some, String.ofList_toList]

/-- A text in ASCII is read back from its bytes by those who do not know Unicode. -/
theorem codePage437_encode {text : String} (ascii : ∀ b ∈ encode text, b < 128) :
    CodePage437.decode (encode text) = text := by
  have whole (chars : List Char)
      (ascii : ∀ b ∈ chars.flatMap String.utf8EncodeChar, b < 128) :
      (chars.flatMap String.utf8EncodeChar).map CodePage437.charOf = chars := by
    induction chars with
    | nil => rfl
    | cons c rest ih =>
        rw [List.flatMap_cons] at ascii
        obtain ⟨here, later⟩ := List.forall_mem_append.mp ascii
        obtain ⟨b, member⟩ := List.exists_mem_of_ne_nil _ (encodes c).notEmpty
        obtain ⟨small, bytes⟩ := (encodes c).of_small member (here b member)
        have few : c.val.toNat < 256 := Nat.lt_trans small (by decide)
        have back : CodePage437.charOf (.ofNat c.val.toNat) = c := by
          have below : UInt8.ofNat c.val.toNat < 128 := by
            rw [UInt8.lt_iff_toNat_lt, toNat_ofNat few]
            exact small
          rw [CodePage437.charOf, if_pos below, toNat_ofNat few]
          exact Char.ofNat_toNat c
        rw [List.flatMap_cons, bytes, List.singleton_append, List.map_cons, back, ih later]
  rw [encode_eq] at ascii ⊢
  rw [CodePage437.decode, whole _ ascii, String.ofList_toList]

/-! ## Characters in ASCII -/

/-- Digits to the base 64 behind a number make the numbers that start with it. -/
theorem of_continuation {number : Nat} (least : 0x80 ≤ low.toNat) (most : high.toNat ≤ 0xBF)
    (reads : continuation count low high value bytes = (some number, rest)) :
    value * 64 ^ count ≤ number ∧ number < (value + 1) * 64 ^ count := by
  induction count generalizing value bytes low high with
  | zero =>
      cases reads
      simp
  | succ count ih =>
      cases bytes with
      | nil => cases reads
      | cons b bytes =>
          rw [continuation] at reads
          split at reads
          · rename_i inside
            simp only [Bool.and_eq_true, decide_eq_true_eq, UInt8.le_iff_toNat_le] at inside
            obtain ⟨atLeast, below⟩ := ih (by decide) (by decide) reads
            have digit : b.toNat - 0x80 < 64 := by omega
            generalize b.toNat - 0x80 = d at digit atLeast below
            rw [Nat.pow_succ', ← Nat.mul_assoc, ← Nat.mul_assoc, Nat.add_one_mul]
            exact ⟨(Nat.mul_le_mul_right _ (Nat.le_add_right _ d)).trans atLeast,
              below.trans_le (Nat.mul_le_mul_right _ (by omega))⟩
          · cases reads

/-- The first digit, which may have less choice than the others. -/
theorem of_continuation_succ {number : Nat} (least : 0x80 ≤ low.toNat)
    (reads : continuation (count + 1) low high value bytes = (some number, rest)) :
    ∃ digit, low.toNat ≤ digit + 0x80 ∧ digit + 0x80 ≤ high.toNat ∧
      (value * 64 + digit) * 64 ^ count ≤ number ∧
      number < (value * 64 + digit + 1) * 64 ^ count := by
  cases bytes with
  | nil => cases reads
  | cons b bytes =>
      rw [continuation] at reads
      split at reads
      · rename_i inside
        simp only [Bool.and_eq_true, decide_eq_true_eq, UInt8.le_iff_toNat_le] at inside
        obtain ⟨atLeast, below⟩ := of_continuation (by decide) (by decide) reads
        exact ⟨b.toNat - 0x80, by omega, by omega, atLeast, below⟩
      · cases reads

/-- A character in ASCII is a byte of its own; all others are above. -/
theorem of_lead? {b : UInt8} {bits number : Nat} (lead : lead? b = some (count, low, high, bits))
    (reads : continuation count low high bits bytes = (some number, rest)) :
    (number = b.toNat ∧ number < 0x80 ∧ rest = bytes) ∨ (0x80 ≤ number ∧ number.isValidChar) := by
  unfold lead? at lead
  simp only [UInt8.lt_iff_toNat_lt, beq_iff_eq, ← UInt8.toNat_inj] at lead
  split_ifs at lead with one none two three surrogate threeMore four fourMore fourLast
  · cases lead
    cases reads
    exact .inl ⟨rfl, one, rfl⟩
  all_goals
    cases lead
    obtain ⟨digit, least, most, atLeast, below⟩ := of_continuation_succ (by decide) reads
    simp only [UInt8.reduceToNat] at *
    refine .inr ⟨?_, ?_⟩
    · omega
    · unfold Nat.isValidChar
      omega

theorem continuation_suffix (count : Nat) (low high : UInt8) (value : Nat) (bytes : List UInt8) :
    (continuation count low high value bytes).2 <:+ bytes := by
  fun_induction continuation count low high value bytes with
  | case1 => exact List.suffix_refl _
  | case2 => exact List.suffix_refl _
  | case3 _ _ _ _ b rest _ ih => exact ih.trans (List.suffix_cons b rest)
  | case4 => exact List.suffix_refl _

/-- A number of a character is kept. -/
theorem toNat_char (valid : n.isValidChar) : (Char.ofNat n).toNat = n := by
  rw [Char.ofNat, dif_pos valid]
  rfl

/-- Of a piece that is a character in ASCII, the byte is this character, and what follows is read
behind it. -/
theorem decodeFrom_ascii {bound : Nat} {b : UInt8} {pieces : List (Option Char)}
    (reads : decodeFrom (bound + 1) (b :: bytes) = some c :: pieces) (ascii : c.toNat < 0x80) :
    b = .ofNat c.toNat ∧ pieces = decodeFrom bound bytes := by
  cases lead : lead? b with
  | none => simp [decodeFrom, lead] at reads
  | some limits =>
      obtain ⟨count, low, high, bits⟩ := limits
      rw [decodeFrom_cons bound lead, List.cons.injEq] at reads
      obtain ⟨first, others⟩ := reads
      obtain ⟨number, isNumber, rfl⟩ := Option.map_eq_some_iff.mp first
      obtain ⟨rfl, small, rest⟩ | ⟨large, valid⟩ := of_lead? lead (Prod.ext isNumber rfl)
      · have back : (Char.ofNat b.toNat).toNat = b.toNat := toNat_char (.inl (by omega))
        rw [back, UInt8.ofNat_toNat]
        exact ⟨rfl, others.symm.trans (congrArg _ rest)⟩
      · have back : (Char.ofNat number).toNat = number := toNat_char valid
        omega

/-- Where all that is read are characters in ASCII, the bytes are these characters. -/
theorem eq_of_decodeFrom_ascii {bound : Nat} {chars : List Char} (enough : bytes.length ≤ bound)
    (reads : decodeFrom bound bytes = chars.map some) (ascii : ∀ c ∈ chars, c.toNat < 0x80) :
    bytes = chars.map fun c => .ofNat c.toNat := by
  induction bytes generalizing bound chars with
  | nil =>
      have none : decodeFrom bound [] = [] := by cases bound <;> rfl
      rw [none] at reads
      rw [List.map_eq_nil_iff.mp reads.symm]
      rfl
  | cons b bytes ih =>
      obtain ⟨bound, rfl⟩ := Nat.exists_eq_succ_of_ne_zero (Nat.ne_zero_of_lt enough)
      cases chars with
      | nil =>
          cases lead : lead? b <;> simp [decodeFrom, lead] at reads
      | cons c chars =>
          obtain ⟨here, later⟩ := List.forall_mem_cons.mp ascii
          obtain ⟨first, others⟩ := decodeFrom_ascii reads here
          rw [List.map_cons, ← first, ← ih (Nat.le_of_succ_le_succ enough) others.symm later]

/-- A character in ASCII that is read is one of the bytes. -/
theorem mem_of_decodeFrom {bound : Nat} (member : some c ∈ decodeFrom bound bytes)
    (ascii : c.toNat < 0x80) : .ofNat c.toNat ∈ bytes := by
  induction bound generalizing bytes with
  | zero => cases member
  | succ bound ih =>
      cases bytes with
      | nil => cases member
      | cons b bytes =>
          cases lead : lead? b with
          | none =>
              simp only [decodeFrom, lead, List.mem_cons, reduceCtorEq, false_or] at member
              exact List.mem_cons_of_mem _ (ih member)
          | some limits =>
              obtain ⟨count, low, high, bits⟩ := limits
              have reads : decodeFrom (bound + 1) (b :: bytes) =
                  ((continuation count low high bits bytes).1.map Char.ofNat) ::
                    decodeFrom bound (continuation count low high bits bytes).2 :=
                decodeFrom_cons bound lead
              rcases List.mem_cons.mp (reads ▸ member) with first | later
              · rw [← first] at reads
                exact (decodeFrom_ascii reads ascii).1 ▸ List.mem_cons_self
              · have suffix := continuation_suffix count low high bits bytes
                exact List.mem_cons_of_mem _ (suffix.subset (ih later))

/-- A text in ASCII is shown for its own bytes only. -/
theorem eq_of_decodeLossy {text : String} (shows : decodeLossy bytes = text)
    (ascii : ∀ c ∈ text.toList, c.toNat < 0x80) :
    bytes = text.toList.map fun c => .ofNat c.toNat := by
  have chars : (decode bytes).map (·.getD (Char.ofNat 0xFFFD)) = text.toList := by
    rw [← shows, decodeLossy, String.toList_ofList]
  refine eq_of_decodeFrom_ascii (Nat.le_refl _) ?_ ascii
  -- The replacement character is not in ASCII, so no piece is malformed.
  show decode bytes = _
  rw [← chars, List.map_map]
  refine (List.map_id _).symm.trans (List.map_congr_left fun piece member => ?_)
  cases piece with
  | some c => rfl
  | none =>
      have shown : Char.ofNat 0xFFFD ∈ text.toList := chars ▸ List.mem_map.mpr ⟨none, member, rfl⟩
      exact absurd (ascii _ shown) (by decide)

/-- A character in ASCII that is shown is one of the bytes. -/
theorem mem_of_decodeLossy (member : c ∈ (decodeLossy bytes).toList) (ascii : c.toNat < 0x80) :
    .ofNat c.toNat ∈ bytes := by
  rw [decodeLossy, String.toList_ofList] at member
  obtain ⟨piece, among, same⟩ := List.mem_map.mp member
  cases piece with
  | some c' =>
      cases same
      exact mem_of_decodeFrom among ascii
  | none =>
      cases same
      exact absurd ascii (by decide)

/-! ## The order of texts -/

/-- Bytes of characters are in the order of the numbers of these, whatever follows. -/
theorem Encodes.lt {v v' : Nat} {bytes' : List UInt8} (encodes : Encodes v bytes)
    (encodes' : Encodes v' bytes') (less : v < v') (xs ys : List UInt8) :
    bytes ++ xs < bytes' ++ ys := by
  cases encodes <;> cases encodes' <;>
    simp only [List.cons_append, List.nil_append, List.cons_lt_cons_iff, UInt8.lt_iff_toNat_lt,
      ← UInt8.toNat_inj, UInt8.toNat_ofNat'] <;> omega

theorem flatMap_lt {chars chars' : List Char} (less : chars < chars') :
    chars.flatMap String.utf8EncodeChar < chars'.flatMap String.utf8EncodeChar := by
  induction chars generalizing chars' with
  | nil =>
      cases chars' with
      | nil => exact absurd less (List.not_lt_nil _)
      | cons c rest =>
          obtain ⟨b, others, bytes⟩ := List.exists_cons_of_ne_nil (encodes c).notEmpty
          rw [List.flatMap_cons, bytes]
          exact List.nil_lt_cons _ _
  | cons c rest ih =>
      cases chars' with
      | nil => exact absurd less (List.not_lt_nil _)
      | cons c' rest' =>
          rw [List.flatMap_cons, List.flatMap_cons]
          rcases List.cons_lt_cons_iff.mp less with first | ⟨rfl, later⟩
          · exact (encodes c).lt (encodes c') first _ _
          · exact List.append_left_lt (ih later)

/-- Texts are in the order of their bytes. -/
theorem encode_lt_iff {text text' : String} : encode text < encode text' ↔ text < text' := by
  have grows {text text' : String} (less : text < text') : encode text < encode text' := by
    rw [encode_eq, encode_eq]
    exact flatMap_lt less
  constructor
  · intro less
    rcases lt_trichotomy text text' with before | same | after
    · exact before
    · exact absurd (same ▸ less) (List.lt_irrefl _)
    · exact absurd (grows after) (List.lt_asymm less)
  · exact grows

end FunctionArchive.Utf8
