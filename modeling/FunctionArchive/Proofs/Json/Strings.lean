import FunctionArchive.Proofs.Json.Spelling
import FunctionArchive.Proofs.Text.Utf8

/-!
# Reading strings

Reading a string gives the string that is meant, whatever escapes it is written with, and passing
over it takes the same bytes (`string_texts`, `skipString_texts`).
-/

set_option autoImplicit false

namespace FunctionArchive.Json

namespace Reader

variable {α β : Type} {r : Reader α} {f : α → Reader β} {a : α} {bytes rest : List UInt8}

/-- Reading goes on behind what has been read. -/
theorem bind_ok (reads : r bytes = .ok (a, rest)) : (r >>= f) bytes = f a rest := by
  simp only [bind, reads]

end Reader

open Reader

variable {rest : List UInt8}

/-! ## Escapes -/

theorem HexDigit.hexValue?_byte (d : HexDigit) : hexValue? d.byte = some d.value.val := by
  obtain ⟨value, capital⟩ := d
  revert value capital
  decide

theorem HexCode.hexEscape_text (c : HexCode) :
    hexEscape (c.text ++ rest) = .ok (c.value, rest) := by
  simp [hexEscape, text, HexDigit.hexValue?_byte, value]

theorem Escape.escape_letter (e : Escape) :
    escape (e.letter :: rest) = .ok (String.utf8EncodeChar e.char, rest) := by
  cases e <;> rfl

theorem Escape.skipEscape_letter (e : Escape) : skipEscape (e.letter :: rest) = .ok ((), rest) := by
  cases e <;> rfl

/-- A character is written in the bytes of its code. -/
theorem encode_singleton (c : Char) : Utf8.encode c.toString = String.utf8EncodeChar c := by
  simp [Utf8.encode_eq]

/-- The escape of a character by its code, from the letter on. -/
theorem HexCode.escape_text {u : HexCode} (alone : u.value < 0xD800 ∨ 0xDFFF < u.value) :
    escape (code 'u' :: (u.text ++ rest)) =
      .ok (String.utf8EncodeChar (Char.ofNat u.value), rest) := by
  have notLow : (0xDC00 ≤ u.value && u.value ≤ 0xDFFF) = false := by
    rw [Bool.and_eq_false_iff, decide_eq_false_iff_not, decide_eq_false_iff_not]
    omega
  have notHigh : (u.value < 0xD800 || 0xDBFF < u.value) = true := by
    rw [Bool.or_eq_true, decide_eq_true_iff, decide_eq_true_iff]
    omega
  have read : unicodeEscape (u.text ++ rest) = .ok (Char.ofNat u.value, rest) := by
    simp only [unicodeEscape, bind_ok u.hexEscape_text, notLow, notHigh]
    rfl
  rw [← encode_singleton]
  change (unicodeEscape >>= fun c => pure (Utf8.encode c.toString)) (u.text ++ rest) = _
  rw [bind_ok read]
  rfl

theorem HexCode.escape_pair {high low : HexCode}
    (isHigh : 0xD800 ≤ high.value ∧ high.value ≤ 0xDBFF)
    (isLow : 0xDC00 ≤ low.value ∧ low.value ≤ 0xDFFF) :
    escape (code 'u' :: (high.text ++ (code '\\' :: code 'u' :: (low.text ++ rest)))) =
      .ok (String.utf8EncodeChar (Piece.pair high low isHigh isLow).char, rest) := by
  have notLow : (0xDC00 ≤ high.value && high.value ≤ 0xDFFF) = false := by
    rw [Bool.and_eq_false_iff, decide_eq_false_iff_not, decide_eq_false_iff_not]
    omega
  have notAlone : (high.value < 0xD800 || 0xDBFF < high.value) = false := by
    rw [Bool.or_eq_false_iff, decide_eq_false_iff_not, decide_eq_false_iff_not]
    omega
  have second : (low.value < 0xDC00 || 0xDFFF < low.value) = false := by
    rw [Bool.or_eq_false_iff, decide_eq_false_iff_not, decide_eq_false_iff_not]
    omega
  have joined (more : List UInt8) : expectInPair '\\' (code '\\' :: more) = .ok ((), more) := rfl
  have marked (more : List UInt8) : expectInPair 'u' (code 'u' :: more) = .ok ((), more) := rfl
  have read : unicodeEscape (high.text ++ (code '\\' :: code 'u' :: (low.text ++ rest))) =
      .ok ((Piece.pair high low isHigh isLow).char, rest) := by
    simp only [unicodeEscape, bind_ok high.hexEscape_text, notLow, notAlone, Bool.false_eq_true,
      if_false, bind_ok (joined _), bind_ok (marked _), bind_ok low.hexEscape_text, second]
    rfl
  rw [← encode_singleton]
  change (unicodeEscape >>= fun c => pure (Utf8.encode c.toString))
    (high.text ++ (code '\\' :: code 'u' :: (low.text ++ rest))) = _
  rw [bind_ok read]
  rfl

theorem HexCode.skipEscape_text (u : HexCode) :
    skipEscape (code 'u' :: (u.text ++ rest)) = .ok ((), rest) := by
  change (hexEscape >>= fun _ => pure ()) (u.text ++ rest) = _
  rw [bind_ok u.hexEscape_text]
  rfl

/-! ## Characters as they are -/

/-- A byte of a string that stands for itself. -/
def IsPlain (b : UInt8) : Prop := ¬b < 0x20 ∧ b ≠ code '"' ∧ b ≠ code '\\'

/-- No byte of a character that may stand as it is ends the string or begins an escape. -/
theorem isPlain_of_mem {c : Char} (allowed : 0x20 ≤ c.toNat ∧ c ≠ '"' ∧ c ≠ '\\') {b : UInt8}
    (member : b ∈ String.utf8EncodeChar c) : IsPlain b := by
  have alone (small : b < 128) : c.toNat = b.toNat := by
    obtain ⟨few, bytes⟩ := (Utf8.encodes c).of_small member small
    rw [bytes, List.mem_singleton] at member
    rw [member, Utf8.toNat_ofNat (Nat.lt_trans few (by decide))]
    rfl
  have same {d : Char} (byte : b = code d) (small : b < 128)
      (number : (code d).toNat = d.toNat) : c = d :=
    Char.ext (UInt32.toNat_inj.mp ((alone small).trans (byte ▸ number)))
  refine ⟨fun control => ?_, fun quote => ?_, fun backslash => ?_⟩
  · have := alone (UInt8.lt_trans control (by decide))
    rw [UInt8.lt_iff_toNat_lt, ← this] at control
    exact absurd allowed.1 (Nat.not_le.mpr control)
  · exact allowed.2.1 (same quote (quote ▸ by decide) (by decide))
  · exact allowed.2.2 (same backslash (backslash ▸ by decide) (by decide))

theorem stringBytes_append {plain : List UInt8} (each : ∀ b ∈ plain, IsPlain b) (bound : Nat)
    (taken : List UInt8) : stringBytes (plain.length + bound) taken (plain ++ rest) =
      stringBytes bound (plain.reverse ++ taken) rest := by
  induction plain generalizing taken with
  | nil => simp
  | cons b more ih =>
      obtain ⟨⟨least, notQuote, notBackslash⟩, others⟩ := List.forall_mem_cons.mp each
      have step : stringBytes (more.length + bound + 1) taken (b :: (more ++ rest)) =
          stringBytes (more.length + bound) (b :: taken) (more ++ rest) := by
        simp [stringBytes, bind, peek, drop, notQuote, notBackslash, least]
      rw [List.length_cons, Nat.add_right_comm, List.cons_append, step, ih others]
      simp

theorem skipStringBytes_append {plain : List UInt8} (each : ∀ b ∈ plain, IsPlain b) (bound : Nat) :
    skipStringBytes (plain.length + bound) (plain ++ rest) = skipStringBytes bound rest := by
  induction plain with
  | nil => simp
  | cons b more ih =>
      obtain ⟨⟨least, notQuote, notBackslash⟩, others⟩ := List.forall_mem_cons.mp each
      have step : skipStringBytes (more.length + bound + 1) (b :: (more ++ rest)) =
          skipStringBytes (more.length + bound) (more ++ rest) := by
        simp [skipStringBytes, bind, peek, drop, notQuote, notBackslash, least]
      rw [List.length_cons, Nat.add_right_comm, List.cons_append, step, ih others]

/-! ## Whole strings -/

theorem stringBytes_escape {escaped after bytes : List UInt8}
    (reads : escape escaped = .ok (bytes, after)) (bound : Nat) (taken : List UInt8) :
    stringBytes (bound + 1) taken (code '\\' :: escaped) =
      stringBytes bound (bytes.reverse ++ taken) after := by
  change (escape >>= fun bytes => stringBytes bound (bytes.reverse ++ taken)) escaped = _
  rw [bind_ok reads]

theorem skipStringBytes_escape {escaped after : List UInt8}
    (reads : skipEscape escaped = .ok ((), after)) (bound : Nat) :
    skipStringBytes (bound + 1) (code '\\' :: escaped) = skipStringBytes bound after := by
  change (skipEscape >>= fun _ => skipStringBytes bound) escaped = _
  rw [bind_ok reads]

namespace Piece

/-- Reading a character of a string takes its text and some of the bound. -/
theorem stringBytes_text (p : Piece) : ∃ used ≤ p.text.length, ∀ bound taken rest,
    stringBytes (used + bound) taken (p.text ++ rest) =
      stringBytes bound ((String.utf8EncodeChar p.char).reverse ++ taken) rest := by
  cases p with
  | plain c allowed =>
      exact ⟨_, le_rfl, fun bound taken rest =>
        stringBytes_append (fun b => isPlain_of_mem allowed) bound taken⟩
  | escape e =>
      refine ⟨1, by simp [text], fun bound taken rest => ?_⟩
      rw [Nat.add_comm]
      exact stringBytes_escape e.escape_letter bound taken
  | unit u alone =>
      refine ⟨1, by simp [text], fun bound taken rest => ?_⟩
      rw [Nat.add_comm]
      exact stringBytes_escape (HexCode.escape_text alone) bound taken
  | pair high low isHigh isLow =>
      refine ⟨1, by simp [text], fun bound taken rest => ?_⟩
      rw [Nat.add_comm, text, List.cons_append, List.cons_append, List.append_assoc]
      exact stringBytes_escape (HexCode.escape_pair isHigh isLow) bound taken

theorem skipStringBytes_text (p : Piece) : ∃ used ≤ p.text.length, ∀ bound rest,
    skipStringBytes (used + bound) (p.text ++ rest) = skipStringBytes bound rest := by
  cases p with
  | plain c allowed =>
      exact ⟨_, le_rfl, fun bound rest =>
        skipStringBytes_append (fun b => isPlain_of_mem allowed) bound⟩
  | escape e =>
      refine ⟨1, by simp [text], fun bound rest => ?_⟩
      rw [Nat.add_comm]
      exact skipStringBytes_escape e.skipEscape_letter bound
  | unit u alone =>
      refine ⟨1, by simp [text], fun bound rest => ?_⟩
      rw [Nat.add_comm]
      exact skipStringBytes_escape u.skipEscape_text bound
  | pair high low isHigh isLow =>
      refine ⟨2, by simp [text], fun bound rest => ?_⟩
      rw [Nat.add_comm, text, List.cons_append, List.cons_append, List.append_assoc]
      exact (skipStringBytes_escape high.skipEscape_text (bound + 1)).trans
        (skipStringBytes_escape low.skipEscape_text bound)

/-- The bytes of the string that is meant. -/
def bytes (s : List Piece) : List UInt8 := s.flatMap fun p => String.utf8EncodeChar p.char

@[simp]
theorem texts_cons (p : Piece) (s : List Piece) : texts (p :: s) = p.text ++ texts s := rfl

theorem stringBytes_texts (s : List Piece) {bound : Nat} (enough : (texts s).length < bound)
    (taken : List UInt8) : stringBytes bound taken (texts s ++ code '"' :: rest) =
      .ok (taken.reverse ++ bytes s, rest) := by
  induction s generalizing bound taken with
  | nil =>
      obtain ⟨bound, rfl⟩ := Nat.exists_eq_add_of_lt enough
      simp [texts, bytes, stringBytes, bind, peek, drop, pure]
  | cons p s ih =>
      obtain ⟨used, most, step⟩ := p.stringBytes_text
      rw [texts_cons, List.length_append] at enough
      obtain ⟨bound, rfl⟩ := Nat.exists_eq_add_of_le (show used ≤ bound by omega)
      rw [texts_cons, List.append_assoc, step, ih (by omega)]
      simp [bytes]

theorem skipStringBytes_texts (s : List Piece) {bound : Nat} (enough : (texts s).length < bound) :
    skipStringBytes bound (texts s ++ code '"' :: rest) = .ok ((), rest) := by
  induction s generalizing bound with
  | nil =>
      obtain ⟨bound, rfl⟩ := Nat.exists_eq_add_of_lt enough
      simp [texts, skipStringBytes, bind, peek, drop]
  | cons p s ih =>
      obtain ⟨used, most, step⟩ := p.skipStringBytes_text
      rw [texts_cons, List.length_append] at enough
      obtain ⟨bound, rfl⟩ := Nat.exists_eq_add_of_le (show used ≤ bound by omega)
      rw [texts_cons, List.append_assoc, step, ih (by omega)]

theorem bytes_eq (s : List Piece) : bytes s = Utf8.encode (string s) := by
  rw [Utf8.encode_eq, string, String.toList_ofList, List.flatMap_map, bytes]

/-- The bytes of a string are enough of a bound for reading it. -/
theorem length_texts_lt (s : List Piece) (rest : List UInt8) :
    (texts s).length < (texts s ++ code '"' :: rest).length + 1 := by
  rw [List.length_append]
  omega

/-- Reading a string gives the string that is meant. -/
theorem string_texts (s : List Piece) :
    Reader.string (texts s ++ code '"' :: rest) = .ok (string s, rest) := by
  have read : stringBytes ((texts s ++ code '"' :: rest).length + 1) []
      (texts s ++ code '"' :: rest) = .ok (Utf8.encode (string s), rest) := by
    rw [← bytes_eq]
    exact stringBytes_texts s (length_texts_lt s rest) []
  rw [Reader.string, bind_ok (r := fun bytes => stringBytes (bytes.length + 1) [] bytes) read,
    Utf8.decode?_encode]
  rfl

theorem skipString_texts (s : List Piece) :
    skipString (texts s ++ code '"' :: rest) = .ok ((), rest) :=
  skipStringBytes_texts s (length_texts_lt s rest)

end Piece

end FunctionArchive.Json
