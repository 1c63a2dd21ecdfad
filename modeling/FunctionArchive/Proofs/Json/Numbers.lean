import FunctionArchive.Proofs.Json.Strings

/-!
# Reading numbers

Reading a number gives the number that is meant, if it stays in range, and passing over it takes the
same bytes whether it does or not (`Numeral.number_unsigned`, `Numeral.skipNumber_unsigned`). What
follows must not go on with the number.
-/

set_option autoImplicit false

namespace FunctionArchive.Json

open Reader

variable {rest : List UInt8}

/-- No digit comes next. -/
def NoDigit (rest : List UInt8) : Prop := ∀ b ∈ rest.head?, isDigit b = false

/-- Nothing comes next that goes on with a number. -/
def Ended (rest : List UInt8) : Prop :=
  ∀ b ∈ rest.head?, isDigit b = false ∧ b ≠ code '.' ∧ b ≠ code 'e' ∧ b ≠ code 'E'

theorem Ended.noDigit (ended : Ended rest) : NoDigit rest := fun b next => (ended b next).1

theorem noDigit_cons {b : UInt8} (other : isDigit b = false) : NoDigit (b :: rest) := by
  simpa [NoDigit] using other

/-! ## Digits -/

@[simp]
theorem isDigit_digit (d : Fin 10) : isDigit (digit d) = true := by
  revert d
  decide

theorem toNat_digit (d : Fin 10) : (digit d).toNat - 0x30 = d := by
  revert d
  decide

theorem digit_eq_zero_iff (d : Fin 10) : digit d = code '0' ↔ d = 0 := by
  revert d
  decide

theorem digit_ne {b : UInt8} (d : Fin 10) (other : isDigit b = false) : digit d ≠ b := by
  rintro rfl
  rw [isDigit_digit] at other
  cases other

theorem isDigit_of_mem {digits : List (Fin 10)} {b : UInt8} (member : b ∈ digits.map digit) :
    isDigit b = true := by
  obtain ⟨d, -, rfl⟩ := List.mem_map.mp member
  exact isDigit_digit d

theorem takeWhile_append {digits : List UInt8} (each : ∀ b ∈ digits, isDigit b = true)
    (ended : NoDigit rest) : (digits ++ rest).takeWhile isDigit = digits := by
  rw [List.takeWhile_append_of_pos each]
  cases rest with
  | nil => simp
  | cons b rest => simp [ended b rfl]

theorem dropWhile_append {digits : List UInt8} (each : ∀ b ∈ digits, isDigit b = true)
    (ended : NoDigit rest) : (digits ++ rest).dropWhile isDigit = rest := by
  rw [List.dropWhile_append_of_pos each]
  cases rest with
  | nil => simp
  | cons b rest => simp [ended b rfl]

theorem takeDigits_append {digits : List UInt8} (each : ∀ b ∈ digits, isDigit b = true)
    (ended : NoDigit rest) : takeDigits (digits ++ rest) = .ok (digits, rest) := by
  rw [takeDigits, takeWhile_append each ended, dropWhile_append each ended]

namespace Digits

theorem text_eq (d : Digits) : d.text = digit d.first :: d.rest.map digit := rfl

theorem isDigit_text (d : Digits) : ∀ b ∈ d.text, isDigit b = true := fun _ => isDigit_of_mem

theorem foldl_text (d : Digits) :
    d.text.foldl (fun v b => v * 10 + (b.toNat - 0x30)) 0 = d.value := by
  simp only [text, value, List.foldl_map, toNat_digit]

theorem foldl_text_int (d : Digits) :
    d.text.foldl (fun (v : Int) b => v * 10 + ((b.toNat : Int) - 0x30)) ((0 : Nat) : Int) =
      d.value := by
  have shown (ds : List (Fin 10)) (n : Nat) :
      (ds.map digit).foldl (fun (v : Int) b => v * 10 + ((b.toNat : Int) - 0x30)) (n : Int) =
        (ds.foldl (fun n d => n * 10 + d.val) n : Nat) := by
    induction ds generalizing n with
    | nil => rfl
    | cons d ds ih =>
        have value : ((digit d).toNat : Int) - 0x30 = (d.val : Int) := by
          revert d
          decide
        simpa [value] using ih (n * 10 + d.val)
  exact shown (d.first :: d.rest) 0

end Digits

/-! ## Exponents -/

variable {negative : Bool} {significand : Nat} {start : Int} {x : JsonNumber}

theorem double_of_some {exponent : Int} (scaled : double? negative significand exponent = some x) :
    double negative significand exponent rest = .ok (x, rest) := by
  obtain ⟨y, finite, rfl⟩ := Option.map_eq_some_iff.mp scaled
  simp [double, finite, pure]

/-- The largest number of digits with a property is all of them if all have it together. -/
theorem find?_all (holds : Nat → Bool) (length : Nat) :
    ((List.range (length + 1)).reverse.find? holds == some length) = holds length := by
  rw [List.range_succ, List.reverse_append, List.reverse_singleton, List.singleton_append,
    List.find?_cons]
  cases all : holds length with
  | true => simp
  | false =>
      refine beq_eq_false_iff_ne.mpr fun found => ?_
      have inside := List.mem_of_find?_eq_some found
      rw [List.mem_reverse, List.mem_range] at inside
      exact Nat.lt_irrefl _ inside

/-- The digits of an exponent, whose sign has been read. -/
def exponentDigits (negative : Bool) (significand : Nat) (start : Int) (below : Bool) :
    Reader JsonNumber := do
  match ← next with
  | none => stop .eofValue
  | some b =>
    if !isDigit b then stop .invalidNumber
    else fun bytes =>
      let digits := b :: bytes.takeWhile isDigit
      let fits := (List.range (digits.length + 1)).reverse.find? fun n =>
        (digits.take n).foldl (fun v d => v * 10 + (d.toNat - 0x30)) 0 ≤ 2147483647
      if fits == some digits.length then
        let size : Int := digits.foldl (fun v d => v * 10 + (d.toNat - 0x30)) (0 : Nat)
        double negative significand (if below then start - size else start + size)
          (bytes.dropWhile isDigit)
      else if significand != 0 && !below then
        stop .numberOutOfRange (bytes.drop (fits.getD 0))
      else
        .ok (.double (if negative then -0.0 else 0.0), bytes.dropWhile isDigit)

namespace Exponent

/-- The letter and the sign of an exponent are passed, and the digits are left. -/
theorem exponentPart_eq (e : Exponent) : exponentPart negative significand start (e.text ++ rest) =
    exponentDigits negative significand start (e.sign = .minus) (e.digits.text ++ rest) := by
  obtain ⟨capital, sign, d⟩ := e
  cases sign with
  | plus => rfl
  | minus => rfl
  | absent =>
      have notPlus : digit d.first ≠ code '+' := digit_ne _ (by decide)
      have notMinus : digit d.first ≠ code '-' := digit_ne _ (by decide)
      simp [exponentPart, exponentDigits, text, Sign.text, Digits.text, bind, drop, peek, next,
        pure, notPlus, notMinus]

theorem exponentPart_text (e : Exponent) (ended : NoDigit rest)
    (scaled : e.scale? negative significand start = some x) :
    exponentPart negative significand start (e.text ++ rest) = .ok (x, rest) := by
  have first : next (e.digits.text ++ rest) =
      .ok (some (digit e.digits.first), e.digits.rest.map digit ++ rest) := rfl
  rw [exponentPart_eq, exponentDigits, bind_ok first]
  simp only [isDigit_digit, Bool.not_true, Bool.false_eq_true, if_false,
    takeWhile_append (fun _ => isDigit_of_mem) ended,
    dropWhile_append (fun _ => isDigit_of_mem) ended]
  rw [← Digits.text_eq, find?_all, List.take_length, Digits.foldl_text]
  rw [scale?] at scaled
  by_cases fits : e.digits.value ≤ 2147483647
  · rw [if_pos fits] at scaled
    rw [if_pos (decide_eq_true fits), Digits.foldl_text_int]
    have same : (if decide (e.sign = .minus) = true then start - (e.digits.value : Int)
        else start + e.digits.value) =
        if e.sign = .minus then start - e.digits.value else start + e.digits.value := by
      simp only [decide_eq_true_iff]
    rw [same]
    exact double_of_some scaled
  · rw [if_neg fits] at scaled
    rw [if_neg (by simpa using fits)]
    by_cases unbounded : significand ≠ 0 ∧ e.sign ≠ .minus
    · rw [if_pos unbounded] at scaled
      cases scaled
    · rw [if_neg unbounded, Option.some.injEq] at scaled
      rw [if_neg (by simpa using unbounded), scaled]

/-- Where an exponent may stand, what follows ends the digits. -/
theorem ended_elim (exponent : Option Exponent) (ended : Ended rest) :
    NoDigit (exponent.elim [] text ++ rest) := by
  cases exponent with
  | none => exact ended.noDigit
  | some e =>
      obtain ⟨capital, sign, d⟩ := e
      cases capital <;> exact noDigit_cons rfl

theorem exponentFollows_text (e : Exponent) :
    exponentFollows (e.text ++ rest) = .ok (true, e.text ++ rest) := by
  obtain ⟨capital, sign, d⟩ := e
  cases capital <;> rfl

end Exponent

theorem Ended.exponentFollows (ended : Ended rest) :
    Reader.exponentFollows rest = .ok (false, rest) := by
  cases rest with
  | nil => rfl
  | cons b rest =>
      obtain ⟨-, -, notSmall, notCapital⟩ := ended b rfl
      simp [Reader.exponentFollows, bind, peek, pure, notSmall, notCapital]

/-! ## Numbers -/

namespace Numeral

/-- The value of a number whose digits have been gathered. -/
def scaled? (negative : Bool) (significand : Nat) (start : Int) :
    Option Exponent → Option JsonNumber
  | none => double? negative significand start
  | some e => e.scale? negative significand start

theorem fractionPart_text (digits : Digits) (exponent : Option Exponent) (ended : Ended rest)
    (scaled : scaled? negative (fitDigits significand digits.text).1
      (start - ((digits.text.length - (fitDigits significand digits.text).2 : Nat) : Int))
      exponent = some x) :
    fractionPart negative significand start
      (code '.' :: (digits.text ++ (exponent.elim [] Exponent.text ++ rest))) = .ok (x, rest) := by
  have dropped : drop (code '.' :: (digits.text ++ (exponent.elim [] Exponent.text ++ rest))) =
      .ok ((), digits.text ++ (exponent.elim [] Exponent.text ++ rest)) := rfl
  have some_digits : digits.text.isEmpty = false := rfl
  rw [fractionPart, bind_ok dropped,
    bind_ok (takeDigits_append digits.isDigit_text (Exponent.ended_elim exponent ended))]
  simp only [some_digits, Bool.false_eq_true, if_false]
  cases exponent with
  | none =>
      rw [Option.elim_none, List.nil_append, bind_ok ended.exponentFollows]
      exact double_of_some scaled
  | some e =>
      rw [Option.elim_some, bind_ok e.exponentFollows_text]
      exact e.exponentPart_text ended.noDigit scaled

theorem afterWhole_none (ended : Ended rest) (size unfit : Nat)
    (value : (if unfit = 0 then some (wholeNumber negative size)
      else double? negative size unfit) = some x) :
    afterWhole negative size unfit rest = .ok (x, rest) := by
  have whole : afterWhole negative size unfit rest = afterWhole.whole negative size unfit rest := by
    cases rest with
    | nil => rfl
    | cons b rest =>
        obtain ⟨-, notPoint, notSmall, notCapital⟩ := ended b rfl
        simp [afterWhole, bind, peek, notPoint, notSmall, notCapital]
  rw [whole, afterWhole.whole]
  by_cases fits : unfit = 0
  · rw [if_pos fits, Option.some.injEq] at value
    rw [if_neg (by omega), ← value]
    unfold wholeNumber
    cases negative with
    | false => rfl
    | true => cases (size == 0 || decide (size > 9223372036854775808)) <;> rfl
  · rw [if_neg fits] at value
    rw [if_pos (by omega)]
    exact double_of_some value

theorem afterWhole_exponent (e : Exponent) (ended : Ended rest) (size unfit : Nat)
    (value : e.scale? negative size unfit = some x) :
    afterWhole negative size unfit (e.text ++ rest) = .ok (x, rest) := by
  have exponent : afterWhole negative size unfit (e.text ++ rest) =
      exponentPart negative size unfit (e.text ++ rest) := by
    obtain ⟨capital, sign, d⟩ := e
    cases capital <;> rfl
  rw [exponent]
  exact e.exponentPart_text ended.noDigit value

theorem unsigned_eq (n : Numeral) : n.unsigned = digit n.whole.first ::
    (n.whole.rest.map digit ++ ((n.fraction.elim [] fun digits => code '.' :: digits.text) ++
      n.exponent.elim [] Exponent.text)) := rfl

/-- The whole part is read to its end. -/
theorem number_whole (n : Numeral) (negative : Bool) (ended : NoDigit rest) :
    Reader.number negative (n.whole.text ++ rest) =
      afterWhole negative (fitDigits 0 n.whole.text).1 (fitDigits 0 n.whole.text).2 rest := by
  have first : next (n.whole.text ++ rest) =
      .ok (some (digit n.whole.first), n.whole.rest.map digit ++ rest) := rfl
  rw [Reader.number, bind_ok first]
  by_cases zero : n.whole.first = 0
  · have alone := n.plain zero
    have fits : fitDigits 0 n.whole.text = (0, 0) := by
      rw [Digits.text_eq, zero, alone]
      rfl
    rw [fits, zero, alone]
    cases rest with
    | nil => rfl
    | cons b rest =>
        have other := ended b rfl
        simp [bind, peek, other, digit_eq_zero_iff]
  · have other : (digit n.whole.first == code '0') = false := by
      rw [beq_eq_false_iff_ne, Ne, digit_eq_zero_iff]
      exact zero
    simp only [other, isDigit_digit, Bool.false_eq_true, if_false, if_true]
    rw [bind_ok (takeDigits_append (fun _ => isDigit_of_mem) ended), Digits.text_eq]

/-- What follows the whole part begins with no digit. -/
theorem ended_unsigned (n : Numeral) (ended : Ended rest) :
    NoDigit ((n.fraction.elim [] fun digits => code '.' :: digits.text) ++
      (n.exponent.elim [] Exponent.text ++ rest)) := by
  cases n.fraction with
  | none => exact Exponent.ended_elim n.exponent ended
  | some digits => exact noDigit_cons (by decide)

/-- Reading a number whose sign has been read gives the number that is meant. -/
theorem number_unsigned (n : Numeral) (ended : Ended rest) (value : n.value? = some x) :
    Reader.number n.negative (n.unsigned ++ rest) = .ok (x, rest) := by
  rw [unsigned, List.append_assoc, List.append_assoc, n.number_whole _ (n.ended_unsigned ended)]
  rw [value?] at value
  cases fraction : n.fraction with
  | none =>
      cases exponent : n.exponent with
      | none =>
          rw [fraction, exponent] at value
          exact afterWhole_none ended _ _ value
      | some e =>
          rw [fraction, exponent] at value
          exact afterWhole_exponent e ended _ _ value
  | some digits =>
      rw [fraction] at value
      refine fractionPart_text digits n.exponent ended ?_
      cases exponent : n.exponent <;> rw [exponent] at value <;> exact value

/-! ## Passing over numbers -/

theorem skipExponent_text (e : Exponent) (ended : NoDigit rest) :
    skipExponent (e.text ++ rest) = .ok ((), rest) := by
  obtain ⟨capital, sign, d⟩ := e
  have taken : takeDigits (d.rest.map digit ++ rest) = .ok (d.rest.map digit, rest) :=
    takeDigits_append (fun _ => isDigit_of_mem) ended
  have notPlus : digit d.first ≠ code '+' := digit_ne _ (by decide)
  have notMinus : digit d.first ≠ code '-' := digit_ne _ (by decide)
  cases sign <;>
    simp [skipExponent, Exponent.text, Sign.text, Digits.text, bind, drop, peek, next, pure, taken,
      notPlus, notMinus]

/-- What may follow the whole part of a number is passed. -/
def skipAfterWhole : Reader Unit := do
  match ← peek with
  | some b =>
    if b == code '.' then do
      drop
      let digits ← takeDigits
      if digits.isEmpty then stopAhead .invalidNumber
      else if ← exponentFollows then skipExponent
      else pure ()
    else if b == code 'e' || b == code 'E' then skipExponent
    else pure ()
  | none => pure ()

theorem skipNumber_whole (n : Numeral) (ended : NoDigit rest) :
    skipNumber (n.whole.text ++ rest) = skipAfterWhole rest := by
  have taken : takeDigits (n.whole.rest.map digit ++ rest) = .ok (n.whole.rest.map digit, rest) :=
    takeDigits_append (fun _ => isDigit_of_mem) ended
  have first : next (n.whole.text ++ rest) =
      .ok (some (digit n.whole.first), n.whole.rest.map digit ++ rest) := rfl
  rw [skipNumber, bind_ok first]
  by_cases zero : n.whole.first = 0
  · rw [zero, n.plain zero]
    cases rest with
    | nil => rfl
    | cons b rest =>
        have other := ended b rfl
        have next : peek (b :: rest) = .ok (some b, b :: rest) := rfl
        simp only [(digit_eq_zero_iff 0).mpr rfl, BEq.rfl, if_true, List.map_nil, List.nil_append,
          bind_ok next, other, Bool.false_eq_true, if_false]
        rfl
  · have other : (digit n.whole.first == code '0') = false := by
      rw [beq_eq_false_iff_ne, Ne, digit_eq_zero_iff]
      exact zero
    simp only [other, isDigit_digit, Bool.false_eq_true, if_false, if_true]
    rw [bind_ok taken]
    rfl

/-- Passing over a number whose sign has been read takes its text. -/
theorem skipNumber_unsigned (n : Numeral) (ended : Ended rest) :
    skipNumber (n.unsigned ++ rest) = .ok ((), rest) := by
  rw [unsigned, List.append_assoc, List.append_assoc, n.skipNumber_whole (n.ended_unsigned ended)]
  cases n.fraction with
  | none =>
      cases n.exponent with
      | none =>
          cases rest with
          | nil => rfl
          | cons b rest =>
              obtain ⟨-, notPoint, notSmall, notCapital⟩ := ended b rfl
              simp [skipAfterWhole, bind, peek, pure, notPoint, notSmall, notCapital]
      | some e =>
          rw [← skipExponent_text e ended.noDigit]
          obtain ⟨capital, sign, d⟩ := e
          cases capital <;> rfl
  | some digits =>
      have dropped : drop (code '.' :: digits.text ++ (n.exponent.elim [] Exponent.text ++ rest)) =
          .ok ((), digits.text ++ (n.exponent.elim [] Exponent.text ++ rest)) := rfl
      have next : peek (code '.' :: digits.text ++ (n.exponent.elim [] Exponent.text ++ rest)) =
          .ok (some (code '.'), code '.' :: digits.text ++
            (n.exponent.elim [] Exponent.text ++ rest)) := rfl
      have some_digits : digits.text.isEmpty = false := rfl
      rw [Option.elim_some, skipAfterWhole, bind_ok next]
      simp only [BEq.rfl, if_true]
      rw [bind_ok dropped,
        bind_ok (takeDigits_append digits.isDigit_text (Exponent.ended_elim n.exponent ended))]
      simp only [some_digits, Bool.false_eq_true, if_false]
      cases n.exponent with
      | none =>
          rw [Option.elim_none, List.nil_append, bind_ok ended.exponentFollows]
          rfl
      | some e =>
          rw [Option.elim_some, bind_ok e.exponentFollows_text]
          exact skipExponent_text e ended.noDigit

end Numeral

end FunctionArchive.Json
