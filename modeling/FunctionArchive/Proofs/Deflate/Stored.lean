import FunctionArchive.Deflate
import Mathlib.Data.Nat.Bitwise

/-!
# Compressed data is read back

What was compressed is read back before it is used, and the data is stored without a code if it does
not come back. So all that matters is that stored data is read back (`decode?_store`). Its blocks
are read one after the other (`run_readBlocks`), each from the bit on at which it was written.
-/

set_option autoImplicit false

namespace FunctionArchive.Deflate

/-! ## Bits -/

/-- The lowest bit of a number comes first. -/
theorem numberBits_succ (value count : Nat) :
    numberBits value (count + 1) = value.testBit 0 :: numberBits (value / 2) count := by
  simp only [numberBits, List.range_succ_eq_map, List.map_cons, List.map_map, List.cons.injEq,
    true_and]
  refine List.map_congr_left fun i _ => ?_
  simp [Nat.testBit_succ]

@[simp] theorem length_numberBits (value count : Nat) :
    (numberBits value count).length = count := by
  simp [numberBits]

theorem numberBits_none (count : Nat) : numberBits 0 count = List.replicate count false := by
  induction count with
  | zero => rfl
  | succ count ih => rw [numberBits_succ, Nat.zero_div, ih, Nat.zero_testBit, List.replicate_succ]

/-- Bits beyond those that are written do not count. -/
theorem numberBits_mod (value count : Nat) :
    numberBits (value % 2 ^ count) count = numberBits value count := by
  refine List.map_congr_left fun i member => ?_
  simp [Nat.testBit_mod_two_pow, List.mem_range.mp member]

/-- The bits of the number that some bits make are these, filled up. -/
theorem numberBits_ofBits {bits : List Bool} {count : Nat} (fits : bits.length ≤ count) :
    numberBits (bits.foldr (fun b n => 2 * n + if b then 1 else 0) 0) count =
      bits ++ List.replicate (count - bits.length) false := by
  induction bits generalizing count with
  | nil => simp [numberBits_none]
  | cons b rest ih =>
      obtain ⟨count, rfl⟩ := Nat.exists_eq_succ_of_ne_zero (Nat.ne_zero_of_lt fits)
      have lowest (n : Nat) : (2 * n + if b then 1 else 0).testBit 0 = b := by
        cases b <;> simp [Nat.testBit_zero]
      have others (n : Nat) : (2 * n + if b then 1 else 0) / 2 = n := by
        cases b <;> simp only [Bool.false_eq_true, if_false, if_true] <;> omega
      rw [List.foldr_cons, numberBits_succ, lowest, others, ih (Nat.le_of_succ_le_succ fits),
        List.length_cons, Nat.succ_sub_succ, List.cons_append]

theorem byteBits_append (xs ys : List UInt8) :
    byteBits (xs ++ ys) = byteBits xs ++ byteBits ys := by
  simp [byteBits]

theorem byteBits_cons (b : UInt8) (rest : List UInt8) :
    byteBits (b :: rest) = numberBits b.toNat 8 ++ byteBits rest := by
  simp [byteBits]

theorem length_byteBits (bytes : List UInt8) : (byteBits bytes).length = 8 * bytes.length := by
  induction bytes with
  | nil => rfl
  | cons b rest ih =>
      rw [byteBits_cons, List.length_append, length_numberBits, ih, List.length_cons]; omega

theorem byteBits_byteOfBits {bits : List Bool} (fits : bits.length ≤ 8) :
    byteBits [byteOfBits bits] = bits ++ List.replicate (8 - bits.length) false := by
  have byte : byteBits [byteOfBits bits] =
      numberBits (bits.foldr (fun b n => 2 * n + if b then 1 else 0) 0 % 2 ^ 8) 8 := by
    simp [byteBits, byteOfBits]
  rw [byte, numberBits_mod, numberBits_ofBits fits]

/-- Bits that are packed into bytes stand in them, filled up to a whole byte. -/
theorem byteBits_packOnto (filled : List UInt8) (bits : List Bool) :
    ∃ count, byteBits (packOnto filled bits) =
      byteBits filled.reverse ++ (bits ++ List.replicate count false) := by
  fun_induction packOnto filled bits with
  | case1 filled b0 b1 b2 b3 b4 b5 b6 b7 rest ih =>
      obtain ⟨count, packed⟩ := ih
      refine ⟨count, ?_⟩
      have eight : byteBits [byteOfBits [b0, b1, b2, b3, b4, b5, b6, b7]] =
          [b0, b1, b2, b3, b4, b5, b6, b7] := byteBits_byteOfBits (Nat.le_refl 8)
      rw [packed, List.reverse_cons, byteBits_append, eight, List.append_assoc]
      rfl
  | case2 filled => exact ⟨0, by simp⟩
  | case3 filled rest few notEmpty =>
      have fits : rest.length ≤ 8 := by
        match rest, few with
        | [], _ | [_], _ | [_, _], _ | [_, _, _], _ | [_, _, _, _], _ | [_, _, _, _, _], _
        | [_, _, _, _, _, _], _ | [_, _, _, _, _, _, _], _ => simp
        | b0 :: b1 :: b2 :: b3 :: b4 :: b5 :: b6 :: b7 :: others, few =>
            exact absurd rfl (few b0 b1 b2 b3 b4 b5 b6 b7 others)
      refine ⟨8 - rest.length, ?_⟩
      rw [List.reverse_cons, byteBits_append, byteBits_byteOfBits fits]

theorem byteBits_packBits (bits : List Bool) :
    ∃ count, byteBits (packBits bits) = bits ++ List.replicate count false :=
  byteBits_packOnto [] bits

/-! ## Reading bits -/

namespace BitReader

variable {rest : List Bool} {position : Nat}

theorem run_bit (b : Bool) : bit.run ⟨b :: rest, position⟩ = some (b, ⟨rest, position + 1⟩) := rfl

/-- A number is read as it was written. -/
theorem run_number (value count : Nat) :
    (number count).run ⟨numberBits value count ++ rest, position⟩ =
      some (value % 2 ^ count, ⟨rest, position + count⟩) := by
  induction count generalizing value position with
  | zero => simp [number, numberBits, Nat.mod_one]
  | succ count ih =>
      have joined : 2 * (value / 2 % 2 ^ count) + (if value.testBit 0 then 1 else 0) =
          value % 2 ^ (count + 1) := by
        rw [Nat.pow_succ', Nat.mod_mul, Nat.testBit_zero]
        rcases Nat.mod_two_eq_zero_or_one value with even | odd
        · simp [even]
        · simp [odd, Nat.add_comm]
      rw [numberBits_succ, List.cons_append, number, StateT.run_bind, run_bit]
      simp only [Option.bind_eq_bind, Option.bind_some, StateT.run_bind, ih, StateT.run_pure]
      simp only [Option.pure_def, joined]
      rw [Nat.add_assoc, Nat.add_comm 1]

/-- The bits up to the next whole byte are passed over. -/
theorem run_align :
    align.run ⟨List.replicate ((8 - position % 8) % 8) false ++ rest, position⟩ =
      some ((), ⟨rest, position + (8 - position % 8) % 8⟩) := by
  have passed : (number ((8 - position % 8) % 8)).run
      ⟨numberBits 0 ((8 - position % 8) % 8) ++ rest, position⟩ = _ := run_number 0 _
  rw [numberBits_none] at passed
  show (number ((8 - position % 8) % 8)).run _ >>= _ = _
  rw [passed]
  rfl

/-- Bytes are read as they were written. -/
theorem run_bytes (data : List UInt8) (out : Array UInt8) :
    (bytes data.length out).run ⟨byteBits data ++ rest, position⟩ =
      some (out ++ data.toArray, ⟨rest, position + 8 * data.length⟩) := by
  induction data generalizing out position with
  | nil => simp [bytes, byteBits]
  | cons b others ih =>
      have whole : UInt8.ofNat (b.toNat % 2 ^ 8) = b := by simp
      rw [List.length_cons, bytes, byteBits_cons, List.append_assoc, StateT.run_bind, run_number]
      simp only [Option.bind_eq_bind, Option.bind_some, ih, whole]
      simp [Nat.mul_add, Nat.add_assoc, Nat.add_comm]

end BitReader

/-! ## Blocks without a code -/

variable {rest : List Bool} {position : Nat}

theorem length_writeStored (position : Nat) (final : Bool) (block : List UInt8) :
    (writeStored position final block).length =
      3 + (13 - position % 8) % 8 + 32 + 8 * block.length := by
  simp only [writeStored, List.length_append, List.length_cons, length_numberBits,
    List.length_replicate, length_byteBits]

theorem run_readStored {block : List UInt8} (fits : block.length ≤ maxStored) (out : Array UInt8) :
    (readStored out).run
        ⟨List.replicate ((8 - position % 8) % 8) false ++ (numberBits block.length 16 ++
          (numberBits (65535 - block.length) 16 ++ (byteBits block ++ rest))), position⟩ =
      some (out ++ block.toArray,
        ⟨rest, position + (8 - position % 8) % 8 + 16 + 16 + 8 * block.length⟩) := by
  have small : block.length % 2 ^ 16 = block.length :=
    Nat.mod_eq_of_lt (Nat.lt_succ_of_le fits)
  have check : (65535 - block.length) % 2 ^ 16 = 65535 - block.length :=
    Nat.mod_eq_of_lt (Nat.lt_succ_of_le (Nat.sub_le _ _))
  have agree : block.length + (65535 - block.length) = 65535 := Nat.add_sub_cancel' fits
  simp only [readStored, StateT.run_bind, BitReader.run_align, BitReader.run_number, small, check,
    Option.bind_eq_bind, Option.bind_some, agree, beq_self_eq_true, if_true, BitReader.run_bytes]

/-- A block is read from the bit on at which it was written. -/
theorem run_readBlocks_stored (bound : Nat) (final : Bool) {block : List UInt8}
    (fits : block.length ≤ maxStored) (out : Array UInt8) :
    (readBlocks (bound + 1) out).run ⟨writeStored position final block ++ rest, position⟩ =
      if final then some (out ++ block.toArray,
        ⟨rest, position + (writeStored position final block).length⟩)
      else (readBlocks bound (out ++ block.toArray)).run
        ⟨rest, position + (writeStored position final block).length⟩ := by
  have padding : (13 - position % 8) % 8 = (8 - (position + 1 + 2) % 8) % 8 := by omega
  have stop : position + (writeStored position final block).length =
      position + 1 + 2 + (8 - (position + 1 + 2) % 8) % 8 + 16 + 16 + 8 * block.length := by
    rw [length_writeStored]
    omega
  rw [stop, writeStored, padding]
  simp only [List.cons_append, List.append_assoc]
  rw [readBlocks, StateT.run_bind, BitReader.run_bit]
  simp only [Option.bind_eq_bind, Option.bind_some, StateT.run_bind, readBlock, StateT.run_get,
    Option.pure_def, BitReader.run_number, Nat.zero_mod, run_readStored fits]
  cases final <;> rfl

/-- Data that was stored from some bit on is read as a whole. -/
theorem run_readBlocks_storeBlocks {bound enough : Nat} {data : List UInt8}
    (long : data.length / maxStored < bound)
    (more : (storeBlocks bound position data ++ rest).length < enough) (out : Array UInt8) :
    ∃ input, (readBlocks enough out).run ⟨storeBlocks bound position data ++ rest, position⟩ =
      some (out ++ data.toArray, input) := by
  induction bound generalizing enough data out position with
  | zero => exact absurd long (Nat.not_lt_zero _)
  | succ bound ih =>
      obtain ⟨enough, rfl⟩ := Nat.exists_eq_add_one_of_ne_zero (Nat.ne_zero_of_lt more)
      have fits : (data.take maxStored).length ≤ maxStored := List.length_take_le _ _
      rw [storeBlocks] at more ⊢
      by_cases last : data.drop maxStored = []
      · have whole : data.take maxStored = data :=
          List.take_of_length_le (List.drop_eq_nil_iff.mp last)
        rw [whole] at fits
        simp only [last, List.isEmpty_nil, if_true, whole, run_readBlocks_stored _ _ fits]
        exact ⟨_, rfl⟩
      · have goesOn : (data.drop maxStored).isEmpty = false := by simpa using last
        have longer : maxStored ≤ data.length :=
          Nat.le_of_lt (Nat.not_le.mp fun short => last (List.drop_eq_nil_iff.mpr short))
        have fewer : (data.drop maxStored).length / maxStored < bound := by
          rw [Nat.div_eq_sub_div (by decide) longer] at long
          rw [List.length_drop]
          exact Nat.lt_of_succ_lt_succ long
        simp only [goesOn, Bool.false_eq_true, if_false, List.append_assoc] at more ⊢
        have some := length_writeStored position false (data.take maxStored)
        rw [List.length_append] at more
        have shorter : (storeBlocks bound
            (position + (writeStored position false (data.take maxStored)).length)
            (data.drop maxStored) ++ rest).length < enough := by omega
        obtain ⟨input, read⟩ := ih fewer shorter (out ++ (data.take maxStored).toArray)
        have joined : (data.take maxStored).toArray ++ (data.drop maxStored).toArray =
            data.toArray := by simp
        rw [Array.append_assoc, joined] at read
        rw [run_readBlocks_stored _ _ fits, if_neg Bool.false_ne_true]
        exact ⟨input, read⟩

theorem decode?_store (data : List UInt8) : decode? (store data) = some data := by
  obtain ⟨count, bits⟩ := byteBits_packBits (storeBlocks (data.length / maxStored + 1) 0 data)
  obtain ⟨input, read⟩ := run_readBlocks_storeBlocks (Nat.lt_succ_self (data.length / maxStored))
    (Nat.lt_succ_self _) #[]
  rw [decode?, store, bits, read]
  simp

/-- What was compressed is read back. -/
theorem decode?_compress (data : List UInt8) : decode? (compress data) = some data := by
  unfold compress
  dsimp only
  split
  · rename_i back
    exact eq_of_beq back
  · exact decode?_store data

end FunctionArchive.Deflate
