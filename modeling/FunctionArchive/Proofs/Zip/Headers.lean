import FunctionArchive.Proofs.Text.Utf8
import FunctionArchive.Zip.Bytes
import FunctionArchive.Zip.Record
import Mathlib.Algebra.Group.Nat.Defs

/-!
# Headers that are read as they were written

A number that fits into its bytes is read back from them (`run_number`), and so are bytes as such
(`run_bytes`). A reader that needs some bytes gets nothing out of fewer (`Needs`). The places at
which a mark stands are found from the back to the front, so those in a part at the end come before
all others (`placesOf_append`).

So the directory of an archive is read back header by header (`run_readRecords`), as long as its
numbers fit into their bytes (`Packed.Fits`). The record of an entry says what the entry was written
with (`Packed.record`).
-/

set_option autoImplicit false

namespace FunctionArchive.Zip

@[simp] theorem length_little (count n : Nat) : (little count n).length = count := by
  induction count generalizing n with
  | zero => rfl
  | succ count ih => rw [little, List.length_cons, ih]

namespace ByteReader

variable {α β : Type} {xs rest data : List UInt8} {count n m : Nat}

theorem ofLittle_little (fits : n < 256 ^ count) : ofLittle (little count n) = n := by
  induction count generalizing n with
  | zero =>
      have none : n = 0 := by simpa using fits
      rw [none]
      rfl
  | succ count ih =>
      have higher : n / 256 < 256 ^ count := by
        rw [Nat.div_lt_iff_lt_mul (by decide), ← Nat.pow_succ]
        exact fits
      have lowest : (UInt8.ofNat n).toNat = n % 256 := UInt8.toNat_ofNat'
      show (UInt8.ofNat n).toNat + 256 * ofLittle (little count (n / 256)) = n
      rw [ih higher, lowest, Nat.mod_add_div]

/-! ## Runs -/

/-- A step of reading that has gone well is followed by the next one. -/
theorem run_step {reader : ByteReader α} {next : α → ByteReader β} {a : α}
    (read : reader.run data = some (a, rest)) : (reader >>= next).run data = (next a).run rest := by
  rw [StateT.run_bind, read]
  rfl

theorem run_bytes (exact : xs.length = count) :
    (bytes count).run (xs ++ rest) = some (xs, rest) := by
  subst exact
  simp [bytes]

theorem run_skip (exact : xs.length = count) : (skip count).run (xs ++ rest) = some ((), rest) := by
  rw [skip, run_step (run_bytes exact)]
  rfl

theorem run_number (fits : n < 256 ^ count) :
    (number count).run (little count n ++ rest) = some (n, rest) := by
  rw [number, run_step (run_bytes (length_little count n)), ofLittle_little fits]
  rfl

theorem run_expect (fits : n < 256 ^ count) :
    (expect count n).run (little count n ++ rest) = some ((), rest) := by
  rw [expect, run_step (run_number fits)]
  simp [require]

/-! ## Readers that need some bytes -/

/-- A reader that takes at least as many bytes. -/
def Needs (n : Nat) (reader : ByteReader α) : Prop :=
  ∀ data a rest, reader.run data = some (a, rest) → n + rest.length ≤ data.length

theorem Needs.pure (a : α) : Needs 0 (Pure.pure a : ByteReader α) := by
  rintro data _ _ ⟨⟩
  omega

theorem Needs.mono {reader : ByteReader α} (needs : Needs n reader) (less : m ≤ n) :
    Needs m reader :=
  fun data a rest read => Nat.le_trans (Nat.add_le_add_right less _) (needs data a rest read)

theorem Needs.bind {reader : ByteReader α} {next : α → ByteReader β} (first : Needs n reader)
    (second : ∀ a, Needs m (next a)) : Needs (n + m) (reader >>= next) := by
  intro data b rest read
  rw [StateT.run_bind] at read
  obtain ⟨⟨a, between⟩, here, later⟩ := Option.bind_eq_some_iff.mp read
  have taken := first data a between here
  have takenLater := second a between b rest later
  omega

theorem needs_bytes (count : Nat) : Needs count (bytes count) := by
  intro data taken rest read
  simp only [bytes, StateT.run_bind, StateT.run_get, Option.pure_def, Option.bind_eq_bind,
    Option.bind_some] at read
  split at read
  · rename_i enough
    cases read
    have few : min count data.length = count := by simpa using enough
    simp only [List.length_drop]
    omega
  · cases read

theorem needs_skip (count : Nat) : Needs count (skip count) :=
  .bind (needs_bytes count) fun _ => .pure ()

theorem needs_number (count : Nat) : Needs count (number count) :=
  .bind (needs_bytes count) fun _ => .pure _

theorem needs_expect (count value : Nat) : Needs count (expect count value) := by
  have needsNothing (condition : Bool) : Needs 0 (require condition) := by
    unfold require
    split
    · exact .pure ()
    · intro data a rest read
      cases read
  exact Needs.bind (needs_number count) fun n => needsNothing _

end ByteReader

/-! ## Marks -/

variable {mark xs ys data : List UInt8} {offset : Nat} {found : List (Nat × List UInt8)}

/-- The places in a part at the end are looked up last. -/
theorem placesOf_append (mark xs ys : List UInt8) (offset : Nat) (found : List (Nat × List UInt8)) :
    ∃ before, placesOf mark offset (xs ++ ys) found =
      placesOf mark (offset + xs.length) ys before := by
  induction xs generalizing offset found with
  | nil => exact ⟨found, rfl⟩
  | cons b rest ih =>
      obtain ⟨before, same⟩ := ih (offset + 1)
        (if mark.isPrefixOf (b :: (rest ++ ys)) then (offset, b :: (rest ++ ys)) ::
          found else found)
      refine ⟨before, ?_⟩
      rw [List.cons_append, placesOf, same, List.length_cons, Nat.add_assoc, Nat.add_comm 1]

/-- What is found later stands in front of what was found before, and less follows it. -/
theorem placesOf_later (mark data : List UInt8) (offset : Nat) (found : List (Nat × List UInt8)) :
    ∃ later, placesOf mark offset data found = later ++ found ∧
      ∀ place ∈ later, place.2.length ≤ data.length := by
  induction data generalizing offset found with
  | nil => exact ⟨[], rfl, List.forall_mem_nil _⟩
  | cons b rest ih =>
      obtain ⟨later, places, shorter⟩ := ih (offset + 1)
        (if mark.isPrefixOf (b :: rest) then (offset, b :: rest) :: found else found)
      have weaker : ∀ place ∈ later, place.2.length ≤ (b :: rest).length :=
        fun place member => Nat.le_succ_of_le (shorter place member)
      rw [placesOf, places]
      split
      · refine ⟨later ++ [(offset, b :: rest)], by simp, ?_⟩
        exact List.forall_mem_append.mpr ⟨weaker, List.forall_mem_singleton.mpr (Nat.le_refl _)⟩
      · exact ⟨later, rfl, weaker⟩

/-- Bytes that begin with the mark are a place of it, behind which only shorter ones are found. -/
theorem placesOf_mark (starts : mark.isPrefixOf data = true) (some : data ≠ []) (offset : Nat)
    (found : List (Nat × List UInt8)) :
    ∃ later, placesOf mark offset data found = later ++ (offset, data) :: found ∧
      ∀ place ∈ later, place.2.length < data.length := by
  obtain ⟨b, rest, rfl⟩ := List.exists_cons_of_ne_nil some
  obtain ⟨later, places, shorter⟩ := placesOf_later mark rest (offset + 1)
    ((offset, b :: rest) :: found)
  refine ⟨later, ?_, fun place member => Nat.lt_succ_of_le (shorter place member)⟩
  rw [placesOf, if_pos starts, places]

/-- A mark of which the first place is at the start is found there first. -/
theorem placesBetween_start {mark start stop : Nat}
    (starts : (little 4 mark).isPrefixOf ((data.drop start).take (stop - start)) = true) :
    (placesBetween mark data start stop).head? = some start := by
  have notEmpty : (data.drop start).take (stop - start) ≠ [] := by
    intro empty
    rw [empty] at starts
    cases starts
  obtain ⟨later, places, -⟩ := placesOf_mark starts notEmpty start []
  rw [placesBetween, places]
  simp

/-! ## Records -/

open ByteReader (run_step run_number run_expect run_skip run_bytes)

namespace Packed

/-- What is read from the header of an entry that starts at an offset. -/
def record (p : Packed) (offset : Nat) : Record where
  system := modeSystem
  flags := p.flags
  method := p.entry.method.code
  modified := ⟨earliestDate, 0⟩
  keptSize := p.kept.length
  size := p.entry.data.length
  attributes := p.entry.mode * 65536
  offset
  rawName := p.name
  name := p.entry.name
  comment := ""
  sealed := false

/-- Whether the numbers of an entry fit into its headers. -/
structure Fits (p : Packed) : Prop where
  mode : p.entry.mode < 0x10000
  name : p.name.length < 0x10000
  kept : p.kept.length < 0x100000000
  data : p.entry.data.length < 0x100000000

variable {p : Packed} {offset : Nat} {rest : List UInt8}

theorem flags_lt (p : Packed) : p.flags < 0x10000 := by
  unfold flags
  split <;> decide

/-- The name of an entry is read in the character set in which it was written. -/
theorem textOf_name (p : Packed) : textOf p.flags p.name = p.entry.name := by
  by_cases ascii : p.name.all (· < 128)
  · have isAscii : ∀ b ∈ Utf8.encode p.entry.name, b < 128 := by simpa [name] using ascii
    have flags : p.flags / unicodeFlag % 2 = 0 := by simp [flags, ascii]
    rw [textOf, flags, if_neg (by decide)]
    exact Utf8.codePage437_encode isAscii
  · have flags : p.flags / unicodeFlag % 2 = 1 := by simp [flags, ascii, unicodeFlag]
    rw [textOf, flags, if_pos (by decide)]
    exact Utf8.decodeLossy_encode _

theorem textOf_none (flags : Nat) : textOf flags [] = "" := by
  unfold textOf
  split <;> rfl

/-- A header is read as it was written. -/
theorem Fits.run_readRecord (fits : p.Fits) (offsetFits : offset < 0x100000000) :
    readRecord.run (p.header offset ++ rest) = some (p.record offset, rest) := by
  obtain ⟨mode, name, kept, data⟩ := fits
  have made : modeSystem * 256 + p.entry.method.version < 0x10000 := by
    cases p.entry.method <;> decide
  have system : (modeSystem * 256 + p.entry.method.version) / 256 = modeSystem := by
    cases p.entry.method <;> decide
  have method : p.entry.method.code < 0x10000 := by cases p.entry.method <;> decide
  have known : (p.entry.method.code != Record.sealedMethod) = true := by
    cases p.entry.method <;> decide
  have attributes : p.entry.mode * 65536 < 0x100000000 :=
    Nat.mul_lt_mul_of_pos_right mode (by decide)
  have nothing : ([] : List UInt8).length = 0 := rfl
  have skipped : (little 2 0 ++ little 2 0).length = 4 := rfl
  have bytes : p.header offset ++ rest = little 4 directoryMark ++
      (little 2 (modeSystem * 256 + p.entry.method.version) ++
      (little 2 p.entry.method.version ++ (little 2 p.flags ++ (little 2 p.entry.method.code ++
      (little 2 0 ++ (little 2 earliestDate ++
      (little 4 (Crc32.ofBytes p.entry.data).toNat ++ (little 4 p.kept.length ++
      (little 4 p.entry.data.length ++ (little 2 p.name.length ++ (little 2 0 ++
      (little 2 0 ++ (little 2 0 ++ little 2 0 ++ (little 4 (p.entry.mode * 65536) ++
      (little 4 offset ++ (p.name ++ ([] ++ ([] ++ rest)))))))))))))))))) := by
    simp only [header, common, List.append_assoc, List.nil_append]
  rw [bytes]
  refine (run_step (run_expect (by decide))).trans ?_
  refine (run_step (run_number made)).trans ?_
  refine (run_step (run_skip (length_little 2 _))).trans ?_
  refine (run_step (run_number p.flags_lt)).trans ?_
  refine (run_step (run_number method)).trans ?_
  refine (run_step (run_number (by decide))).trans ?_
  refine (run_step (run_number (by decide))).trans ?_
  refine (run_step (run_skip (length_little 4 _))).trans ?_
  refine (run_step (run_number kept)).trans ?_
  refine (run_step (run_number data)).trans ?_
  refine (run_step (run_number name)).trans ?_
  refine (run_step (run_number (by decide))).trans ?_
  refine (run_step (run_number (by decide))).trans ?_
  refine (run_step (run_skip skipped)).trans ?_
  refine (run_step (run_number attributes)).trans ?_
  refine (run_step (run_number offsetFits)).trans ?_
  refine (run_step (run_bytes rfl)).trans ?_
  refine (run_step (run_bytes nothing)).trans ?_
  refine (run_step (run_bytes nothing)).trans ?_
  rw [system, textOf_name, textOf_none]
  -- There are no fields, so all that is left is that the method is not one that only a field tells.
  show (ByteReader.require (false || p.entry.method.code != Record.sealedMethod) >>= fun _ =>
    pure (p.record offset)).run rest = _
  rw [known]
  rfl

end Packed

/-! ## Directories -/

/-- What is read from the directory of entries that stand one behind the other from an offset on. -/
def recordsFrom : Nat → List Packed → List Record
  | _, [] => []
  | offset, p :: rest => p.record offset :: recordsFrom (offset + p.body.length) rest

/-- The bytes of entries that stand one behind the other. -/
def bodies (packed : List Packed) : List UInt8 := (packed.map (·.body)).flatten

theorem bodies_append (front back : List Packed) :
    bodies (front ++ back) = bodies front ++ bodies back := by
  simp [bodies]

theorem bodies_cons (p : Packed) (back : List Packed) :
    bodies (p :: back) = p.body ++ bodies back := by
  simp [bodies]

/-- A directory is read as it was written. -/
theorem run_readRecords {packed : List Packed} {offset : Nat} {rest : List UInt8}
    (fit : ∀ p ∈ packed, p.Fits) (room : offset + (bodies packed).length < 0x100000000) :
    (readRecords packed.length).run (directory offset packed ++ rest) =
      some (recordsFrom offset packed, rest) := by
  induction packed generalizing offset with
  | nil => rfl
  | cons p others ih =>
      obtain ⟨here, later⟩ := List.forall_mem_cons.mp fit
      rw [bodies_cons, List.length_append, ← Nat.add_assoc] at room
      have roomHere : offset < 0x100000000 :=
        Nat.lt_of_le_of_lt (Nat.le_trans (Nat.le_add_right _ _) (Nat.le_add_right _ _)) room
      rw [directory, List.append_assoc, List.length_cons]
      refine (run_step (here.run_readRecord roomHere)).trans ?_
      exact run_step (ih later room)

end FunctionArchive.Zip
