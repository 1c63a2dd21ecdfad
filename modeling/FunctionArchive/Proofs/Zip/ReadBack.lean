import FunctionArchive.Proofs.Deflate.Stored
import FunctionArchive.Proofs.Zip.Headers
import FunctionArchive.Zip.Reader

/-!
# Zip archives are read back

An archive whose numbers fit into their bytes (`Writable`) is read as it was written: its directory
lists the entries in their order (`read?_write`), and each of them has its data (`content?_write`).
That the end of the archive is found takes an argument: what looks like a mark of the end in the
last bytes is too short to be one, and the directory starts where the first mark of a header is.
-/

set_option autoImplicit false

namespace FunctionArchive.Zip

open ByteReader (Needs run_step run_number run_expect run_skip run_bytes needs_number needs_expect
  needs_skip)

variable {entries : List Entry} {packed : List Packed} {data tail : List UInt8} {p : Packed}

/-- Entries that can be written to an archive without wide numbers. -/
structure Writable (entries : List Entry) : Prop where
  few : entries.length < 0xFFFF
  fit : ∀ e ∈ entries, e.pack.Fits
  room : (bodies (entries.map Entry.pack)).length < 0xFFFFFFFF

/-! ## The end -/

theorem needs_readEnd : Needs 22 readEnd := by
  have needs : Needs (4 + (2 + (2 + (2 + (2 + (4 + (4 + (2 + (0 + 0))))))))) readEnd := by
    refine .bind (needs_expect 4 _) fun _ => .bind (needs_number 2) fun disk => ?_
    refine .bind (needs_number 2) fun directoryDisk => .bind (needs_number 2) fun countHere => ?_
    refine .bind (needs_number 2) fun count => .bind (needs_skip 4) fun _ => ?_
    refine .bind (needs_number 4) fun directory => .bind (needs_number 2) fun commentLength => ?_
    exact .bind ((needs_skip commentLength).mono (Nat.zero_le _)) fun _ => .pure _
  exact needs

theorem length_ending (count size offset : Nat) : (ending count size offset).length = 22 := by
  simp [ending]

theorem run_readEnd {count offset : Nat} (few : count < 0x10000) (room : offset < 0x100000000)
    (size : Nat) :
    readEnd.run (ending count size offset) = some (⟨0, 0, count, count, offset⟩, []) := by
  have bytes : ending count size offset = little 4 endMark ++ (little 2 0 ++ (little 2 0 ++
      (little 2 count ++ (little 2 count ++ (little 4 size ++ (little 4 offset ++
      (little 2 0 ++ ([] ++ [])))))))) := by
    simp only [ending, List.append_assoc, List.append_nil]
  have nothing : ([] : List UInt8).length = 0 := rfl
  rw [bytes]
  refine (run_step (run_expect (by decide))).trans ?_
  refine (run_step (run_number (by decide))).trans ?_
  refine (run_step (run_number (by decide))).trans ?_
  refine (run_step (run_number few)).trans ?_
  refine (run_step (run_number few)).trans ?_
  refine (run_step (run_skip (length_little 4 _))).trans ?_
  refine (run_step (run_number room)).trans ?_
  refine (run_step (run_number (by decide))).trans ?_
  exact run_step (run_skip nothing)

theorem directory_starts (offset : Nat) (p : Packed) (rest : List Packed) :
    ∃ bytes, directory offset (p :: rest) = little 4 directoryMark ++ bytes :=
  ⟨_, by rw [directory, Packed.header]; simp only [List.append_assoc]; rfl⟩

/-- The end of an archive tells where the directory starts and how many entries it has. -/
theorem directoryFrom?_ending (few : packed.length < 0xFFFF)
    (room : (bodies packed).length < 0xFFFFFFFF) (size : Nat) :
    directoryFrom? (bodies packed ++ (directory 0 packed ++ tail))
        ((bodies packed).length + (directory 0 packed).length)
        (ending packed.length size (bodies packed).length) =
      some ⟨(bodies packed).length, packed.length, 0⟩ := by
  have narrow : (⟨0, 0, packed.length, packed.length, (bodies packed).length⟩ : End).isNarrow =
      false := by
    simp only [End.isNarrow, Bool.or_eq_false_iff, beq_eq_false_iff_ne]
    exact ⟨Nat.ne_of_lt few, Nat.ne_of_lt room⟩
  have ended := run_readEnd (Nat.lt_trans few (by decide)) (Nat.lt_trans room (by decide)) size
  simp only [directoryFrom?, ended, narrow, Option.bind_eq_bind, Option.bind_some,
    Bool.false_eq_true, if_false, End.locate?]
  cases packed with
  | nil => rfl
  | cons p rest =>
      obtain ⟨bytes, starts⟩ := directory_starts 0 p rest
      have behind : (bodies (p :: rest)).length <
          (bodies (p :: rest)).length + (directory 0 (p :: rest)).length := by
        rw [starts, List.length_append, length_little]
        omega
      have first : (placesBetween directoryMark
          (bodies (p :: rest) ++ (directory 0 (p :: rest) ++ tail)) (bodies (p :: rest)).length
          ((bodies (p :: rest)).length + (directory 0 (p :: rest)).length)).head? =
            some (bodies (p :: rest)).length := by
        refine placesBetween_start ?_
        rw [List.drop_left, Nat.add_sub_cancel_left, List.take_left, starts]
        exact List.isPrefixOf_iff_prefix.mpr (List.prefix_append _ _)
      simp [first, behind]

/-! ## Listings -/

theorem distinct_of_nodup {records : List Record} (different : (records.map (·.name)).Nodup) :
    distinct records = records := by
  suffices kept : ∀ front back : List Record, ((front ++ back).map Record.name).Nodup →
      back.foldl (fun kept r =>
        if kept.any (·.name == r.name) then kept.map fun k => if k.name == r.name then r else k
        else kept ++ [r]) front = front ++ back from kept [] records different
  intro front back different
  induction back generalizing front with
  | nil => simp
  | cons r rest ih =>
      have new : front.any (·.name == r.name) = false := by
        rw [List.any_eq_false]
        intro k member same
        rw [List.map_append, List.nodup_append] at different
        have inBack : r.name ∈ (r :: rest).map Record.name := List.mem_map_of_mem List.mem_cons_self
        exact different.2.2 _ (List.mem_map_of_mem member) _ inBack (eq_of_beq same)
      have joined : front ++ r :: rest = (front ++ [r]) ++ rest := by simp
      rw [List.foldl_cons, new, if_neg Bool.false_ne_true, joined]
      exact ih _ (joined ▸ different)

theorem names_recordsFrom (offset : Nat) (packed : List Packed) :
    (recordsFrom offset packed).map (·.name) = packed.map (·.entry.name) := by
  induction packed generalizing offset with
  | nil => rfl
  | cons p rest ih =>
      rw [recordsFrom, List.map_cons, List.map_cons, ih]
      rfl

/-- Every record is that of an entry, at the place where the entry stands. -/
theorem mem_recordsFrom {r : Record} {offset : Nat} (member : r ∈ recordsFrom offset packed) :
    ∃ front p back, packed = front ++ p :: back ∧
      r = p.record (offset + (bodies front).length) := by
  induction packed generalizing offset with
  | nil => cases member
  | cons p rest ih =>
      rcases List.mem_cons.mp member with rfl | later
      · exact ⟨[], p, rest, rfl, rfl⟩
      · obtain ⟨front, q, back, rfl, rfl⟩ := ih later
        refine ⟨p :: front, q, back, rfl, ?_⟩
        rw [bodies_cons, List.length_append, Nat.add_assoc]

/-- The directory lists the entries. -/
theorem list?_directory (fit : ∀ p ∈ packed, p.Fits) (room : (bodies packed).length < 0xFFFFFFFF)
    (different : (packed.map (·.entry.name)).Nodup) :
    Directory.list? (bodies packed ++ (directory 0 packed ++ tail))
        ⟨(bodies packed).length, packed.length, 0⟩ =
      some ⟨bodies packed ++ (directory 0 packed ++ tail), recordsFrom 0 packed, 0⟩ := by
  have room' : 0 + (bodies packed).length < 0x100000000 := by
    rw [Nat.zero_add]
    exact Nat.lt_trans room (by decide)
  have near : (recordsFrom 0 packed).all (·.offset + 0 < offsetBound) = true := by
    rw [List.all_eq_true]
    intro r member
    obtain ⟨front, p, back, rfl, rfl⟩ := mem_recordsFrom member
    rw [bodies_append, List.length_append] at room
    have inside : 0 + (bodies front).length + 0 < offsetBound := by
      unfold offsetBound
      omega
    exact decide_eq_true inside
  have once := distinct_of_nodup ((names_recordsFrom 0 packed).symm ▸ different)
  simp only [Directory.list?, List.drop_left, run_readRecords fit room', Option.bind_eq_bind,
    Option.bind_some, near, guard, if_true, once]
  rfl

theorem directoryFrom?_short {position : Nat} {bytes : List UInt8} (short : bytes.length < 22) :
    directoryFrom? data position bytes = none := by
  have ended : readEnd.run bytes = none := by
    refine Option.eq_none_iff_forall_ne_some.mpr fun read ended => ?_
    have taken := needs_readEnd bytes read.1 read.2 ended
    omega
  simp only [directoryFrom?, ended, Option.bind_eq_bind, Option.bind_none]

/-- Places that are too near to the end are passed over. -/
theorem findSome?_short {places : List (Nat × List UInt8)}
    (short : ∀ place ∈ places, place.2.length < 22) :
    (places.findSome? fun (position, rest) => do
      (← directoryFrom? data position rest).list? data) = none := by
  refine List.findSome?_eq_none_iff.mpr fun place member => ?_
  simp only [directoryFrom?_short (short place member), Option.bind_eq_bind, Option.bind_none]

/-- An archive that is not too large is found by its end. -/
theorem list?_packed (few : packed.length < 0xFFFF) (fit : ∀ p ∈ packed, p.Fits)
    (room : (bodies packed).length < 0xFFFFFFFF) (different : (packed.map (·.entry.name)).Nodup)
    (size : Nat) {bytes : List UInt8}
    (whole : bytes = bodies packed ++ (directory 0 packed ++
      ending packed.length size (bodies packed).length)) :
    list? bytes = some ⟨bytes, recordsFrom 0 packed, 0⟩ := by
  set last := ending packed.length size (bodies packed).length with last_eq
  have starts : (little 4 endMark).isPrefixOf last = true := by
    rw [last_eq, ending]
    simp only [List.append_assoc]
    exact List.isPrefixOf_iff_prefix.mpr (List.prefix_append _ _)
  have length : last.length = 22 := length_ending _ _ _
  have some : last ≠ [] := List.length_pos_iff.mp (by omega)
  -- Marks behind the true one have less than a whole record behind them.
  obtain ⟨before, places⟩ := placesOf_append (little 4 endMark)
    (bodies packed ++ directory 0 packed) last 0 []
  obtain ⟨later, found, shorter⟩ := placesOf_mark starts some
    (0 + (bodies packed ++ directory 0 packed).length) before
  have here : directoryFrom? bytes (0 + (bodies packed ++ directory 0 packed).length) last =
      Option.some ⟨(bodies packed).length, packed.length, 0⟩ := by
    rw [whole, Nat.zero_add, List.length_append]
    exact directoryFrom?_ending few room size
  have listed : Directory.list? (bodies packed ++ (directory 0 packed ++ last)) _ = _ :=
    list?_directory fit room different
  rw [← whole] at listed
  rw [list?]
  have split : placesOf (little 4 endMark) 0 bytes [] = later ++ (0 + (bodies packed ++
      directory 0 packed).length, last) :: before := by
    rw [whole, ← List.append_assoc, places, found]
  rw [split, List.findSome?_append, findSome?_short (length ▸ shorter), Option.none_or,
    List.findSome?_cons]
  simp only [here, Option.bind_eq_bind, Option.bind_some, listed]

/-! ## Entries -/

/-- The data of an entry stands behind its header, and nothing else is taken for it. -/
theorem body?_record {l : Listing} {front back : List Packed}
    (bytes : l.data = bodies (front ++ p :: back) ++ tail) (unmoved : l.shift = 0) (fits : p.Fits) :
    l.body? (p.record (bodies front).length) = some (p.kept ++ (bodies back ++ tail)) := by
  have spelled : l.data.drop ((bodies front).length + l.shift) = little 4 localMark ++
      ((little 2 p.entry.method.version ++ little 2 p.flags ++ little 2 p.entry.method.code ++
      little 2 0 ++ little 2 earliestDate ++ little 4 (Crc32.ofBytes p.entry.data).toNat ++
      little 4 p.kept.length ++ little 4 p.entry.data.length) ++ (little 2 p.name.length ++
      (little 2 0 ++ (p.name ++ (p.kept ++ (bodies back ++ tail)))))) := by
    rw [bytes, unmoved, Nat.add_zero, bodies_append, bodies_cons, List.append_assoc, List.drop_left]
    simp only [Packed.body, Packed.common, List.append_assoc]
  have fixed : (little 2 p.entry.method.version ++ little 2 p.flags ++
      little 2 p.entry.method.code ++ little 2 0 ++ little 2 earliestDate ++
      little 4 (Crc32.ofBytes p.entry.data).toNat ++ little 4 p.kept.length ++
      little 4 p.entry.data.length).length = 22 := by simp
  have header : Listing.body?.header.run (l.data.drop ((bodies front).length + l.shift)) =
      some ((), p.kept ++ (bodies back ++ tail)) := by
    rw [spelled]
    refine (run_step (run_expect (by decide))).trans ?_
    refine (run_step (run_bytes fixed)).trans ?_
    refine (run_step (run_number fits.name)).trans ?_
    refine (run_step (run_number (by decide))).trans ?_
    show some ((), (p.name ++ (p.kept ++ (bodies back ++ tail))).drop (p.name.length + 0)) = _
    rw [Nat.add_zero, List.drop_left]
  show (Listing.body?.header.run (l.data.drop ((bodies front).length + l.shift))).map Prod.snd = _
  rw [header]
  rfl

theorem unpack?_pack (method : Method) (data : List UInt8) :
    method.unpack? (method.pack data) = some data := by
  cases method with
  | stored => rfl
  | deflated => exact Deflate.decode?_compress data

theorem method?_record (p : Packed) (offset : Nat) :
    (p.record offset).method? = some p.entry.method := by
  show [Method.stored, .deflated].find? (·.code == p.entry.method.code) = _
  cases p.entry.method <;> rfl

theorem mode?_record {p : Packed} (known : 0 < p.entry.mode) (offset : Nat) :
    (p.record offset).mode? = some p.entry.mode := by
  have some : (p.entry.mode * 65536 == 0) = false := by
    rw [beq_eq_false_iff_ne]
    omega
  have whole : p.entry.mode * 65536 / 65536 = p.entry.mode := Nat.mul_div_cancel _ (by decide)
  simp only [Record.mode?, Packed.record, some, whole, beq_self_eq_true, if_true,
    Bool.false_eq_true, if_false]

/-- Going through the records of some entries gives what each of them gives at its place. -/
theorem mapM_recordsFrom {ι α : Type} {pack : ι → Packed} {read : Record → Option α} {given : ι → α}
    {items : List ι} {offset : Nat} (each : ∀ front item back, items = front ++ item :: back →
      read ((pack item).record (offset + (bodies (front.map pack)).length)) = some (given item)) :
    (recordsFrom offset (items.map pack)).mapM read = some (items.map given) := by
  induction items generalizing offset with
  | nil => rfl
  | cons item rest ih =>
      have first := each [] item rest rfl
      have others : (recordsFrom (offset + (pack item).body.length) (rest.map pack)).mapM read =
          some (rest.map given) := by
        refine ih fun front next back split => ?_
        have there := each (item :: front) next back (by rw [split, List.cons_append])
        rwa [List.map_cons, bodies_cons, List.length_append, ← Nat.add_assoc] at there
      rw [show (bodies (([] : List ι).map pack)).length = 0 from rfl, Nat.add_zero] at first
      rw [List.map_cons, recordsFrom, List.mapM_cons, first, others]
      rfl

/-- The archive as it is read. -/
def listing (entries : List Entry) : Listing :=
  ⟨write entries, recordsFrom 0 (entries.map Entry.pack), 0⟩

section Written

variable (writable : Writable entries)

include writable

theorem Writable.fits (member : p ∈ entries.map Entry.pack) : p.Fits := by
  obtain ⟨e, inside, rfl⟩ := List.mem_map.mp member
  exact writable.fit e inside

/-- The bytes of an archive, with the data of an entry behind those of the entries before it. -/
theorem body?_write {front back : List Packed}
    (split : entries.map Entry.pack = front ++ p :: back) :
    ∃ behind, (listing entries).body? (p.record (bodies front).length) =
      some (p.kept ++ behind) := by
  have fits : p.Fits := writable.fits (by rw [split]; simp)
  have bytes : (listing entries).data = bodies (front ++ p :: back) ++
      (directory 0 (entries.map Entry.pack) ++ ending entries.length
        (directory 0 (entries.map Entry.pack)).length
        (bodies (entries.map Entry.pack)).length) := by
    rw [← split, ← List.append_assoc]
    rfl
  exact ⟨_, body?_record bytes rfl fits⟩

/-- The data of an entry is read back. -/
theorem content?_write {e : Entry} {front back : List Packed}
    (split : entries.map Entry.pack = front ++ e.pack :: back) :
    (listing entries).content? (e.pack.record (bodies front).length) = some e.data := by
  obtain ⟨behind, there⟩ := body?_write writable split
  have kept : (e.pack.kept ++ behind).take e.pack.kept.length = e.method.pack e.data := by
    rw [List.take_left]
    rfl
  have method : (e.pack.record (bodies front).length).method? = some e.method :=
    method?_record e.pack _
  simp only [Listing.content?, there, method, Option.bind_eq_bind, Option.bind_some]
  rw [show (e.pack.record (bodies front).length).keptSize = e.pack.kept.length from rfl, kept,
    unpack?_pack]

/-- An archive is read as it was written. -/
theorem read?_write (different : (entries.map (·.name)).Nodup) :
    read? (write entries) = some (listing entries) := by
  have fewPacked : (entries.map Entry.pack).length < 0xFFFF := by
    rw [List.length_map]
    exact writable.few
  have names : (entries.map Entry.pack).map (·.entry.name) = entries.map (·.name) := by
    rw [List.map_map]
    rfl
  have bytes : write entries = bodies (entries.map Entry.pack) ++
      (directory 0 (entries.map Entry.pack) ++ ending (entries.map Entry.pack).length
        (directory 0 (entries.map Entry.pack)).length
        (bodies (entries.map Entry.pack)).length) := by
    rw [write, List.append_assoc, List.length_map]
    rfl
  have listed : list? (write entries) = some (listing entries) :=
    list?_packed fewPacked (fun p member => writable.fits member) writable.room
      (names.symm ▸ different) _ bytes
  have holds : (listing entries).records.all (listing entries).holds = true := by
    rw [List.all_eq_true]
    intro r member
    obtain ⟨front, p, back, split, rfl⟩ := mem_recordsFrom member
    obtain ⟨behind, there⟩ := body?_write writable split
    have isOpen : (p.record (0 + (bodies front).length)).isOpen = true := by
      have even : p.flags % 2 = 0 := by
        unfold Packed.flags
        split <;> rfl
      simp [Record.isOpen, Packed.record, even]
    have known : Record.knownMethods.contains (p.record (0 + (bodies front).length)).method =
        true := by
      show Record.knownMethods.contains p.entry.method.code = true
      cases p.entry.method <;> decide
    rw [Nat.zero_add] at isOpen known ⊢
    simp only [Listing.holds, isOpen, known, there, Option.isSome_some, Bool.and_self]
  simp only [read?, listed, Option.bind_eq_bind, Option.bind_some, guard]
  rw [if_pos holds]
  rfl

end Written

end FunctionArchive.Zip
