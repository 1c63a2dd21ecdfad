import FunctionArchive.Proofs.Disk.Place
import Mathlib.Data.List.Nodup
import Mathlib.Data.List.Perm.Subperm
import Std.Data.String.ToNat

/-!
# Entries beside others

A name that was made up for a directory belongs to no entry of it (`freshName_absent`). An entry of
that name can be set, worked on and taken away again, and the tree is as before (`put_put_below`,
`put_remove`); meanwhile everything else is found as ever (`Enters.beside`).
-/

set_option autoImplicit false

namespace FunctionArchive.Disk

variable {d : Disk} {p : Path} {dir names back : List String} {x : Node}

/-! ## Names that are not taken -/

theorem toList_numbered (beginning : String) (n : Nat) :
    s!"{beginning}{n}".toList = beginning.toList ++ (Nat.repr n).toList := by
  simp [toString]

theorem exists_untaken (beginning : String) (taken : List String) :
    ∃ n ∈ List.range (taken.length + 1), s!"{beginning}{n}" ∉ taken := by
  by_contra noneLeft
  push Not at noneLeft
  have different : Function.Injective fun n : Nat => s!"{beginning}{n}" := by
    intro m n same
    have lists := congrArg String.toList same
    rw [toList_numbered, toList_numbered] at lists
    exact Nat.repr_injective (String.toList_inj.mp (List.append_cancel_left lists))
  have inside : (List.range (taken.length + 1)).map (fun n => s!"{beginning}{n}") ⊆ taken := by
    intro name member
    obtain ⟨n, inRange, rfl⟩ := List.mem_map.mp member
    exact noneLeft n inRange
  have bound := (List.Nodup.subperm (List.Nodup.map different List.nodup_range) inside).length_le
  rw [List.length_map, List.length_range] at bound
  omega

theorem freshName_eq (d : Disk) (p : Path) (beginning : String) (other : Option String) :
    ∃ n : Nat, d.freshName p beginning other = s!"{beginning}{n}" ∧
      d.freshName p beginning other ∉ other.toList ++ (d.list (d.base p)).toOption.getD [] := by
  unfold freshName
  extract_lets taken candidates
  obtain ⟨n, inRange, free⟩ := exists_untaken beginning taken
  have some : ∃ name, candidates.find? (!taken.contains ·) = some name := by
    rw [← Option.isSome_iff_exists, List.find?_isSome]
    exact ⟨_, List.mem_map_of_mem inRange, by simpa using free⟩
  obtain ⟨name, found⟩ := some
  obtain ⟨m, -, rfl⟩ := List.mem_map.mp (List.mem_of_find?_eq_some found)
  refine ⟨m, by rw [found]; rfl, ?_⟩
  show (candidates.find? (!taken.contains ·)).getD beginning ∉ taken
  rw [found]
  simpa using List.find?_some found

theorem isName_numbered {beginning : String} (noSlash : '/' ∉ beginning.toList)
    (long : 2 < beginning.toList.length) (n : Nat) : Path.IsName s!"{beginning}{n}" := by
  have letters := toList_numbered beginning n
  have longer : 2 < s!"{beginning}{n}".toList.length := by
    rw [letters, List.length_append]
    omega
  have digits : '/' ∉ (Nat.repr n).toList := by
    intro member
    have digit : '/'.isDigit = true :=
      Nat.isDigit_of_mem_toDigits (b := 10) (by decide) (by decide)
        (by simpa [Nat.repr] using member)
    exact absurd digit (by decide)
  have whole : '/' ∉ s!"{beginning}{n}".toList := by
    rw [letters, List.mem_append]
    exact fun member => member.elim noSlash digits
  refine ⟨⟨?_, whole⟩, ?_, ?_⟩ <;> intro short <;> rw [short] at longer <;> simp at longer

theorem isName_freshName (d : Disk) (p : Path) {beginning : String} (other : Option String)
    (noSlash : '/' ∉ beginning.toList) (long : 2 < beginning.toList.length) :
    Path.IsName (d.freshName p beginning other) := by
  obtain ⟨n, name, -⟩ := d.freshName_eq p beginning other
  rw [name]
  exact isName_numbered noSlash long n

/-- A fresh name is not that of the entry that is to come. -/
theorem freshName_ne (d : Disk) (p : Path) (beginning name : String) :
    d.freshName p beginning (some name) ≠ name := by
  obtain ⟨n, -, free⟩ := d.freshName_eq p beginning (some name)
  rintro same
  exact free (by simp [same])

/-- No entry of the directory has a fresh name. -/
theorem freshName_absent (enters : d.Enters p dir) (beginning : String) (other : Option String) :
    d.root.at? (dir ++ [d.freshName p beginning other]) = none := by
  obtain ⟨n, -, free⟩ := d.freshName_eq p beginning other
  obtain ⟨entries, found⟩ := enters_iff_find_base.mp enters
  have listed : (d.list (d.base p)).toOption.getD [] = entries.map Prod.fst := by
    simp [list, Disk.entries, found, Except.map, Except.toOption]
  rw [Node.at?_concat_of_directory (at?_of_find found), List.lookup_eq_none_iff]
  rintro ⟨key, m⟩ member
  rw [bne_iff_ne]
  rintro rfl
  refine free (List.mem_append_right _ ?_)
  rw [listed]
  exact List.mem_map_of_mem member

/-! ## Working on one entry -/

theorem put_put_same (d : Disk) (names : List String) (x : Node) (node : Option Node) :
    (d.put names (some x)).put names node = d.put names node := by
  simp only [put, Node.alter_set]

/-- Of an entry that is taken away it does not matter what it was. -/
theorem put_put_none (d : Disk) (names : List String) (node : Option Node) :
    (d.put names node).put names none = d.put names none := by
  simp only [put, Node.alter_none_of_alter]

/-- A change below an entry that was set changes what was set. -/
theorem put_put_below (d : Disk) (x : Node) (node : Option Node) (notEmpty : names ≠ [])
    (below : back ≠ []) :
    (d.put names (some x)).put (names ++ back) node =
      d.put names (some (x.alter (fun _ => node) back)) := by
  simp only [put, Node.alter_set_below _ _ notEmpty below]

/-- An entry that was set where none was can be taken away again. -/
theorem put_remove (absent : d.root.at? names = none) (x : Node) :
    (d.put names (some x)).put names none = d := by
  rw [put_put_same, put, Node.alter_eq_self absent.symm]

theorem Enters.extend {d' : Disk} (enters : d.Enters p dir) (grown : d.root.Extends d'.root)
    (current : d'.current = d.current) : d'.Enters p dir := by
  obtain ⟨entries, leads⟩ := enters
  obtain ⟨m, leads', same⟩ := leads.extend grown
  obtain ⟨entries', rfl⟩ := Node.eq_directory_of_outline same
  refine ⟨entries', ?_⟩
  rw [namesOf, current]
  exact leads'

theorem Enters.unique {dir' : List String} (enters : d.Enters p dir) (enters' : d.Enters p dir') :
    dir = dir' := by
  obtain ⟨entries, leads⟩ := enters
  obtain ⟨entries', leads'⟩ := enters'
  have same := leads.walk_eq.symm.trans leads'.walk_eq
  cases same
  rfl

/-- A directory is entered as before when a new entry is set. -/
theorem Enters.beside (enters : d.Enters p dir) (absent : d.root.at? names = none)
    (node : Option Node) : (d.put names node).Enters p dir :=
  enters.extend (Node.extends_alter absent _) rfl

end FunctionArchive.Disk
