import FunctionArchive.Proofs.Disk.Moves
import Mathlib.Data.List.Induction

/-!
# Working inside a directory

An entry `site` was made to be worked on. As long as no link stands on the way, whatever is done at
a path below it changes nothing but that entry, and taking it away gives the disk back that there
was before (`Stage`).
-/

set_option autoImplicit false

namespace FunctionArchive

namespace Path

/-- The path on which one goes on from another through these names. -/
def below (p : Path) (names : List String) : Path := names.foldl child p

theorem below_concat (p : Path) (front : List String) (name : String) :
    p.below (front ++ [name]) = (p.below front).child name := by
  simp [below]

/-- What is below a child is in the directory that the names before the last lead to. -/
theorem parent?_below {p : Path} {fresh name : String} {front : List String}
    (isFresh : IsName fresh) (proper : ∀ part ∈ front ++ [name], IsName part) :
    ((p.child fresh).below (front ++ [name])).parent? = some ((p.child fresh).below front) := by
  have isName := proper name (by simp)
  rw [below_concat]
  cases front using List.reverseRecOn with
  | nil => exact parent?_child_child p isFresh isName
  | append_singleton before last _ =>
      rw [below_concat]
      exact parent?_child_child _ (proper last (by simp)) isName

theorem stem_concat {front : List String} {absolute : Bool} {name : String} (part : IsPart name) :
    (⟨absolute, front ++ [name]⟩ : Path).stem = front ++ [name] := by
  simp [stem, part.1]

/-- The names of a path below a child. -/
theorem below_eq {p : Path} {fresh : String} {names : List String} (isFresh : IsName fresh)
    (proper : ∀ part ∈ names, IsName part) :
    (p.child fresh).below names = ⟨p.absolute, p.stem ++ [fresh] ++ names⟩ := by
  induction names using List.reverseRecOn with
  | nil =>
      rw [List.append_nil, ← child_eq p isFresh.1]
      rfl
  | append_singleton front last ih =>
      have above := ih fun part member => proper part (by simp [member])
      have isLast : IsName last := proper last (by simp)
      have stem : ((p.child fresh).below front).stem = p.stem ++ [fresh] ++ front := by
        rw [above]
        cases front using List.reverseRecOn with
        | nil => simpa using stem_concat isFresh.1
        | append_singleton before name _ =>
            rw [← List.append_assoc]
            exact stem_concat (proper name (by simp)).1
      rw [below_concat, child_eq _ isLast.1, stem, above]
      simp only [List.append_assoc]

end Path

namespace Disk

variable {d d' made : Disk} {p q : Path} {dir names front : List String}
  {name fresh : String}

/-! ## A site of work -/

/-- A disk on which something is done below an entry that was made for it. Without that entry the
disk is as it was before, and the links below the entry stand under names that satisfy `linked`. -/
structure Stage (made : Disk) (site : List String) (linked : List String → Prop) (d : Disk) :
    Prop where
  rest : d.put site none = made
  there : ∃ entries, d.root.at? site = some (.directory entries)
  kept : ∀ names target, d.root.at? (site ++ names) = some (.link target) → linked names

namespace Stage

variable {site : List String} {linked : List String → Prop}

theorem grown (stage : Stage made site linked d) (notEmpty : site ≠ []) :
    made.root.Extends d.root := by
  rw [← stage.rest]
  exact Node.extends_of_removed notEmpty d.root

theorem current (stage : Stage made site linked d) : d.current = made.current := by
  rw [← stage.rest]
  rfl

theorem enters (stage : Stage made site linked d) (notEmpty : site ≠ [])
    (enters : made.Enters p dir) : d.Enters p dir :=
  enters.extend (stage.grown notEmpty) stage.current

/-- What is set below the site leaves the rest as it is. -/
theorem put {n : Node} (stage : Stage made site linked d) (notEmpty : site ≠ [])
    (directory : ∃ entries, d.root.at? (site ++ front) = some (.directory entries))
    (known : ∀ back target, n.at? back = some (.link target) → linked (front ++ [name] ++ back)) :
    Stage made site linked (d.put (site ++ front ++ [name]) (some n)) := by
  obtain ⟨entries, directory⟩ := directory
  refine ⟨?_, ?_, ?_⟩
  · rw [← stage.rest]
    simp only [Disk.put, List.append_assoc, Node.alter_none_of_below _ notEmpty]
  · obtain ⟨entries', there⟩ := stage.there
    have off : ¬ site ++ front ++ [name] <+: site := fun inside => by
      have short := inside.length_le
      simp only [List.length_append, List.length_singleton] at short
      omega
    have looks := Node.outline_at?_alter off (fun _ => some n) d.root
    rw [there] at looks
    obtain ⟨m, there', same⟩ := Option.map_eq_some_iff.mp looks
    obtain ⟨entries'', rfl⟩ := Node.eq_directory_of_outline same
    exact ⟨entries'', there'⟩
  · intro names target isLink
    by_cases inside : site ++ front ++ [name] <+: site ++ names
    · obtain ⟨back, joined⟩ := inside
      have same : names = front ++ [name] ++ back := by
        simpa [List.append_assoc] using joined.symm
      subst same
      rw [← joined, Node.at?_append] at isLink
      have set : (d.root.alter (fun _ => some n) (site ++ front ++ [name])).at?
          (site ++ front ++ [name]) = some n := Node.at?_alter directory name
      simp only [Disk.put, set, Option.bind_some] at isLink
      exact known back target isLink
    · have looks := Node.outline_at?_alter inside (fun _ => some n) d.root
      simp only [Disk.put] at isLink
      rw [isLink] at looks
      obtain ⟨m, there, same⟩ := Option.map_eq_some_iff.mp looks.symm
      cases Node.eq_link_of_outline same
      exact stage.kept names target there

/-! ## Operations below the site -/

section Operations

variable (enters : made.Enters p dir) (isFresh : Path.IsName fresh)

include enters isFresh

/-- Paths below the site lead nowhere else if no link stands on the way. -/
theorem enters_below {inner : List String} (stage : Stage made (dir ++ [fresh]) linked d)
    (proper : ∀ part ∈ names, Path.IsName part) (free : ∀ front, front <+: names → ¬ linked front)
    (entered : d.Enters ((p.child fresh).below names) inner) :
    inner = dir ++ [fresh] ++ names := by
  have noLink (front : List String) (prefixed : front <+: names) (target : String) :
      d.root.at? (dir ++ [fresh] ++ front) ≠ some (.link target) := fun isLink =>
    free front prefixed (stage.kept front target isLink)
  induction names using List.reverseRecOn generalizing inner with
  | nil =>
      obtain ⟨dir', entered', ends⟩ := Enters.of_child isFresh entered
      obtain rfl := entered'.unique (stage.enters (by simp) enters)
      rcases ends with reached | ⟨target, isLink⟩
      · simpa using reached
      · exact absurd isLink (by simpa using noLink [] List.nil_prefix target)
  | append_singleton front name ih =>
      rw [Path.below_concat] at entered
      have longer (before : List String) (prefixed : before <+: front) :
          before <+: front ++ [name] := prefixed.trans (List.prefix_append _ _)
      obtain ⟨dir', entered', ends⟩ := Enters.of_child (proper name (by simp)) entered
      have above := ih (fun part member => proper part (by simp [member]))
        (fun before prefixed => free before (longer before prefixed)) entered'
        (fun before prefixed => noLink before (longer before prefixed))
      subst above
      rcases ends with reached | ⟨target, isLink⟩
      · rw [reached, List.append_assoc]
      · rw [List.append_assoc] at isLink
        exact absurd isLink (noLink _ List.prefix_rfl target)

/-- Nothing can be created at the site, where something is. -/
theorem create_site (stage : Stage made (dir ++ [fresh]) linked d) (node : Node) :
    d.create (p.child fresh) node = .error .alreadyExists := by
  obtain ⟨entries, there⟩ := stage.there
  have taken : d.occupant? ⟨dir, fresh⟩ = some (.directory entries) := there
  simp [create, slot_child isFresh (stage.enters (by simp) enters), bind, Except.bind, taken]

theorem create {node : Node} (stage : Stage made (dir ++ [fresh]) linked d)
    (proper : ∀ part ∈ names, Path.IsName part)
    (free : ∀ front, front <+: names.dropLast → ¬ linked front)
    (known : ∀ back target, node.at? back = some (.link target) → linked (names ++ back))
    (created : d.create ((p.child fresh).below names) node = .ok d') :
    Stage made (dir ++ [fresh]) linked d' := by
  cases names using List.reverseRecOn with
  | nil => cases (stage.create_site enters isFresh node).symm.trans created
  | append_singleton front name _ =>
      rw [Path.below_concat] at created
      obtain ⟨inner, entered, -, rfl⟩ := of_create_child (proper name (by simp)) created
      have above := stage.enters_below enters isFresh
        (fun part member => proper part (by simp [member])) (by simpa using free) entered
      subst above
      exact stage.put (by simp) entered.at? known

theorem createDirectory (stage : Stage made (dir ++ [fresh]) linked d)
    (proper : ∀ part ∈ names, Path.IsName part)
    (free : ∀ front, front <+: names → ¬ linked front)
    (created : d.createDirectory ((p.child fresh).below names) = .ok d') :
    Stage made (dir ++ [fresh]) linked d' := by
  refine stage.create enters isFresh proper
    (fun front prefixed => free front (prefixed.trans (List.dropLast_prefix _))) ?_ created
  intro back target isLink
  cases back with
  | nil => cases isLink
  | cons first rest => simp [Node.at?, Node.child?] at isLink

theorem createDirectoriesFrom {bound : Nat} (stage : Stage made (dir ++ [fresh]) linked d)
    (proper : ∀ part ∈ names, Path.IsName part)
    (free : ∀ front, front <+: names → ¬ linked front)
    (created : Disk.createDirectoriesFrom bound d ((p.child fresh).below names) = .ok d') :
    Stage made (dir ++ [fresh]) linked d' := by
  induction bound generalizing d d' names with
  | zero => cases created
  | succ bound ih =>
      rw [Disk.createDirectoriesFrom] at created
      split at created
      · cases created
        exact stage
      · split at created
        · rename_i d₁ made₁
          cases created
          exact stage.createDirectory enters isFresh proper free made₁
        · rename_i absent
          cases names using List.reverseRecOn with
          | nil => cases (stage.create_site enters isFresh _).symm.trans absent
          | append_singleton front name _ =>
              rw [Path.parent?_below isFresh proper] at created
              dsimp only at created
              cases above : Disk.createDirectoriesFrom bound d ((p.child fresh).below front) with
              | error fault => simp [above, bind, Except.bind] at created
              | ok d₁ =>
                  have stage₁ := ih stage (fun part member => proper part (by simp [member]))
                    (fun before prefixed => free before (prefixed.trans (List.prefix_append _ _)))
                    above
                  simp only [above, bind, Except.bind] at created
                  split at created
                  · cases created
                    exact stage₁
                  · exact stage₁.createDirectory enters isFresh proper free created
        · split at created
          · cases created
            exact stage
          · cases created

/-- Creating directories below the site changes nothing else. -/
theorem createDirectories (stage : Stage made (dir ++ [fresh]) linked d)
    (proper : ∀ part ∈ names, Path.IsName part)
    (free : ∀ front, front <+: names → ¬ linked front)
    (created : d.createDirectories ((p.child fresh).below names) = .ok d') :
    Stage made (dir ++ [fresh]) linked d' :=
  stage.createDirectoriesFrom enters isFresh proper free created

/-- An operation on a file below the site changes nothing else. -/
theorem filesChild (stage : Stage made (dir ++ [fresh]) linked d)
    (proper : ∀ part ∈ front ++ [name], Path.IsName part)
    (free : ∀ before, before <+: front ++ [name] → ¬ linked before)
    (filed : d.FilesChild ((p.child fresh).below front) name d') :
    Stage made (dir ++ [fresh]) linked d' := by
  obtain ⟨inner, entered, ends⟩ := filed
  have above := stage.enters_below enters isFresh
    (fun part member => proper part (by simp [member]))
    (fun before prefixed => free before (prefixed.trans (List.prefix_append _ _))) entered
  subst above
  rcases ends with ⟨target, isLink⟩ | rfl | ⟨f, rfl⟩
  · rw [List.append_assoc] at isLink
    exact absurd (stage.kept _ target isLink) (free _ List.prefix_rfl)
  · exact stage
  · refine stage.put (by simp) entered.at? fun back target isLink => ?_
    cases back with
    | nil => cases isLink
    | cons first rest => simp [Node.at?, Node.child?] at isLink

end Operations

end Stage

end Disk

end FunctionArchive
