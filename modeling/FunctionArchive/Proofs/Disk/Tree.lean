import FunctionArchive.Disk.Change
import FunctionArchive.Proofs.Disk.Lookup

/-!
# Changing one entry of a tree

A change of the entry at the end of some names is seen there (`at?_alter`) and leaves what stands
beside it (`at?_alter_ne`); elsewhere everything looks as before (`outline_at?_alter`). Changes of
one entry combine (`alter_set`, `alter_none_of_below`), so a tree that was worked on below an entry
is the tree that it was once the entry is taken away again. A tree `Extends` another if it has all
that the other has.
-/

set_option autoImplicit false

namespace FunctionArchive.Disk

namespace Node

/-! ## The entries of a directory -/

section Entries

variable {name other : String} {change : Option Node → Option Node}

theorem alterEntry_nil (name : String) (change : Option Node → Option Node) :
    alterEntry name change [] = ((change none).map (name, ·)).toList := by
  rw [alterEntry]
  cases change none <;> rfl

theorem alterEntry_here (name : String) (change : Option Node → Option Node) (n : Node)
    (rest : List (String × Node)) :
    alterEntry name change ((name, n) :: rest) =
      match change (some n) with
      | some m => (name, m) :: rest
      | none => rest.filter (·.1 != name) :=
  if_pos (beq_self_eq_true name)

theorem alterEntry_later {key : String} (different : key ≠ name)
    (change : Option Node → Option Node) (n : Node) (rest : List (String × Node)) :
    alterEntry name change ((key, n) :: rest) = (key, n) :: alterEntry name change rest :=
  if_neg (by simpa using different)

/-- Taking an entry away leaves all others. -/
theorem alterEntry_none (name : String) (entries : List (String × Node)) :
    alterEntry name (fun _ => none) entries = entries.filter (·.1 != name) := by
  induction entries with
  | nil => rfl
  | cons entry rest ih =>
      obtain ⟨key, n⟩ := entry
      by_cases same : key = name
      · subst same
        simp [alterEntry_here]
      · simp [alterEntry_later same, same, ih]

theorem lookup_filter_ne (entries : List (String × Node)) :
    (entries.filter (·.1 != name)).lookup name = none := by
  rw [List.lookup_eq_none_iff]
  rintro ⟨key, n⟩ member
  have different := (List.mem_filter.mp member).2
  simp only [bne_iff_ne, ne_eq] at different
  simpa using fun same : name = key => different same.symm

theorem lookup_filter_of_ne (different : other ≠ name) (entries : List (String × Node)) :
    (entries.filter (·.1 != name)).lookup other = entries.lookup other := by
  induction entries with
  | nil => rfl
  | cons entry rest ih =>
      obtain ⟨key, n⟩ := entry
      by_cases same : key = name
      · subst same
        have unequal : (other == key) = false := by simpa using different
        simp [List.lookup_cons, unequal, ih]
      · simp [same, List.lookup_cons, ih]

/-- The changed entry is the change of what was there. -/
theorem lookup_alterEntry (entries : List (String × Node)) :
    (alterEntry name change entries).lookup name = change (entries.lookup name) := by
  induction entries with
  | nil => cases made : change none <;> simp [alterEntry_nil, made]
  | cons entry rest ih =>
      obtain ⟨key, n⟩ := entry
      by_cases same : key = name
      · subst same
        cases made : change (some n) with
        | none => simp [alterEntry_here, made, lookup_filter_ne]
        | some m => simp [alterEntry_here, made]
      · have different : (name == key) = false := by simpa using fun h => same h.symm
        simp [alterEntry_later same, List.lookup_cons, different, ih]

/-- No other entry changes. -/
theorem lookup_alterEntry_ne (different : other ≠ name) (entries : List (String × Node)) :
    (alterEntry name change entries).lookup other = entries.lookup other := by
  have unequal : (other == name) = false := by simpa using different
  induction entries with
  | nil => cases made : change none <;> simp [alterEntry_nil, made, List.lookup_cons, unequal]
  | cons entry rest ih =>
      obtain ⟨key, n⟩ := entry
      by_cases same : key = name
      · subst same
        cases made : change (some n) with
        | none =>
            simp [alterEntry_here, made, List.lookup_cons, unequal, lookup_filter_of_ne different]
        | some m => simp [alterEntry_here, made, List.lookup_cons, unequal]
      · simp [alterEntry_later same, List.lookup_cons, ih]

/-- A change after an entry was set sees only what was set. -/
theorem alterEntry_set (x : Node) (entries : List (String × Node)) :
    alterEntry name change (alterEntry name (fun _ => some x) entries) =
      alterEntry name (fun _ => change (some x)) entries := by
  induction entries with
  | nil => cases made : change (some x) <;> simp [alterEntry_nil, alterEntry_here, made]
  | cons entry rest ih =>
      obtain ⟨key, n⟩ := entry
      by_cases same : key = name
      · subst same
        simp [alterEntry_here]
      · simp [alterEntry_later same, ih]

/-- Changes of what is there combine. -/
theorem alterEntry_map (f g : Node → Node) (entries : List (String × Node)) :
    alterEntry name (·.map f) (alterEntry name (·.map g) entries) =
      alterEntry name (·.map (f ∘ g)) entries := by
  induction entries with
  | nil => simp [alterEntry_nil]
  | cons entry rest ih =>
      obtain ⟨key, n⟩ := entry
      by_cases same : key = name
      · subst same
        simp [alterEntry_here]
      · simp [alterEntry_later same, ih]

theorem alterEntry_eq_self {entries : List (String × Node)}
    (kept : change (entries.lookup name) = entries.lookup name) :
    alterEntry name change entries = entries := by
  induction entries with
  | nil =>
      have nothing : change none = none := kept
      simp [alterEntry_nil, nothing]
  | cons entry rest ih =>
      obtain ⟨key, n⟩ := entry
      by_cases same : key = name
      · subst same
        have there : change (some n) = some n := by simpa using kept
        simp [alterEntry_here, there]
      · have different : (name == key) = false := by simpa using fun h => same h.symm
        have later := ih (by simpa [List.lookup_cons, different] using kept)
        simp [alterEntry_later same, later]

theorem filter_alterEntry (name : String) (change : Option Node → Option Node)
    (entries : List (String × Node)) :
    (alterEntry name change entries).filter (·.1 != name) = entries.filter (·.1 != name) := by
  induction entries with
  | nil => cases made : change none <;> simp [alterEntry_nil, made]
  | cons entry rest ih =>
      obtain ⟨key, n⟩ := entry
      by_cases same : key = name
      · subst same
        cases made : change (some n) <;> simp [alterEntry_here, made]
      · simp [alterEntry_later same, same, ih]

end Entries

/-! ## What stands at the end of names -/

section Alter

variable {n x : Node} {names : List String} {change : Option Node → Option Node}

theorem alter_last (change : Option Node → Option Node) (name : String)
    (entries : List (String × Node)) :
    alter change [name] (.directory entries) = .directory (alterEntry name change entries) :=
  rfl

theorem alter_below (change : Option Node → Option Node) (name next : String) (rest : List String)
    (entries : List (String × Node)) :
    alter change (name :: next :: rest) (.directory entries) =
      .directory (alterEntry name (·.map (alter change (next :: rest))) entries) :=
  rfl

/-- A change far below an entry is a change of that entry. -/
theorem alter_append (change : Option Node → Option Node) {front back : List String}
    (notEmpty : front ≠ []) (below : back ≠ []) (n : Node) :
    n.alter change (front ++ back) = n.alter (·.map (alter change back)) front := by
  obtain ⟨next, deeper, rfl⟩ := List.exists_cons_of_ne_nil below
  induction front generalizing n with
  | nil => exact absurd rfl notEmpty
  | cons name rest ih =>
      cases n with
      | file f => cases rest <;> rfl
      | link target => cases rest <;> rfl
      | directory entries =>
          cases rest with
          | nil => rfl
          | cons second rest =>
              simp only [List.cons_append, alter_below]
              congr 2
              funext there
              cases there with
              | none => rfl
              | some m => exact congrArg some (ih (List.cons_ne_nil _ _) m)

/-- A change after an entry was set sees only what was set. -/
theorem alter_set (change : Option Node → Option Node) (x : Node) (names : List String) (n : Node) :
    (n.alter (fun _ => some x) names).alter change names =
      n.alter (fun _ => change (some x)) names := by
  induction names generalizing n with
  | nil => cases n <;> rfl
  | cons name rest ih =>
      cases n with
      | file f => cases rest <;> rfl
      | link target => cases rest <;> rfl
      | directory entries =>
          cases rest with
          | nil => simp only [alter_last, alterEntry_set]
          | cons next rest =>
              simp only [alter_below, alterEntry_map]
              congr 2
              funext there
              cases there with
              | none => rfl
              | some m => exact congrArg some (ih m)

theorem alter_eq_self (kept : change (n.at? names) = n.at? names) : n.alter change names = n := by
  induction names generalizing n with
  | nil => cases n <;> rfl
  | cons name rest ih =>
      cases n with
      | file f => cases rest <;> rfl
      | link target => cases rest <;> rfl
      | directory entries =>
          cases rest with
          | nil =>
              have there : change (entries.lookup name) = entries.lookup name := by
                simpa [at?, child?] using kept
              simp only [alter_last, alterEntry_eq_self there]
          | cons next rest =>
              refine congrArg directory (alterEntry_eq_self ?_)
              cases found : entries.lookup name with
              | none => rfl
              | some m =>
                  refine congrArg some (ih ?_)
                  simpa [at?, child?, found] using kept

/-- A change below an entry that was set changes what was set. -/
theorem alter_set_below (change : Option Node → Option Node) (x : Node) {front back : List String}
    (notEmpty : front ≠ []) (below : back ≠ []) (n : Node) :
    (n.alter (fun _ => some x) front).alter change (front ++ back) =
      n.alter (fun _ => some (x.alter change back)) front := by
  rw [alter_append change notEmpty below, alter_set]
  rfl

/-- What stands at the end of the names of an entry that was changed. -/
theorem at?_alter {entries : List (String × Node)} {front : List String}
    (directory : n.at? front = some (.directory entries)) (name : String) :
    (n.alter change (front ++ [name])).at? (front ++ [name]) = change (entries.lookup name) := by
  induction front generalizing n with
  | nil =>
      cases directory
      simp [alter_last, at?, child?, lookup_alterEntry]
  | cons first rest ih =>
      obtain ⟨m, found, there⟩ := Option.bind_eq_some_iff.mp directory
      cases n with
      | file f => cases found
      | link target => cases found
      | directory outer =>
          obtain ⟨next, deeper, split⟩ : ∃ next deeper, rest ++ [name] = next :: deeper :=
            List.exists_cons_of_ne_nil (by simp)
          have inner := ih there
          rw [split] at inner
          have lookup : outer.lookup first = some m := found
          simp only [List.cons_append, split, alter_below, at?, child?, lookup_alterEntry, lookup]
          exact inner

/-- What a node looks like from outside. -/
def outline : Node → Node
  | .directory _ => .directory []
  | n => n

/-- A change leaves how everything looks that does not stand at or below the changed entry. -/
theorem outline_at?_alter {elsewhere : List String} (off : ¬ names <+: elsewhere)
    (change : Option Node → Option Node) (n : Node) :
    ((n.alter change names).at? elsewhere).map outline = (n.at? elsewhere).map outline := by
  induction names generalizing n elsewhere with
  | nil => exact absurd List.nil_prefix off
  | cons name rest ih =>
      cases n with
      | file f => cases rest <;> rfl
      | link target => cases rest <;> rfl
      | directory entries =>
          cases elsewhere with
          | nil => cases rest <;> rfl
          | cons other deeper =>
              by_cases same : other = name
              · subst same
                cases rest with
                | nil => exact absurd (by simp) off
                | cons next rest =>
                    simp only [alter_below, at?, child?, lookup_alterEntry]
                    cases found : entries.lookup other with
                    | none => rfl
                    | some m => exact ih (fun inside => off (by simpa using inside)) m
              · cases rest with
                | nil => simp only [alter_last, at?, child?, lookup_alterEntry_ne same]
                | cons next rest => simp only [alter_below, at?, child?, lookup_alterEntry_ne same]

/-- A tree in which everything of another tree is found, looking the same from outside. -/
def Extends (a b : Node) : Prop :=
  ∀ names n, a.at? names = some n → ∃ m, b.at? names = some m ∧ m.outline = n.outline

theorem Extends.refl (a : Node) : a.Extends a := fun _ n there => ⟨n, there, rfl⟩

theorem Extends.trans {a b c : Node} (first : a.Extends b) (second : b.Extends c) :
    a.Extends c := by
  intro names n there
  obtain ⟨m, there', same⟩ := first names n there
  obtain ⟨m', there'', same'⟩ := second names m there'
  exact ⟨m', there'', same'.trans same⟩

/-- Whatever becomes of an entry that is not there, everything else stays. -/
theorem extends_alter {n : Node} {names : List String} (absent : n.at? names = none)
    (change : Option Node → Option Node) : n.Extends (n.alter change names) := by
  intro elsewhere m there
  have off : ¬ names <+: elsewhere := by
    rintro ⟨deeper, rfl⟩
    simp [at?_append, absent] at there
  have looks := outline_at?_alter off change n
  rw [there] at looks
  obtain ⟨m', there', same⟩ := Option.map_eq_some_iff.mp looks
  exact ⟨m', there', same⟩

/-- Beside a changed entry nothing changes. -/
theorem at?_alter_ne {entries : List (String × Node)} {front : List String} {name other : String}
    (directory : n.at? front = some (.directory entries)) (different : other ≠ name) :
    (n.alter change (front ++ [name])).at? (front ++ [other]) = entries.lookup other := by
  induction front generalizing n with
  | nil =>
      cases directory
      simp [alter_last, at?, child?, lookup_alterEntry_ne different]
  | cons first rest ih =>
      obtain ⟨m, found, there⟩ := Option.bind_eq_some_iff.mp directory
      cases n with
      | file f => cases found
      | link target => cases found
      | directory outer =>
          obtain ⟨next, deeper, split⟩ : ∃ next deeper, rest ++ [name] = next :: deeper :=
            List.exists_cons_of_ne_nil (by simp)
          have inner := ih there
          rw [split] at inner
          have lookup : outer.lookup first = some m := found
          simp only [List.cons_append, split, alter_below, at?, child?, lookup_alterEntry, lookup]
          exact inner

/-- Nothing stands where an entry was taken away. -/
theorem at?_alter_none (notEmpty : names ≠ []) (n : Node) :
    (n.alter (fun _ => none) names).at? names = none := by
  induction names generalizing n with
  | nil => exact absurd rfl notEmpty
  | cons name rest ih =>
      cases n with
      | file f => cases rest <;> rfl
      | link target => cases rest <;> rfl
      | directory entries =>
          cases rest with
          | nil => simp [alter_last, at?, child?, lookup_alterEntry]
          | cons next rest =>
              simp only [alter_below, at?, child?, lookup_alterEntry]
              cases entries.lookup name with
              | none => rfl
              | some m => exact ih (List.cons_ne_nil _ _) m

/-- A tree has all that it has without one of its entries. -/
theorem extends_of_removed (notEmpty : names ≠ []) (n : Node) :
    (n.alter (fun _ => none) names).Extends n := by
  intro elsewhere m there
  have off : ¬ names <+: elsewhere := by
    rintro ⟨deeper, rfl⟩
    simp [at?_append, at?_alter_none notEmpty] at there
  have looks := outline_at?_alter off (fun _ => none) n
  rw [there] at looks
  obtain ⟨m', there', same⟩ := Option.map_eq_some_iff.mp looks.symm
  exact ⟨m', there', same⟩

/-- Changes of what is there combine. -/
theorem alter_map (f g : Node → Node) (n : Node) :
    (n.alter (·.map g) names).alter (·.map f) names = n.alter (·.map (f ∘ g)) names := by
  induction names generalizing n with
  | nil => cases n <;> rfl
  | cons name rest ih =>
      cases n with
      | file f => cases rest <;> rfl
      | link target => cases rest <;> rfl
      | directory entries =>
          cases rest with
          | nil => simp only [alter_last, alterEntry_map]
          | cons next rest =>
              simp only [alter_below, alterEntry_map]
              congr 2
              funext there
              cases there with
              | none => rfl
              | some m => exact congrArg some (ih m)

/-- It does not matter which of two entries of a directory is taken away first. -/
theorem alter_none_comm (front : List String) (name other : String) (n : Node) :
    (n.alter (fun _ => none) (front ++ [name])).alter (fun _ => none) (front ++ [other]) =
      (n.alter (fun _ => none) (front ++ [other])).alter (fun _ => none) (front ++ [name]) := by
  have inside : alter (fun _ => none) [other] ∘ alter (fun _ => none) [name] =
      alter (fun _ => none) [name] ∘ alter (fun _ => none) [other] := by
    funext m
    cases m with
    | file f => rfl
    | link target => rfl
    | directory entries =>
        simp only [Function.comp_apply, alter_last, alterEntry_none, List.filter_filter,
          Bool.and_comm]
  cases front with
  | nil => exact congrFun inside n
  | cons first rest =>
      simp only [alter_append _ (List.cons_ne_nil first rest) (List.cons_ne_nil _ []), alter_map,
        inside]

/-- Of an entry that is taken away it does not matter what was changed in it before. -/
theorem alter_none_of_alter (change : Option Node → Option Node) (names : List String) (n : Node) :
    (n.alter change names).alter (fun _ => none) names = n.alter (fun _ => none) names := by
  induction names generalizing n with
  | nil => cases n <;> rfl
  | cons name rest ih =>
      cases n with
      | file f => cases rest <;> rfl
      | link target => cases rest <;> rfl
      | directory entries =>
          cases rest with
          | nil => simp only [alter_last, alterEntry_none, filter_alterEntry]
          | cons next rest =>
              have forgotten : alter (fun _ => none) (next :: rest) ∘ alter change (next :: rest) =
                  alter (fun _ => none) (next :: rest) := funext ih
              simp only [alter_below, alterEntry_map, forgotten]

/-- Nor what was changed below it. -/
theorem alter_none_of_below (change : Option Node → Option Node) {back : List String}
    (notEmpty : names ≠ []) (n : Node) :
    (n.alter change (names ++ back)).alter (fun _ => none) names =
      n.alter (fun _ => none) names := by
  by_cases below : back = []
  · subst below
    rw [List.append_nil, alter_none_of_alter]
  · rw [alter_append change notEmpty below, alter_none_of_alter]

end Alter

end Node

end FunctionArchive.Disk
