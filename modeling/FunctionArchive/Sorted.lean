import FunctionArchive.Path

/-!
# Members in order

Sets whose order can be seen are given as lists in increasing order in which no member is repeated.
-/

set_option autoImplicit false

namespace FunctionArchive

/-- The members of a list in increasing order, each of them once. -/
def sortedMembers {α : Type} [BEq α] (before : α → α → Bool) (items : List α) : List α :=
  (items.mergeSort before).eraseReps

/-- The members of a list of texts, in the order of their characters. -/
def sortedTexts (texts : List String) : List String :=
  sortedMembers (fun a b => a ≤ b) texts

/-- Whether a path comes before another or is the same. -/
def Path.precedes (p q : Path) : Bool := (compare p q).isLE

/-- The members of a list of paths, an ancestor before what is below it. -/
def sortedPaths (paths : List Path) : List Path :=
  sortedMembers Path.precedes paths

end FunctionArchive
