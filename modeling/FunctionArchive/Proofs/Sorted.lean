import FunctionArchive.Sorted
import Mathlib.Tactic.Tauto

/-!
# Members of sorted lists

Sorting and leaving out repetitions does not change what a list holds (`mem_sortedMembers`), and
leaves each member there once, if the order tells the members apart (`nodup_sortedMembers`).
-/

set_option autoImplicit false

namespace FunctionArchive

variable {α : Type}

theorem mem_eraseRepsBy_loop [BEq α] [LawfulBEq α] {a x : α} {items collected : List α} :
    x ∈ List.eraseRepsBy.loop (· == ·) a items collected ↔
      x = a ∨ x ∈ items ∨ x ∈ collected := by
  induction items generalizing a collected with
  | nil => simp [List.eraseRepsBy.loop, or_comm]
  | cons item rest ih =>
      rw [List.eraseRepsBy.loop]
      cases repeated : a == item with
      | true =>
          cases eq_of_beq repeated
          simp only [ih, List.mem_cons]
          tauto
      | false =>
          simp only [ih, List.mem_cons]
          tauto

theorem mem_eraseReps [BEq α] [LawfulBEq α] {x : α} {items : List α} :
    x ∈ items.eraseReps ↔ x ∈ items := by
  cases items with
  | nil => rfl
  | cons item rest =>
      rw [List.eraseReps, List.eraseRepsBy, mem_eraseRepsBy_loop, List.mem_cons]
      simp

/-- A sorted list has the members of the list that it was made from. -/
@[simp] theorem mem_sortedMembers [BEq α] [LawfulBEq α] {before : α → α → Bool} {x : α}
    {items : List α} : x ∈ sortedMembers before items ↔ x ∈ items := by
  rw [sortedMembers, mem_eraseReps, List.mem_mergeSort]

@[simp] theorem mem_sortedTexts {text : String} {texts : List String} :
    text ∈ sortedTexts texts ↔ text ∈ texts :=
  mem_sortedMembers

@[simp] theorem mem_sortedPaths {path : Path} {paths : List Path} :
    path ∈ sortedPaths paths ↔ path ∈ paths :=
  mem_sortedMembers

/-! ## Each member once -/

/-- In an increasing list, repetitions stand next to each other. -/
theorem nodup_eraseRepsBy_loop [BEq α] [LawfulBEq α] {before : α → α → Prop} {a : α}
    {items collected : List α} (increasing : (a :: items).Pairwise before)
    (antisymm : ∀ b ∈ a :: items, ∀ c ∈ a :: items, before b c → before c b → b = c)
    (nodup : collected.Nodup) (fresh : ∀ b ∈ a :: items, b ∉ collected) :
    (List.eraseRepsBy.loop (· == ·) a items collected).Nodup := by
  induction items generalizing a collected with
  | nil =>
      rw [List.eraseRepsBy.loop, (List.reverse_perm _).nodup_iff, List.nodup_cons]
      exact ⟨fresh a List.mem_cons_self, nodup⟩
  | cons item rest ih =>
      obtain ⟨least, later⟩ := List.pairwise_cons.mp increasing
      rw [List.eraseRepsBy.loop]
      cases repeated : a == item with
      | true =>
          cases eq_of_beq repeated
          exact ih later (fun b inside c inside' => antisymm b (.tail _ inside) c (.tail _ inside'))
            nodup fun b inside => fresh b (.tail _ inside)
      | false =>
          refine ih later
            (fun b inside c inside' => antisymm b (.tail _ inside) c (.tail _ inside'))
            (List.nodup_cons.mpr ⟨fresh a List.mem_cons_self, nodup⟩) ?_
          intro b inside collected
          rcases List.mem_cons.mp collected with rfl | earlier
          · -- what comes again after `item` is before it and behind it
            rcases List.mem_cons.mp inside with rfl | behind
            · simp at repeated
            · have same := antisymm b (.head _) item (.tail _ (.head _))
                (least item (.head _)) ((List.pairwise_cons.mp later).1 b behind)
              simp [same] at repeated
          · exact fresh b (.tail _ inside) earlier

theorem nodup_sortedMembers [BEq α] [LawfulBEq α] (cmp : α → α → Ordering) [Std.TransCmp cmp]
    {items : List α} (distinct : ∀ a ∈ items, ∀ b ∈ items, cmp a b = .eq → a = b) :
    (sortedMembers (fun a b => (cmp a b).isLE) items).Nodup := by
  have total (a b : α) : ((cmp a b).isLE || (cmp b a).isLE) = true := by
    have swapped : cmp b a = (cmp a b).swap := Std.OrientedCmp.eq_swap
    rw [swapped]
    cases cmp a b <;> rfl
  have increasing : (items.mergeSort fun a b => (cmp a b).isLE).Pairwise
      fun a b => (cmp a b).isLE = true :=
    List.pairwise_mergeSort (fun _ _ _ => Std.TransCmp.isLE_trans) total items
  unfold sortedMembers
  cases sorted : items.mergeSort fun a b => (cmp a b).isLE with
  | nil => exact List.nodup_nil
  | cons a rest =>
      rw [sorted] at increasing
      have inside {b : α} (member : b ∈ a :: rest) : b ∈ items :=
        List.mem_mergeSort.mp (sorted ▸ member)
      refine nodup_eraseRepsBy_loop increasing (fun b member c member' first second => ?_)
        List.nodup_nil fun _ _ => List.not_mem_nil
      exact distinct b (inside member) c (inside member')
        (Std.OrientedCmp.isLE_antisymm first second)

/-! ## Members under other names -/

section Renaming

variable {β : Type} [BEq α] [BEq β] {f : α → β}

theorem eraseRepsBy_loop_map (collected : List α) {a : α} {items : List α}
    (apart : ∀ b ∈ a :: items, ∀ c ∈ a :: items, (f b == f c) = (b == c)) :
    List.eraseRepsBy.loop (· == ·) (f a) (items.map f) (collected.map f) =
      (List.eraseRepsBy.loop (· == ·) a items collected).map f := by
  induction items generalizing a collected with
  | nil => simp [List.eraseRepsBy.loop]
  | cons item rest ih =>
      rw [List.map_cons, List.eraseRepsBy.loop, List.eraseRepsBy.loop,
        apart a (.head _) item (.tail _ (.head _))]
      cases a == item with
      | true =>
          refine ih collected fun b inside c inside' => ?_
          have among {x : α} (member : x ∈ a :: rest) : x ∈ a :: item :: rest :=
            (List.mem_cons.mp member).elim (· ▸ .head _) fun later => .tail _ (.tail _ later)
          exact apart b (among inside) c (among inside')
      | false =>
          rw [← List.map_cons]
          exact ih _ fun b inside c inside' => apart b (.tail _ inside) c (.tail _ inside')

/-- Members that are renamed without a change of their order stand in the same order. -/
theorem sortedMembers_map {before : α → α → Bool} {before' : β → β → Bool} {items : List α}
    (order : ∀ a ∈ items, ∀ b ∈ items, before' (f a) (f b) = before a b)
    (apart : ∀ a ∈ items, ∀ b ∈ items, (f a == f b) = (a == b)) :
    sortedMembers before' (items.map f) = (sortedMembers before items).map f := by
  have sorted : (items.map f).mergeSort before' = (items.mergeSort before).map f :=
    (List.map_mergeSort fun a inside b inside' => (order a inside b inside').symm).symm
  unfold sortedMembers
  rw [sorted]
  cases members : items.mergeSort before with
  | nil => rfl
  | cons a rest =>
      have inside {b : α} (member : b ∈ a :: rest) : b ∈ items :=
        List.mem_mergeSort.mp (members ▸ member)
      have distinct : ∀ b ∈ a :: rest, ∀ c ∈ a :: rest, (f b == f c) = (b == c) :=
        fun b member c member' => apart b (inside member) c (inside member')
      exact eraseRepsBy_loop_map [] distinct

end Renaming

/-! ## The order of paths -/

instance : Std.TransOrd Path := by
  have root : Std.TransCmp fun p q : Path => compare q.absolute p.absolute :=
    inferInstanceAs (Std.TransCmp fun p q => compareOn Path.absolute q p)
  exact inferInstanceAs (Std.TransCmp
    (compareLex (fun p q : Path => compare q.absolute p.absolute) (compareOn Path.components)))

/-- Paths that are equal in the order denote the same. -/
theorem Path.same_of_compare {p q : Path} (equal : compare p q = .eq) : p.same q = true := by
  obtain ⟨absolute, components⟩ := Ordering.then_eq_eq.mp equal
  simp [Path.same, Std.LawfulEqOrd.eq_of_compare absolute, Std.LawfulEqOrd.eq_of_compare components]

end FunctionArchive
