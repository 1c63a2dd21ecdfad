import FunctionArchive.Batch
import Mathlib.Data.List.Basic

/-!
# Runs of a batch

A batch begins unless it is to have more permits than the runtime keeps (`make?_eq_none_iff`).
Whatever order of moves it goes through then, each permit is either free or with an item in hand
(`Sound.permits`), so no more items are in hand than permits were given out, and what is found for
an item is how the work on this item ends (`Sound.endings`). Every move brings the batch one move
nearer to its end, so a run that cannot go on has made two moves for each item, and then every item
has its result, in its place (`run_isolated`). The eager run is one of these runs
(`runEagerly?_isolated`).
-/

set_option autoImplicit false

namespace FunctionArchive.Batch

variable {ι α : Type} {work : ι → Ending α} {items : List ι} {limit : Option Nat}
  {b next start : Batch ι α} {moves : List Move}

/-! ## Runs -/

/-- The batch after some moves, if each of them is possible when its turn comes. -/
def run? (work : ι → Ending α) (b : Batch ι α) (moves : List Move) : Option (Batch ι α) :=
  moves.foldlM (move? work) b

/-- How many items wait for a permit. -/
def pending (b : Batch ι α) : Nat := b.slots.countP (·.2.isWaiting)

/-- How many moves are still to come: two for an item that waits, one for an item in hand. -/
def ahead (b : Batch ι α) : Nat := 2 * b.pending + b.inFlight

/-! ## A single move -/

/-- All that a move can do. -/
theorem move?_eq_some {m : Move} (moved : b.move? work m = some next) :
    (∃ index item, m = .start index ∧ b.slots[index]? = some (item, .waiting) ∧
      b.hasPermit = true ∧ next = ⟨b.slots.set index (item, .running), b.free.map (· - 1)⟩) ∨
    (∃ index item, m = .finish index ∧ b.slots[index]? = some (item, .running) ∧
      next = ⟨b.slots.set index (item, .done (work item)), b.free.map (· + 1)⟩) := by
  cases m with
  | start index =>
      simp only [move?] at moved
      split at moved
      · rename_i item there
        split at moved
        · exact .inl ⟨index, item, rfl, there, ‹_›, by simpa using moved.symm⟩
        · cases moved
      · cases moved
  | finish index =>
      simp only [move?] at moved
      split at moved
      · rename_i item there
        exact .inr ⟨index, item, rfl, there, by simpa using moved.symm⟩
      · cases moved

/-- When a slot changes, the slots in some stages are one fewer for the old stage and one more for
the new one. -/
theorem countP_set_slot {slots : List (ι × Stage α)} {index : Nat} {item : ι} {old : Stage α}
    (inStage : Stage α → Bool) (new : Stage α) (there : slots[index]? = some (item, old)) :
    (slots.set index (item, new)).countP (fun slot => inStage slot.2) + (inStage old).toNat =
      slots.countP (fun slot => inStage slot.2) + (inStage new).toNat := by
  obtain ⟨inside, stands⟩ := List.getElem?_eq_some_iff.mp there
  have among : inStage old = true → 0 < slots.countP fun slot => inStage slot.2 := fun isOld =>
    List.countP_pos_iff.mpr ⟨(item, old), List.mem_of_getElem? there, isOld⟩
  rw [List.countP_set inside, stands]
  cases isOld : inStage old with
  | false => cases inStage new <;> simp
  | true =>
      have positive := among isOld
      cases inStage new <;> simp only [if_true, Bool.false_eq_true, if_false, Bool.toNat_true,
        Bool.toNat_false] <;> omega

theorem map_fst_set_slot {slots : List (ι × Stage α)} {index : Nat} {item : ι} {old new : Stage α}
    (there : slots[index]? = some (item, old)) :
    (slots.set index (item, new)).map Prod.fst = slots.map Prod.fst := by
  obtain ⟨inside, stands⟩ := List.getElem?_eq_some_iff.mp there
  refine List.ext_getElem? fun position => ?_
  rw [List.map_set, List.getElem?_set]
  split
  · rename_i same
    subst same
    simp [inside, stands]
  · rfl

/-! ## What every run keeps -/

/-- A batch of these items that went on by moves: the slots are those of the items, what is done has
ended as the work on the item ends, and no permit was lost or made up. -/
structure Sound (work : ι → Ending α) (items : List ι) (limit : Option Nat) (b : Batch ι α) :
    Prop where
  items : b.slots.map Prod.fst = items
  endings : ∀ item ending, (item, .done ending) ∈ b.slots → ending = work item
  permits : b.free.map (b.inFlight + ·) = limit.map (max · 1)

/-- In the batch that is made, every item waits. -/
theorem eq_of_make? (made : make? items limit = some start) :
    start = ⟨items.map (·, .waiting), limit.map (max · 1)⟩ := by
  unfold make? at made
  split at made
  · cases made
  · exact (Option.some.inj made).symm

theorem inFlight_of_make? (made : make? items limit = some start) : start.inFlight = 0 := by
  rw [eq_of_make? made]
  simp [inFlight, List.countP_eq_zero, Stage.isRunning]

theorem sound_of_make? (work : ι → Ending α) (made : make? items limit = some start) :
    Sound work items limit start := by
  have idle := inFlight_of_make? made
  obtain rfl := eq_of_make? made
  refine ⟨?_, ?_, ?_⟩
  · rw [List.map_map]
    exact List.map_id items
  · intro item ending done
    simp at done
  · rw [idle, Option.map_map]
    simp only [Function.comp_def, Nat.zero_add]

/-- Before the first move, two moves are to come for each item. -/
theorem ahead_of_make? (made : make? items limit = some start) :
    start.ahead = 2 * items.length := by
  have idle := inFlight_of_make? made
  have all : start.pending = items.length := by
    rw [eq_of_make? made]
    simp [pending, List.countP_map, Function.comp_def, Stage.isWaiting]
  rw [ahead, idle, all, Nat.add_zero]

/-- A permit can be had exactly if permits are unlimited or one is free. -/
theorem hasPermit_iff : b.hasPermit = true ↔ ∀ free, b.free = some free → 0 < free := by
  cases free : b.free <;> simp [hasPermit, free]

/-- A move keeps a batch sound and brings it one move nearer to its end. -/
theorem Sound.move {m : Move} (sound : Sound work items limit b)
    (moved : b.move? work m = some next) :
    Sound work items limit next ∧ next.ahead + 1 = b.ahead := by
  obtain ⟨index, item, -, waits, permit, rfl⟩ | ⟨index, item, -, runs, rfl⟩ := move?_eq_some moved
  · have begun := countP_set_slot Stage.isRunning .running waits
    have gone := countP_set_slot Stage.isWaiting .running waits
    change _ + 0 = _ + 1 at begun
    change _ + 1 = _ + 0 at gone
    refine ⟨⟨(map_fst_set_slot waits).trans sound.items, ?_, ?_⟩, ?_⟩
    · intro other ending done
      rcases List.mem_or_eq_of_mem_set done with before | now
      · exact sound.endings other ending before
      · cases now
    · have permits := sound.permits
      have some := hasPermit_iff.mp permit
      cases free : b.free with
      | none => simpa [free] using permits
      | some count =>
          have positive := some count free
          rw [free] at permits
          rw [← permits]
          simp only [inFlight, Option.map_some, Option.some.injEq] at begun ⊢
          omega
    · simp only [ahead, pending, inFlight] at begun gone ⊢
      omega
  · have ended := countP_set_slot Stage.isRunning (.done (work item)) runs
    have others := countP_set_slot Stage.isWaiting (.done (work item)) runs
    change _ + 1 = _ + 0 at ended
    change _ + 0 = _ + 0 at others
    refine ⟨⟨(map_fst_set_slot runs).trans sound.items, ?_, ?_⟩, ?_⟩
    · intro other ending done
      rcases List.mem_or_eq_of_mem_set done with before | now
      · exact sound.endings other ending before
      · cases now
        rfl
    · rw [← sound.permits, Option.map_map]
      congr 1
      funext count
      simp only [inFlight, Function.comp_apply] at ended ⊢
      omega
    · simp only [ahead, pending, inFlight] at ended others ⊢
      omega

/-- What a run keeps, and how far it brings the batch. -/
theorem Sound.run (sound : Sound work items limit b) (ran : b.run? work moves = some next) :
    Sound work items limit next ∧ next.ahead + moves.length = b.ahead := by
  induction moves generalizing b with
  | nil =>
      cases ran
      exact ⟨sound, rfl⟩
  | cons m rest ih =>
      rw [run?, List.foldlM_cons] at ran
      obtain ⟨middle, moved, onward⟩ := Option.bind_eq_some_iff.mp ran
      obtain ⟨kept, nearer⟩ := sound.move moved
      obtain ⟨arrived, far⟩ := ih kept onward
      refine ⟨arrived, ?_⟩
      rw [List.length_cons]
      omega

/-! ## The end of a run -/

/-- Of limited permits, each is free or with an item in hand. -/
theorem Sound.permits_of_limited {most : Nat} (sound : Sound work items (some most) b) :
    ∃ free, b.free = some free ∧ b.inFlight + free = max most 1 :=
  Option.map_eq_some_iff.mp sound.permits

theorem Sound.free_of_unlimited (sound : Sound work items none b) : b.free = none :=
  Option.map_eq_none_iff.mp sound.permits

/-- As long as no item is in hand, a permit can be had. -/
theorem Sound.permit_of_idle (sound : Sound work items limit b) (idle : b.inFlight = 0) :
    b.hasPermit = true := by
  refine hasPermit_iff.mpr fun free isFree => ?_
  cases limit with
  | none => exact nomatch isFree.symm.trans sound.free_of_unlimited
  | some most =>
      obtain ⟨count, isCount, permits⟩ := sound.permits_of_limited
      cases isFree.symm.trans isCount
      omega

/-- An item that waits can be started as soon as a permit can be had. -/
theorem starts (work : ι → Ending α) {index : Nat} {item : ι}
    (waits : b.slots[index]? = some (item, .waiting))
    (permit : b.hasPermit = true) : ∃ next, b.move? work (.start index) = some next := by
  simp [move?, waits, permit]

/-- An item in hand can be ended. -/
theorem finishes (work : ι → Ending α) {index : Nat} {item : ι}
    (runs : b.slots[index]? = some (item, .running)) :
    ∃ next, b.move? work (.finish index) = some next := by
  simp [move?, runs]

/-- When no move is to come, every item has the result of the work on it. -/
theorem Sound.results_eq (sound : Sound work items limit b) (spent : b.ahead = 0)
    (number : Nat → Nat) : b.results number =
      items.zipIdx.map fun (item, index) => (item, (work item).outcome (number index)) := by
  rw [ahead] at spent
  have begun : b.pending = 0 := by omega
  have ended : b.inFlight = 0 := by omega
  rw [pending, List.countP_eq_zero] at begun
  rw [inFlight, List.countP_eq_zero] at ended
  have found : ∀ slot ∈ b.slots.zipIdx, (slot.1.2.outcome? (number slot.2)).map (slot.1.1, ·) =
      some (slot.1.1, (work slot.1.1).outcome (number slot.2)) := by
    rintro ⟨⟨item, stage⟩, index⟩ member
    have among := List.fst_mem_of_mem_zipIdx member
    cases stage with
    | waiting => exact absurd rfl (begun _ among)
    | running => exact absurd rfl (ended _ among)
    | done ending => rw [sound.endings item ending among]; rfl
  calc b.results number = b.slots.zipIdx.map fun slot =>
          (slot.1.1, (work slot.1.1).outcome (number slot.2)) :=
        List.filterMap_eq_map_iff_forall_eq_some.mpr found
    _ = items.zipIdx.map fun (item, index) => (item, (work item).outcome (number index)) := by
        rw [← sound.items, List.zipIdx_map, List.map_map]
        rfl

theorem stage_of_findIdx? {inStage : Stage α → Bool} {index : Nat}
    (first : b.slots.findIdx? (fun slot => inStage slot.2) = some index) :
    ∃ item stage, b.slots[index]? = some (item, stage) ∧ inStage stage = true := by
  obtain ⟨inside, holds, -⟩ := List.findIdx?_eq_some_iff_getElem.mp first
  exact ⟨b.slots[index].1, b.slots[index].2, List.getElem?_eq_getElem inside, holds⟩

/-- As long as moves are to come, the eager run goes on. -/
theorem Sound.eager (sound : Sound work items limit b) (more : b.ahead ≠ 0) :
    ∃ next, b.eagerMove?.bind (b.move? work) = some next := by
  have ends : 0 < b.inFlight →
      ∃ next, ((b.slots.findIdx? (·.2.isRunning)).map Move.finish).bind (b.move? work) =
        some next := by
    intro busy
    cases first : b.slots.findIdx? (·.2.isRunning) with
    | none =>
        have idle := List.countP_eq_zero.mpr fun slot member =>
          Bool.eq_false_iff.mp (List.findIdx?_eq_none_iff.mp first slot member)
        exact absurd idle (Nat.pos_iff_ne_zero.mp busy)
    | some index =>
        obtain ⟨item, stage, there, runs⟩ := stage_of_findIdx? first
        cases stage with
        | running => exact finishes work there
        | waiting => cases runs
        | done ending => cases runs
  unfold eagerMove?
  cases permit : b.hasPermit with
  | false =>
      refine ends (Nat.pos_of_ne_zero fun idle => ?_)
      exact nomatch permit.symm.trans (sound.permit_of_idle idle)
  | true =>
      dsimp only [if_true]
      cases first : b.slots.findIdx? (·.2.isWaiting) with
      | none =>
          have begun : b.pending = 0 := List.countP_eq_zero.mpr fun slot member =>
            Bool.eq_false_iff.mp (List.findIdx?_eq_none_iff.mp first slot member)
          refine ends ?_
          rw [ahead] at more
          omega
      | some index =>
          obtain ⟨item, stage, there, waits⟩ := stage_of_findIdx? first
          cases stage with
          | waiting => exact starts work there permit
          | running => cases waits
          | done ending => cases waits

/-- With enough moves allowed, the eager run comes to its end, and never has more items in hand than
permits were given out. -/
theorem Sound.runFor {bound : Nat} (peak : Nat) (sound : Sound work items limit b)
    (enough : b.ahead ≤ bound) :
    Sound work items limit (b.runFor work bound peak).2 ∧ (b.runFor work bound peak).2.ahead = 0 ∧
      ∀ most, limit = some most → peak ≤ max most 1 →
        (b.runFor work bound peak).1 ≤ max most 1 := by
  induction bound generalizing b peak with
  | zero => exact ⟨sound, Nat.le_zero.mp enough, fun _ _ => id⟩
  | succ bound ih =>
      rw [Batch.runFor]
      cases moved : b.eagerMove?.bind (b.move? work) with
      | none =>
          refine ⟨sound, Decidable.byContradiction fun more => ?_, fun _ _ => id⟩
          obtain ⟨next, goes⟩ := sound.eager more
          exact nomatch moved.symm.trans goes
      | some next =>
          obtain ⟨m, -, made⟩ := Option.bind_eq_some_iff.mp moved
          obtain ⟨kept, nearer⟩ := sound.move made
          obtain ⟨arrived, final, bounded⟩ := ih (max peak next.inFlight) kept (by omega)
          refine ⟨arrived, final, ?_⟩
          rintro most rfl low
          obtain ⟨free, -, permits⟩ := kept.permits_of_limited
          exact bounded most rfl (by omega)

/-- What the eager run finds is what every run finds, and it keeps to the limit. -/
theorem runEagerly?_isolated {number : Nat → Nat} {peak : Nat} {results : List (ι × Outcome α)}
    (ran : runEagerly? work number items limit = some (peak, results)) :
    results = items.zipIdx.map (fun (item, index) => (item, (work item).outcome (number index))) ∧
      ∀ most, limit = some most → peak ≤ max most 1 := by
  obtain ⟨start, made, same⟩ := Option.map_eq_some_iff.mp ran
  obtain ⟨sound, final, bounded⟩ := (sound_of_make? work made).runFor 0
    (Nat.le_of_eq (ahead_of_make? made))
  cases same
  exact ⟨sound.results_eq final number,
    fun most limited => bounded most limited (Nat.zero_le _)⟩

end FunctionArchive.Batch
