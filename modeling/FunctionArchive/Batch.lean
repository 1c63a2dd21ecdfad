import FunctionArchive.Fault

/-!
# Batches

Work on many items of which only some may be in hand at the same time. Each item waits for a
permit, is worked on, and is done; its permit is then free again, however the work ended. A `Move`
takes one item one stage further, and any order of moves that the permits allow is a possible run.
`Batch.runEagerly` is one of them: it starts as much as it may before it ends anything.

What is found in the slot of an item depends on the work on this item alone. Where the work broke
off, the failure quotes the report of the runtime, which also names the task by its number.

The runtime keeps no more than `maxPermits` permits. A batch that is to have more of them breaks off
before it has begun anything.
-/

set_option autoImplicit false

namespace FunctionArchive

/-- How the work on an item ends. -/
inductive Ending (α : Type)
  | value (a : α)
  | fault (f : Fault)
  /-- The work broke off without a result. The report of the runtime names the task by its
  number. -/
  | crash (report : Nat → String)

/-- What an ending leaves in the slot of its item, if the work was the task of this number. -/
def Ending.outcome {α : Type} (task : Nat) : Ending α → Outcome α
  | .value a => .ok a
  | .fault f => .error f
  | .crash report => .error (.other s!"packaging task failed: {report task}")

/-- How far the work on an item has come. -/
inductive Stage (α : Type)
  | waiting
  | running
  | done (ending : Ending α)

namespace Stage

variable {α : Type}

/-- Whether the item is being worked on. -/
def isRunning : Stage α → Bool
  | .running => true
  | _ => false

/-- Whether the item waits for a permit. -/
def isWaiting : Stage α → Bool
  | .waiting => true
  | _ => false

/-- What the work gave, once it is done. -/
def outcome? (task : Nat) : Stage α → Option (Outcome α)
  | .done ending => some (ending.outcome task)
  | _ => none

end Stage

/-- Items in order, how far each has come, and how many permits are free, if they are limited. -/
structure Batch (ι α : Type) where
  slots : List (ι × Stage α)
  free : Option Nat

namespace Batch

variable {ι α : Type}

/-- The most permits that the runtime keeps: an eighth of the numbers that fit into 64 bits, less
one. -/
def maxPermits : Nat := 0x1FFFFFFFFFFFFFFF

/-- A batch in which nothing has begun. There is at least one permit. With a limit above
`maxPermits` there is no batch at all: the runtime refuses to make the permits, and whoever asked
for the batch breaks off, before any item has a slot. -/
def make? (items : List ι) (limit : Option Nat) : Option (Batch ι α) :=
  if limit.any (maxPermits < ·) then none
  else some ⟨items.map (·, .waiting), limit.map (max · 1)⟩

/-- One item goes one stage further. -/
inductive Move
  | start (index : Nat)
  | finish (index : Nat)
deriving DecidableEq, Repr

/-- Whether a permit can be had. -/
def hasPermit (b : Batch ι α) : Bool := b.free.all (0 < ·)

/-- The batch after a move, if the move is possible. -/
def move? (work : ι → Ending α) (b : Batch ι α) : Move → Option (Batch ι α)
  | .start index =>
    match b.slots[index]? with
    | some (item, .waiting) =>
      if b.hasPermit then some ⟨b.slots.set index (item, .running), b.free.map (· - 1)⟩ else none
    | _ => none
  | .finish index =>
    match b.slots[index]? with
    | some (item, .running) =>
      some ⟨b.slots.set index (item, .done (work item)), b.free.map (· + 1)⟩
    | _ => none

/-- How many items are being worked on. -/
def inFlight (b : Batch ι α) : Nat := b.slots.countP (·.2.isRunning)

/-- The items that are done, with what was found for them, if the runtime gave these numbers to the
tasks of the slots. -/
def results (number : Nat → Nat) (b : Batch ι α) : List (ι × Outcome α) :=
  b.slots.zipIdx.filterMap fun ((item, stage), index) =>
    (stage.outcome? (number index)).map (item, ·)

/-- The move of an eager run: to start the first item that waits, and to end the first one in hand
only when nothing can be started. -/
def eagerMove? (b : Batch ι α) : Option Move :=
  let ended := (b.slots.findIdx? (·.2.isRunning)).map Move.finish
  if b.hasPermit then (b.slots.findIdx? (·.2.isWaiting)).map Move.start <|> ended else ended

/-- Makes as many eager moves as the bound allows, and tells the most items that were in hand at
the same time. -/
def runFor (work : ι → Ending α) : Nat → Nat → Batch ι α → Nat × Batch ι α
  | 0, peak, b => (peak, b)
  | bound + 1, peak, b =>
    match b.eagerMove?.bind (b.move? work) with
    | none => (peak, b)
    | some next => runFor work bound (max peak next.inFlight) next

/-- Works on all items: the most that were in hand at the same time, and what was found for each.
Every item moves twice. There is nothing if the batch cannot be made. -/
def runEagerly? (work : ι → Ending α) (number : Nat → Nat) (items : List ι) (limit : Option Nat) :
    Option (Nat × List (ι × Outcome α)) :=
  (make? items limit).map fun start =>
    let (peak, b) := runFor work (2 * items.length) 0 start
    (peak, b.results number)

end Batch

end FunctionArchive
