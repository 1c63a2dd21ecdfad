/-!
# Codes of varying length

A code gives each symbol of an alphabet a series of bits, shorter ones to those that occur more
often. The lengths alone determine the code: among codes of one length those of smaller symbols
come first, and shorter codes come before longer ones.

Lengths are found by joining the two rarest trees until one is left. Of equally frequent trees the
flatter one is rarer; which of two equal ones is meant depends on how they lie in the heap in which
the trees are kept. Codes that come out too long are made shorter at the cost of others.
-/

set_option autoImplicit false

namespace FunctionArchive.Deflate

/-! ## Trees -/

/-- The trees that are still to be joined: a heap of nodes with the weight and the depth of each.
Nodes below the number of symbols are symbols. -/
structure Forest where
  heap : Array Nat
  weights : Array Nat
  depths : Array Nat

namespace Forest

/-- Whether a node is rarer than another or stands for it. -/
def before (f : Forest) (a b : Nat) : Bool :=
  let wa := f.weights.getD a 0
  let wb := f.weights.getD b 0
  wa < wb || (wa == wb && f.depths.getD a 0 ≤ f.depths.getD b 0)

/-- Lets a node sink from a place of the heap to where it belongs. -/
def sink (f : Forest) (node : Nat) : Nat → Nat → Forest
  | 0, place => { f with heap := f.heap.setIfInBounds place node }
  | bound + 1, place =>
    let left := 2 * place + 1
    let size := f.heap.size
    if size ≤ left then { f with heap := f.heap.setIfInBounds place node }
    else
      let child :=
        if left + 1 < size && f.before (f.heap.getD (left + 1) 0) (f.heap.getD left 0) then
          left + 1
        else left
      let other := f.heap.getD child 0
      if f.before node other then { f with heap := f.heap.setIfInBounds place node }
      else sink { f with heap := f.heap.setIfInBounds place other } node bound child

/-- Puts the node at a place of the heap where it belongs. -/
def settle (f : Forest) (place : Nat) : Forest :=
  f.sink (f.heap.getD place 0) f.heap.size place

/-- Takes the rarest node out of the heap. -/
def removeFirst (f : Forest) : Nat × Forest :=
  let first := f.heap.getD 0 0
  let last := f.heap.getD (f.heap.size - 1) 0
  let f := { f with heap := f.heap.pop }
  (first, if f.heap.isEmpty then f else { f with heap := f.heap.setIfInBounds 0 last }.settle 0)

/-- The forest of single symbols with these weights. -/
def ofWeights (weights : Array Nat) (symbols : List Nat) : Forest :=
  let f : Forest := ⟨symbols.toArray, weights, Array.replicate weights.size 0⟩
  ((List.range (symbols.length / 2)).reverse).foldl settle f

end Forest

/-- Joins trees until one is left. Gives the nodes that were taken out of the heap, the last one
first, and the parent of each node. -/
def join : Nat → Forest → List Nat → Array Nat → List Nat × Array Nat
  | 0, f, taken, parents => (f.heap.toList ++ taken, parents)
  | bound + 1, f, taken, parents =>
    if f.heap.size < 2 then (f.heap.toList ++ taken, parents)
    else
      let (first, f) := f.removeFirst
      let second := f.heap.getD 0 0
      let node := f.weights.size
      let f : Forest :=
        { heap := f.heap.setIfInBounds 0 node
          weights := f.weights.push (f.weights.getD first 0 + f.weights.getD second 0)
          depths := f.depths.push (max (f.depths.getD first 0) (f.depths.getD second 0) + 1) }
      join bound (f.settle 0) (second :: first :: taken)
        (((parents.push 0).setIfInBounds first node).setIfInBounds second node)

/-! ## Lengths -/

/-- How many codes of each length there are. -/
def countLengths (lengths : List Nat) (longest : Nat) : Array Nat :=
  lengths.foldl (fun counts n => counts.modify n (· + 1)) (Array.replicate (longest + 2) 0)

/-- The longest length below a bound that some code has. -/
def longestBelow (counts : Array Nat) : Nat → Nat
  | 0 => 0
  | length + 1 => if counts.getD length 0 == 0 then longestBelow counts length else length

/-- Makes room for codes that are too long: one shorter code moves down and takes one of them as
its brother. -/
def balance (longest : Nat) : Nat → Array Nat → Array Nat
  | 0, counts => counts
  | 1, counts => balance longest 0 (moved counts)
  | excess + 2, counts => balance longest excess (moved counts)
where
  /-- The counts after one move. -/
  moved (counts : Array Nat) : Array Nat :=
    let length := longestBelow counts longest
    ((counts.modify length (· - 1)).modify (length + 1) (· + 2)).modify longest (· - 1)

/-- Hands lengths out to symbols, the longest first. -/
def handOut (counts : Array Nat) : Nat → List Nat → List (Nat × Nat)
  | 0, _ => []
  | length + 1, symbols =>
    let count := counts.getD (length + 1) 0
    (symbols.take count).map (·, length + 1) ++ handOut counts length (symbols.drop count)

/-- The depths of nodes that come after their parents, each at most one too many below the bound. -/
def depthsFrom (longest : Nat) (parents : Array Nat) :
    List Nat → Array Nat → Nat → Array Nat × Nat
  | [], depths, excess => (depths, excess)
  | node :: rest, depths, excess =>
    let depth := depths.getD (parents.getD node 0) 0 + 1
    if longest < depth then
      depthsFrom longest parents rest (depths.setIfInBounds node longest) (excess + 1)
    else depthsFrom longest parents rest (depths.setIfInBounds node depth) excess

/-- The symbols that get a code: those that occur, and one of the first if fewer than two do. -/
def codedSymbols (weights : Array Nat) : Array Nat × List Nat :=
  let present := (List.range weights.size).filter (weights.getD · 0 != 0)
  match present with
  | [] => (weights.setIfInBounds 0 1 |>.setIfInBounds 1 1, [0, 1])
  | [symbol] =>
    let other := if symbol < 2 then symbol + 1 else 0
    (weights.setIfInBounds other 1, [symbol, other])
  | symbols => (weights, symbols)

/-- The lengths of the codes of all symbols, zero for symbols without a code. -/
def lengthsOf (weights : Array Nat) (longest : Nat) : Array Nat :=
  let (weights, symbols) := codedSymbols weights
  let (nodes, parents) :=
    join symbols.length (.ofWeights weights symbols) [] (Array.replicate weights.size 0)
  let (depths, excess) :=
    depthsFrom longest parents (nodes.drop 1) (Array.replicate parents.size 0) 0
  let leaves := nodes.filter (· < weights.size)
  if excess == 0 then
    leaves.foldl (fun out s => out.setIfInBounds s (depths.getD s 0))
      (Array.replicate weights.size 0)
  else
    let counts := countLengths (leaves.map fun s => depths.getD s 0) longest
    (handOut (balance longest excess counts) longest leaves.reverse).foldl
      (fun out (s, length) => out.setIfInBounds s length) (Array.replicate weights.size 0)

/-! ## Codes -/

/-- The bits of a code, the first one first. -/
def bitsOf (value : Nat) : Nat → List Bool
  | 0 => []
  | length + 1 => value.testBit length :: bitsOf value length

/-- The number that the first code of each length is. -/
def firstCodes (counts : Array Nat) (longest : Nat) : Array Nat :=
  ((List.range longest).foldl (fun (codes, code) length =>
    let code := (code + if length == 0 then 0 else counts.getD length 0) * 2
    (codes.push code, code)) (#[0], 0)).1

/-- The codes that lengths determine, empty for symbols without a code. -/
def codesOf (lengths : Array Nat) : Array (List Bool) :=
  let longest := lengths.foldl max 0
  let first := firstCodes (countLengths lengths.toList longest) longest
  (lengths.foldl (fun (codes, next) length =>
    (codes.push (bitsOf (next.getD length 0) length), next.modify length (· + 1)))
      ((#[] : Array (List Bool)), first)).1

end FunctionArchive.Deflate
