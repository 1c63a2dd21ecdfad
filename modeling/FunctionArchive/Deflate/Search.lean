import FunctionArchive.Deflate.Token
import Std.Data.HashMap

/-!
# Searching for repetitions

Data is cut into tokens from front to back. At each position earlier positions that start with the
same four bytes are tried, the latest first, and the longest repetition is taken. Before a
repetition is used, the one that could follow it is looked at too: if that one can be moved to the
front so far that nothing worth a copy is left of the first, the first is given up.

The position at the very start of the data is never found.
-/

set_option autoImplicit false

namespace FunctionArchive.Deflate

/-- How hard the search tries. -/
structure Effort where
  /-- How many earlier positions are tried. -/
  tries : Nat
  /-- A repetition of this length is good enough. -/
  niceLength : Nat
  /-- All positions inside a repetition up to this length can be found later. -/
  insertLength : Nat

/-- The usual effort. -/
def Effort.usual : Effort := ⟨128, 128, 256⟩

/-- The shortest repetition that is used. -/
def minRepeat : Nat := 4

/-- As long as there are more bytes to come than this, the following repetition is looked at. -/
def lookAhead : Nat := 262

/-- The farthest repetition that is used. -/
def reach : Nat := maxDistance - lookAhead

/-- The positions that can be found. -/
structure Index where
  data : Array UInt8
  /-- The latest position that starts with some four bytes. -/
  latest : Std.HashMap UInt32 Nat
  /-- For each position the one before it that starts with the same bytes, zero for none. -/
  earlier : Array Nat

namespace Index

/-- No position can be found yet. -/
def empty (data : Array UInt8) : Index := ⟨data, {}, Array.replicate data.size 0⟩

/-- The byte at a position. -/
def byte (i : Index) (position : Nat) : UInt8 := i.data.getD position 0

/-- The four bytes at a position. -/
def key (i : Index) (position : Nat) : UInt32 :=
  (i.byte position).toUInt32 ||| ((i.byte (position + 1)).toUInt32 <<< 8) |||
    ((i.byte (position + 2)).toUInt32 <<< 16) ||| ((i.byte (position + 3)).toUInt32 <<< 24)

/-- Makes a position known, and gives the latest one before it that starts with the same bytes,
zero for none. -/
def insert (i : Index) (position : Nat) : Nat × Index :=
  let key := i.key position
  let before := i.latest.getD key 0
  if before == position then (before, i)
  else
    (before, { i with
      latest := i.latest.insert key position
      earlier := i.earlier.setIfInBounds position before })

/-- Makes some positions in a row known. -/
def insertAll (i : Index) (position : Nat) : Nat → Index
  | 0 => i
  | count + 1 => insertAll (i.insert position).2 (position + 1) count

/-- How many bytes at two positions agree, up to a bound. -/
def agreement (i : Index) (a b : Nat) : Nat → Nat
  | 0 => 0
  | bound + 1 => if i.byte a == i.byte b then agreement i (a + 1) (b + 1) bound + 1 else 0

end Index

/-- A repetition: at `start`, `length` bytes are the same as at `source`. Positions before `origin`
are known already. A single byte that repeats nothing has length one. -/
structure Repetition where
  start : Nat
  length : Nat
  source : Nat
  origin : Nat

/-- A byte that repeats nothing. -/
def Repetition.single (start : Nat) : Repetition := ⟨start, 1, 0, start⟩

/-- Tries a position and those before it. `left` bytes are left to be repeated, and `best` is the
length reached so far and its source. -/
def tryFrom (i : Index) (effort : Effort) (start left : Nat) :
    Nat → Nat → Nat × Nat → Nat × Nat
  | 0, _, best => best
  | tries + 1, candidate, best =>
    if start ≤ candidate then best
    else
      let length := i.agreement candidate start (min maxLength left)
      let best := if best.1 < length then (length, candidate) else best
      let next := i.earlier.getD candidate 0
      if effort.niceLength ≤ best.1 || next ≤ start - reach then best
      else tryFrom i effort start left tries next best

/-- The longest repetition at a position, given the latest position with the same bytes. -/
def findAt (i : Index) (effort : Effort) (start candidate : Nat) : Repetition :=
  if candidate == 0 || start ≤ candidate || reach < start - candidate then .single start
  else
    let (length, source) :=
      tryFrom i effort start (i.data.size - start) effort.tries candidate (2, 0)
    if length < minRepeat || start ≤ source then .single start
    else ⟨start, length, source, start⟩

/-- Makes the positions of a repetition known. -/
def learn (i : Index) (effort : Effort) (left : Nat) (r : Repetition) : Index :=
  let stop := r.start + r.length
  if left ≤ r.length + minRepeat || r.length < minRepeat then i
  else if r.length ≤ effort.insertLength then
    let first := max (r.start + 1) r.origin
    i.insertAll first (stop - first)
  else (i.insert (stop - 1)).2

/-- Moves a repetition to the front, byte by byte, at the cost of the one before it. -/
def moveBack (i : Index) (limit : Nat) : Nat → Repetition → Repetition → Repetition × Repetition
  | 0, current, next => (current, next)
  | bound + 1, current, next =>
    if i.byte (next.source - 1) == i.byte (next.start - 1) && 0 < current.length &&
        limit < next.start && next.length < 256 && 1 < next.source then
      moveBack i limit bound { current with length := current.length - 1 }
        { next with
          start := next.start - 1, source := next.source - 1, length := next.length + 1 }
    else (current, next)

/-- Gives up a repetition for the one after it, if that can take its place. -/
def prefer (i : Index) (current next : Repetition) : Repetition × Repetition :=
  if current.length ≤ 1 || 1 + next.source < current.length || 1 + next.start < current.length ||
      i.byte (1 + next.source - current.length) != i.byte (1 + next.start - current.length) then
    (current, next)
  else
    let (shorter, longer) := moveBack i (next.start - reach) maxLength current next
    if shorter.length < current.length && shorter.length ≤ 1 && longer.length != 2 then
      (shorter, { longer with origin := longer.origin + 1 })
    else (current, next)

/-- The tokens of a repetition. -/
def tokensOf (i : Index) (r : Repetition) : List Token :=
  if r.length < minRepeat then
    (List.range r.length).map fun k => .literal (i.byte (r.start + k))
  else [.copy r.length (r.start - r.source)]

/-- Cuts the data into tokens from a position on; `known` is the repetition found there already.
The tokens so far come last one first. -/
def cutFrom (effort : Effort) : Nat → Index → Nat → Option Repetition → List Token → List Token
  | 0, _, _, _, out => out.reverse
  | bound + 1, i, position, known, out =>
    let left := i.data.size - position
    if left == 0 then out.reverse
    else
      let (current, i) := match known.filter fun _ => lookAhead ≤ left with
        | some r => (r, i)
        | none =>
          let (candidate, i) := if minRepeat ≤ left then i.insert position else (0, i)
          (findAt i effort position candidate, i)
      let i := learn i effort left current
      let stop := current.start + current.length
      let (current, known, i) :=
        if lookAhead < left then
          let (candidate, i) := i.insert stop
          let next := findAt i effort stop candidate
          let (current, next) :=
            if next.length < minRepeat then (current, next) else prefer i current next
          (current, some next, i)
        else (current, none, i)
      cutFrom effort bound i (current.start + current.length) known
        ((tokensOf i current).reverse ++ out)

/-- Cuts data into tokens. A step that gives no token is followed by one that does. -/
def cut (effort : Effort) (data : List UInt8) : List Token :=
  let data := data.toArray
  cutFrom effort (2 * data.size) (.empty data) 0 none []

end FunctionArchive.Deflate
