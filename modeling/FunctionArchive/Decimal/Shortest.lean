/-!
# Shortest decimals

The fewest digits that read back as a given double. A finite double is `m · 2^q`; the numbers that
round to it form an interval around it, ends included when `m` is even. For one digit, two digits
and so on, the value lies between two neighbours on the decimal grid of that many digits; the first
grid with a neighbour inside the interval gives the answer, the nearer one if both are inside, and
the even one if both are as near.
-/

set_option autoImplicit false

namespace FunctionArchive.Decimal

/-- A non-negative rational number; the denominator is never zero where one is used. -/
structure Ratio where
  num : Nat
  den : Nat
deriving Repr

/-- `m · 2^q` as a ratio. -/
def Ratio.ofBinary (m : Nat) (q : Int) : Ratio :=
  if 0 ≤ q then ⟨m * Nat.pow 2 q.toNat, 1⟩ else ⟨m, Nat.pow 2 (-q).toNat⟩

/-- `d · 10^e` as a ratio. -/
def Ratio.ofDecimal (d : Nat) (e : Int) : Ratio :=
  if 0 ≤ e then ⟨d * Nat.pow 10 e.toNat, 1⟩ else ⟨d, Nat.pow 10 (-e).toNat⟩

/-- Comparison by cross multiplication. -/
def Ratio.order (a b : Ratio) : Ordering :=
  compare (a.num * b.den) (b.num * a.den)

/-- The numbers that round to one double. -/
structure Interval where
  low : Ratio
  high : Ratio
  closed : Bool

/-- Whether a number rounds to the double of the interval. -/
def Interval.contains (i : Interval) (x : Ratio) : Bool :=
  let above := i.low.order x
  let below := x.order i.high
  (above == .lt || (i.closed && above == .eq)) && (below == .lt || (i.closed && below == .eq))

/-- The bit of a double that holds its sign. -/
def signBit : Nat := 0x8000000000000000

/-- The bit in front of the fraction of a double, which is not written. -/
def leadingBit : Nat := 0x10000000000000

/-- Whether a double has the sign of a negative number. -/
def isNegative (x : Float) : Bool := signBit ≤ x.toBits.toNat

/-- The mantissa and exponent of a finite double, its sign left out. -/
def parts (x : Float) : Nat × Int :=
  let bits := x.toBits.toNat % signBit
  let exponent : Nat := bits / leadingBit
  let fraction := bits % leadingBit
  if exponent == 0 then (fraction, -1074) else (fraction + leadingBit, (exponent : Int) - 1075)

/-- The numbers that round to `m · 2^q`. Below a power of two the doubles lie twice as close. -/
def rounding (m : Nat) (q : Int) : Interval where
  low := if m == leadingBit && q > -1074 then Ratio.ofBinary (4 * m - 1) (q - 2)
    else Ratio.ofBinary (2 * m - 1) (q - 1)
  high := Ratio.ofBinary (2 * m + 1) (q - 1)
  closed := m % 2 == 0

/-- The exponent of the leading digit of a positive ratio. -/
def leadingExponent (x : Ratio) : Int :=
  let whole := x.num / x.den
  if whole > 0 then ((Nat.toDigits 10 whole).length : Int) - 1
  else
    let rec search : Nat → Nat → Int
      | 0, k => -(k : Int)
      | bound + 1, k => if x.num * Nat.pow 10 k ≥ x.den then -(k : Int) else search bound (k + 1)
    search 330 1

/-- Digits and the exponent of the last of them. -/
structure Digits where
  digits : Nat
  exponent : Int
deriving Repr

/-- The neighbour on the grid `10^e` that rounds back, the nearer one first. Of two that are as
near, the even one comes first. -/
def neighbour? (value : Ratio) (interval : Interval) (e : Int) : Option Digits :=
  let unit := Ratio.ofDecimal 1 e
  let floor := (value.num * unit.den) / (value.den * unit.num)
  let inside (d : Nat) := interval.contains (Ratio.ofDecimal d e)
  let half := Ratio.ofDecimal (10 * floor + 5) (e - 1)
  let lower := match value.order half with
    | .lt => true
    | .eq => floor % 2 == 0
    | .gt => false
  let order := if lower then [floor, floor + 1] else [floor + 1, floor]
  (order.find? fun d => d > 0 && inside d).map (⟨·, e⟩)

/-- Drops zeros at the end. -/
def stripZeros : Nat → Digits → Digits
  | 0, d => d
  | bound + 1, d =>
    if d.digits != 0 && d.digits % 10 == 0 then
      stripZeros bound ⟨d.digits / 10, d.exponent + 1⟩
    else d

/-- The fewest digits that read back as the positive double `x`. Seventeen always suffice. -/
def shortest (x : Float) : Digits :=
  let (m, q) := parts x
  let value := Ratio.ofBinary m q
  let interval := rounding m q
  let top := leadingExponent value
  let found := (List.range 17).findSome? fun (n : Nat) =>
    neighbour? value interval (top - (n : Int))
  stripZeros 20 (found.getD ⟨0, 0⟩)

end FunctionArchive.Decimal
