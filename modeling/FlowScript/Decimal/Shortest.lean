import FlowScript.Decimal.Double

/-!
# Shortest decimals

The fewest decimal digits that read back as a given double, and of those the nearest to it.  The reals that round to
a double form an interval around it, closed iff its mantissa is even.  For one digit, two digits and so on, the two
neighbours of the value on that decimal grid are tried; the first grid with a neighbour in the interval is taken.
-/

namespace FlowScript

/-- A positive decimal `digits * 10 ^ (exponent + 1 - length of digits)`: the first digit has weight
`10 ^ exponent`. -/
structure Decimal where
  digits : Nat
  exponent : Int
deriving DecidableEq

namespace Decimal

/-- The interval of a positive double: lower end, value and upper end in quarters of a unit, and whether the ends
belong to it. -/
structure Interval where
  lower : Nat
  value : Nat
  upper : Nat
  closed : Bool

def Interval.of (x : Double) : Interval :=
  let m := x.mantissa
  let p := Nat.pow 2 x.scale
  { lower := if m = Nat.pow 2 52 ∧ 0 < x.scale then (4 * m - 1) * p else (4 * m - 2) * p
    value := 4 * m * p
    upper := (4 * m + 2) * p
    closed := m % 2 == 0 }

def quartersPerOne : Nat := 4 * Double.unitsPerOne

/-- Whether `digits * 10 ^ place` lies in the interval. -/
def Interval.contains (i : Interval) (digits : Nat) (place : Int) : Bool :=
  let n := digits * quartersPerOne * Nat.pow 10 place.toNat
  let d := Nat.pow 10 (-place).toNat
  if i.closed then i.lower * d ≤ n && n ≤ i.upper * d else i.lower * d < n && n < i.upper * d

/-- The value counted in steps of `10 ^ place`, rounded down, and twice what is left over compared with one step. -/
def Interval.floorAt (i : Interval) (place : Int) : Nat × Ordering :=
  let num := i.value * Nat.pow 10 (-place).toNat
  let den := quartersPerOne * Nat.pow 10 place.toNat
  (num / den, compare (2 * (num % den)) den)

/-- The neighbour on the grid of `10 ^ place` that lies in the interval, the nearer one if both do, the even one if
they are equally near. -/
def Interval.neighbour? (i : Interval) (place : Int) : Option Nat :=
  let (q, side) := i.floorAt place
  match i.contains q place, i.contains (q + 1) place with
  | true, false => some q
  | false, true => some (q + 1)
  | false, false => none
  | true, true =>
    match side with
    | .lt => some q
    | .gt => some (q + 1)
    | .eq => some (q + q % 2)

/-- The weight of the first digit of `num / den`, found upward from `e`. -/
def firstDigit (num den : Nat) : Nat → Int → Int
  | 0, e => e
  | fuel + 1, e =>
    if num * Nat.pow 10 (-(e + 1)).toNat < den * Nat.pow 10 (e + 1).toNat then e else firstDigit num den fuel (e + 1)

/-- Tries grids with `n`, `n + 1`, … digits, `fuel` of them. -/
def Interval.search (i : Interval) (top : Int) : (fuel n : Nat) → Decimal
  | 0, n =>
    let place := top + 1 - n
    ⟨(i.floorAt place).1, top⟩
  | fuel + 1, n =>
    let place := top + 1 - n
    match i.neighbour? place with
    | some q => if q = Nat.pow 10 n then ⟨1, top + 1⟩ else ⟨q, top⟩
    | none => i.search top fuel (n + 1)

/-- A lower bound for the weight of the first digit, from the lengths in binary. -/
def firstDigitGuess (num den : Nat) : Int :=
  let bits : Int := (Nat.log2 num : Int) - Nat.log2 den - 1
  bits * 30103 / 100000 - 1

/-- The shortest decimal that reads back as the absolute value of `x`, which is not zero. -/
def shortest (x : Double) : Decimal :=
  let i := Interval.of x
  let top := firstDigit i.value quartersPerOne 4 (firstDigitGuess i.value quartersPerOne)
  i.search top 17 1

end Decimal

end FlowScript
