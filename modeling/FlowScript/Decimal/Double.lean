/-!
# Double-precision numbers

A finite double is a sign, a mantissa below `2 ^ 53` and a scale: its absolute value is `mantissa * 2 ^ scale` units,
one unit being `2 ^ (-1074)`.  The mantissa is at least `2 ^ 52` unless the scale is zero, so every double has one
representation.  Everything is exact arithmetic on natural numbers; `Double.ofDecimal?` rounds a decimal to the
nearest double, a half to the even mantissa, and fails on what is too large.
-/

namespace FlowScript

structure Double where
  negative : Bool
  mantissa : Nat
  scale : Nat
  mantissa_lt : mantissa < Nat.pow 2 53
  scale_le : scale ≤ 2045
  normal : scale = 0 ∨ Nat.pow 2 52 ≤ mantissa
deriving DecidableEq

namespace Double

/-- A double is a whole multiple of this fraction of one. -/
def unitsPerOne : Nat := Nat.pow 2 1074

/-- The absolute value, counted in units. -/
def units (x : Double) : Nat := x.mantissa * Nat.pow 2 x.scale

def zero (negative : Bool) : Double :=
  ⟨negative, 0, 0, by decide, by decide, .inl rfl⟩

instance : Inhabited Double := ⟨zero false⟩

/-- Whether the number has no fractional part. -/
def isWhole (x : Double) : Bool := x.units % unitsPerOne == 0

/-- The value as a signed count of units; both zeros count nothing. -/
def signedUnits (x : Double) : Int :=
  if x.negative then -(x.units : Int) else x.units

def make? (negative : Bool) (mantissa scale : Nat) : Option Double :=
  if h : mantissa < Nat.pow 2 53 ∧ scale ≤ 2045 ∧ (scale = 0 ∨ Nat.pow 2 52 ≤ mantissa) then
    some ⟨negative, mantissa, scale, h.1, h.2.1, h.2.2⟩
  else none

/-- The quotient rounded to the nearest whole number, a half to the even one. -/
def roundDiv (num den : Nat) : Nat :=
  let q := num / den
  let r := 2 * (num % den)
  if r < den then q
  else if den < r then q + 1
  else q + q % 2

/-- The double nearest to `num / den` units, if it is not too large. -/
def ofUnits? (negative : Bool) (num den : Nat) : Option Double :=
  let whole := num / den
  let scale := if whole < Nat.pow 2 53 then 0 else Nat.log2 whole - 52
  let mantissa := roundDiv num (den * Nat.pow 2 scale)
  if mantissa < Nat.pow 2 53 then make? negative mantissa scale
  else make? negative (mantissa / 2) (scale + 1)

/-- The distance of two doubles, rounded to a double, if it is not too large. -/
def distance? (x y : Double) : Option Double := ofUnits? false (x.signedUnits - y.signedUnits).natAbs 1

/-- The distance from one to the next double, in units. -/
def epsilonUnits : Nat := unitsPerOne / Nat.pow 2 52

/-- The double nearest to `digits * 10 ^ exponent`, if it is not too large.  Exponents that decide the answer by
themselves are not multiplied out. -/
def ofDecimal? (negative : Bool) (digits : Nat) (exponent : Int) : Option Double :=
  if digits = 0 then some (zero negative)
  else
    let top := exponent + (Nat.toDigits 10 digits).length
    if top > 310 then none
    else if top < -330 then some (zero negative)
    else if 0 ≤ exponent then ofUnits? negative (digits * Nat.pow 10 exponent.toNat * unitsPerOne) 1
    else ofUnits? negative (digits * unitsPerOne) (Nat.pow 10 (-exponent).toNat)

end Double

end FlowScript
