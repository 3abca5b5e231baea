import FlowScript.Decimal.Double
import FlowScript.Text.Basic

/-!
# Reading decimals

A decimal in positional or scientific notation: digits, a point, digits, and an exponent.  `Decimal.Parts.split?`
takes such a text apart, and `Decimal.Parts.toDouble?` gives the nearest double.
-/

namespace FlowScript

namespace Decimal

/-- A decimal as it is written: the digits before and after the point, and the exponent. -/
structure Parts where
  whole : List Char
  fraction : List Char
  exponent : Int

/-- Reads an optional sign and digits. -/
def readExponent? (cs : List Char) : Option Int :=
  match cs with
  | '-' :: r => (readDigits? 10 r).map fun n => -(n : Int)
  | '+' :: r => (readDigits? 10 r).map Int.ofNat
  | r => (readDigits? 10 r).map Int.ofNat

/-- Takes an unsigned decimal apart.  One of the two runs of digits may be empty, not both; the point may be left
out. -/
def Parts.split? (cs : List Char) : Option Parts :=
  let (whole, r) := splitWhile (isDigitIn 10) cs
  let (fraction, r) := match r with
    | '.' :: r => splitWhile (isDigitIn 10) r
    | r => ([], r)
  if whole.isEmpty && fraction.isEmpty then none
  else match r with
    | [] => some ⟨whole, fraction, 0⟩
    | c :: r =>
      if c = 'e' ∨ c = 'E' then (readExponent? r).map fun e => ⟨whole, fraction, e⟩ else none

/-- The nearest double, if the decimal is not too large. -/
def Parts.toDouble? (p : Parts) (negative : Bool) : Option Double :=
  Double.ofDecimal? negative (numberOf 10 (p.whole ++ p.fraction)) (p.exponent - p.fraction.length)

end Decimal

end FlowScript
