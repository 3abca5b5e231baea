import FlowScript.Decimal.Shortest

/-!
# Numbers of a document

A number is a whole number or a double; `1` and `1.0` are different numbers of equal value.  Values are compared
exactly, and `Number.text` writes a number: whole numbers in decimal, doubles with the fewest digits that read back.
-/

namespace FlowScript

inductive Number where
  | int (value : Int)
  | real (value : Double)
deriving DecidableEq, Inhabited

namespace Number

/-- The value in units of a double. -/
def units : Number → Int
  | int n => n * Double.unitsPerOne
  | real x => x.signedUnits

/-- Equality of values. -/
def same (a b : Number) : Bool := a.units == b.units

/-- The nearest double, if the number is not too large. -/
def toDouble? : Number → Option Double
  | int n => Double.ofUnits? (n < 0) (n.natAbs * Double.unitsPerOne) 1
  | real x => some x

/-- Whether two numbers, taken as doubles, differ by less than one and the next double do. -/
def near (a b : Number) : Bool :=
  match a.toDouble?, b.toDouble? with
  | some x, some y =>
    match x.distance? y with
    | some d => d.units < Double.epsilonUnits
    | none => false
  | _, _ => false

def atMost (a b : Number) : Bool := a.units ≤ b.units

/-- Whether the value has no fractional part. -/
def isWhole : Number → Bool
  | int _ => true
  | real x => x.isWhole

end Number

namespace Decimal

/-- How doubles are laid out: positional notation when the first digit has a weight from `10 ^ lowest` to
`10 ^ highest`, with at least one digit after the point, and otherwise an exponent with its sign. -/
structure DoubleFormat where
  lowest : Int
  highest : Int

def zeros (n : Nat) : String := String.ofList (List.replicate n '0')

def positional (digits : List Char) (exponent : Int) : String :=
  if exponent < 0 then
    "0." ++ zeros (-exponent - 1).toNat ++ String.ofList digits
  else
    let whole := exponent.toNat + 1
    let after := digits.drop whole
    String.ofList (digits.take whole) ++ zeros (whole - digits.length) ++ "." ++
      (if after.isEmpty then "0" else String.ofList after)

def scientific (digits : List Char) (exponent : Int) : String :=
  let after := digits.drop 1
  String.ofList (digits.take 1) ++ (if after.isEmpty then "" else "." ++ String.ofList after) ++ "e" ++
    (if exponent < 0 then "-" else "+") ++ toString exponent.natAbs

def DoubleFormat.write (f : DoubleFormat) (d : Decimal) : String :=
  let digits := Nat.toDigits 10 d.digits
  if f.lowest ≤ d.exponent ∧ d.exponent ≤ f.highest then positional digits d.exponent
  else scientific digits d.exponent

end Decimal

namespace Number

/-- Doubles from `1e-5` up to sixteen digits before the point are written positionally. -/
def layout : Decimal.DoubleFormat := ⟨-5, 15⟩

def realText (x : Double) : String :=
  (if x.negative then "-" else "") ++ (if x.mantissa = 0 then "0.0" else layout.write (Decimal.shortest x))

def text : Number → String
  | int n => toString n
  | real x => realText x

end Number

end FlowScript
