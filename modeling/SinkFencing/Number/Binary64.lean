namespace SinkFencing

structure Decimal where
  negative : Bool
  digits : Nat
  exponent : Int
deriving DecidableEq

/-- A finite number is `± mantissa * 2 ^ exponent` with a mantissa of at most 53 bits and the
largest exponent below which no bit is lost. -/
inductive Binary64
  | finite (negative : Bool) (mantissa : Nat) (exponent : Int)
  | infinite (negative : Bool)
  | nan
deriving DecidableEq

namespace Decimal

/-- Moves zeros at the end of the digits into the exponent; `n` bounds how many. -/
def strip : Nat → Nat → Int → Nat × Int
  | 0, digits, exponent => (digits, exponent)
  | n + 1, digits, exponent =>
    if digits % 10 = 0 then strip n (digits / 10) (exponent + 1) else (digits, exponent)

/-- All digits, with a point only if some stand after it, and never an exponent. -/
def positional (digits : Nat) (exponent : Int) : String :=
  let shown := Nat.toDigits 10 digits
  if 0 ≤ exponent then String.ofList (shown ++ List.replicate exponent.toNat '0')
  else
    let places := (-exponent).toNat
    let padded := List.replicate (places + 1 - shown.length) '0' ++ shown
    let whole := padded.length - places
    String.ofList (padded.take whole ++ '.' :: padded.drop whole)

end Decimal

namespace Binary64

def minExponent : Int := -1074
def maxExponent : Int := 971

/-- The least mantissa of 53 bits, which is `2 ^ 52`. -/
def leastFull : Nat := 4503599627370496

/-- The integer nearest to a quotient; of two that are equally near, the even one. -/
def roundQuotient (num den : Nat) : Nat :=
  let twice := 2 * (num % den)
  if twice < den ∨ (twice = den ∧ num / den % 2 = 0) then num / den else num / den + 1

def scaleUp (base n : Nat) : Nat → Nat
  | 0 => n
  | k + 1 => scaleUp base (n * base) k

def unscale (num den base : Nat) (exponent : Int) : Nat × Nat :=
  if 0 ≤ exponent then (num, scaleUp base den exponent.toNat)
  else (scaleUp base num (-exponent).toNat, den)

def ofFraction (negative : Bool) (num den : Nat) : Binary64 :=
  let guess : Int := (num.log2 : Int) - den.log2 - 53
  let (n, d) := unscale num den 2 guess
  let exponent := max minExponent (if n / d < 2 * leastFull then guess else guess + 1)
  let (n, d) := unscale num den 2 exponent
  let mantissa := roundQuotient n d
  let (mantissa, exponent) :=
    if mantissa = 2 * leastFull then (leastFull, exponent + 1) else (mantissa, exponent)
  if maxExponent < exponent then infinite negative else finite negative mantissa exponent

/-- The number nearest to a decimal. Far outside the range the exponent alone decides. -/
def ofDecimal (d : Decimal) : Binary64 :=
  let magnitude := (Nat.toDigits 10 d.digits).length + d.exponent
  if d.digits = 0 ∨ magnitude < -330 then finite d.negative 0 0
  else if 310 < magnitude then infinite d.negative
  else
    let (num, den) := unscale d.digits 1 10 (-d.exponent)
    ofFraction d.negative num den

/-- The decimals that round to a number: between `low / den` and `high / den` around `mid / den`,
ends included if `closed`. -/
structure Neighbourhood where
  low : Nat
  mid : Nat
  high : Nat
  den : Nat
  closed : Bool

/-- Half the way to each neighbour. Just above a power of two the lower one is nearer. -/
def neighbourhood (mantissa : Nat) (exponent : Int) : Neighbourhood :=
  let below := if mantissa = leastFull ∧ minExponent < exponent then 1 else 2
  let shift := exponent - 2
  let up := scaleUp 2 1 shift.toNat
  ⟨(4 * mantissa - below) * up, 4 * mantissa * up, (4 * mantissa + 2) * up, scaleUp 2 1 (-shift).toNat,
    mantissa % 2 = 0⟩

def Neighbourhood.holds (a : Neighbourhood) (exponent : Int) (digits : Nat) : Bool :=
  let (n, d) := unscale digits 1 10 (-exponent)
  if a.closed then a.low * d ≤ n * a.den && n * a.den ≤ a.high * d
  else a.low * d < n * a.den && n * a.den < a.high * d

/-- The nearer of the two points around the middle on the grid of `10 ^ exponent` that the
neighbourhood holds, if it holds one; the upper one if they are equally near. -/
def Neighbourhood.onGrid (a : Neighbourhood) (exponent : Int) : Option Nat :=
  let (n, d) := unscale a.mid a.den 10 exponent
  let under := n / d
  match a.holds exponent under, a.holds exponent (under + 1) with
  | true, true => some (if 2 * (n % d) < d then under else under + 1)
  | true, false => some under
  | false, true => some (under + 1)
  | false, false => none

example : (⟨1, 3, 5, 2, true⟩ : Neighbourhood).onGrid 0 = some 2 := by decide

/-- The coarsest of `n` grids from `10 ^ exponent` down that has a point. -/
def Neighbourhood.coarsest (a : Neighbourhood) : Nat → Int → Nat × Int
  | 0, exponent => (a.mid, exponent)
  | n + 1, exponent =>
    match a.onGrid exponent with
    | some digits => (digits, exponent)
    | none => a.coarsest n (exponent - 1)

def leadingExponent (num den : Nat) : Int :=
  let guess : Int := ((Nat.toDigits 10 num).length : Int) - (Nat.toDigits 10 den).length
  let (n, d) := unscale num den 10 guess
  if d ≤ n then guess else guess - 1

/-- The fewest digits that read back as the number, the nearest to it if several do. -/
def shortest (mantissa : Nat) (exponent : Int) : Nat × Int :=
  if mantissa = 0 then (0, 0)
  else
    let a := neighbourhood mantissa exponent
    let (digits, exponent) := a.coarsest 17 (leadingExponent a.mid a.den)
    Decimal.strip 17 digits exponent

def text : Binary64 → String
  | nan => "NaN"
  | infinite negative => (if negative then "-" else "") ++ "inf"
  | finite negative mantissa exponent =>
    let (digits, exponent) := shortest mantissa exponent
    (if negative then "-" else "") ++ Decimal.positional digits exponent

example : (ofDecimal ⟨false, 1, -1⟩).text = "0.1" := by cbv
example : (ofDecimal ⟨true, 15, 0⟩).text = "-15" := by cbv

end Binary64

end SinkFencing
