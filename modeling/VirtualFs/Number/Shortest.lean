import VirtualFs.Number.Binary64

/-!
The decimal text of a double: the fewest digits that read back as the same double, of those the
ones nearest to it and of two equally near ones the larger, written without an exponent.
-/

namespace VirtualFs.Number

/-- The number `digits * 10 ^ exponent`. -/
structure Decimal where
  digits : Nat
  exponent : Int
  deriving Repr, DecidableEq

/-- A positive magnitude `num / den` and the interval of numbers that round to it, whose ends lie
`below` and `above` quarter units away; a unit is `1 / den` times `unit`. -/
structure Magnitude where
  num : Nat
  den : Nat
  unit : Nat
  below : Nat
  above : Nat
  /-- The ends themselves round to the magnitude. -/
  closed : Bool
  deriving Repr, DecidableEq

/-- The magnitude of a finite double that is not zero. -/
def Magnitude.ofBinary64 (x : Binary64) : Magnitude where
  num := x.significand * Nat.pow 2 x.exponent.toNat
  den := Nat.pow 2 (-x.exponent).toNat
  unit := Nat.pow 2 x.exponent.toNat
  below := if x.narrowBelow then 1 else 2
  above := 2
  closed := x.significand % 2 == 0

/-- `d * 10 ^ p` rounds to the magnitude. Both sides are multiplied out, so only whole numbers are
compared. -/
def Magnitude.contains (v : Magnitude) (d : Nat) (p : Int) : Bool :=
  let point := 4 * d * Nat.pow 10 p.toNat * v.den
  let scale := Nat.pow 10 (-p).toNat
  let low := (4 * v.num - v.below * v.unit) * scale
  let high := (4 * v.num + v.above * v.unit) * scale
  if v.closed then decide (low ≤ point) && decide (point ≤ high)
  else decide (low < point) && decide (point < high)

/-- The number of decimal digits, none for zero. -/
def digitCount (n : Nat) : Nat :=
  if n = 0 then 0 else (Nat.toDigits 10 n).length

/-- The power of ten just above the magnitude. -/
def Magnitude.decade (v : Magnitude) : Int :=
  if v.den ≤ v.num then digitCount (v.num / v.den)
  else 1 - (digitCount ((v.den + v.num - 1) / v.num - 1) : Int)

/-- The multiple of `10 ^ p` nearest to the magnitude among its two neighbours that round to it, the
larger one if both are equally near. -/
def Magnitude.onGrid (v : Magnitude) (p : Int) : Option Decimal :=
  let num := v.num * Nat.pow 10 (-p).toNat
  let den := v.den * Nat.pow 10 p.toNat
  let d := num / den
  let rest := num % den
  if v.contains d p && (decide (2 * rest < den) || !v.contains (d + 1) p) then some ⟨d, p⟩
  else if v.contains (d + 1) p then some ⟨d + 1, p⟩
  else none

/-- The shortest decimal: the first grid, from the coarsest on, that has a point in the interval.
Seventeen digits always do. -/
def Magnitude.shortest (v : Magnitude) : Decimal :=
  let decade := v.decade
  match (List.range 17).findSome? fun (k : Nat) => v.onGrid (decade - (k + 1)) with
  | some d => d
  | none => ⟨0, 0⟩

/-- The digits without the zeros at their end. -/
def dropZeros (digits : List Char) : List Char :=
  (digits.reverse.dropWhile (· == '0')).reverse

/-- A decimal in positional notation, without a point when it is whole. -/
def Decimal.positional (d : Decimal) : String :=
  let all := Nat.toDigits 10 d.digits
  let digits := dropZeros all
  let exponent := d.exponent + ((all.length - digits.length : Nat) : Int)
  if 0 ≤ exponent then
    String.ofList (digits ++ List.replicate exponent.toNat '0')
  else
    let places := (-exponent).toNat
    if places < digits.length then
      let whole := digits.length - places
      String.ofList (digits.take whole ++ '.' :: digits.drop whole)
    else
      String.ofList ('0' :: '.' :: (List.replicate (places - digits.length) '0' ++ digits))

/-- The text of a double. -/
def text (x : Binary64) : String :=
  let sign := if x.negative then "-" else ""
  if x.isNaN then "NaN"
  else if !x.isFinite then sign ++ "inf"
  else if x.significand = 0 then sign ++ "0"
  else sign ++ (Magnitude.ofBinary64 x).shortest.positional

end VirtualFs.Number
