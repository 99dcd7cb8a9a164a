import Stencil.Number.Double

/-! The shortest decimal digits of a floating-point number: as few as still read back as the
number, and of those the nearest to it. Every finite number is a whole number of units of some
power of ten, so all of this is whole-number arithmetic. -/

namespace Stencil

namespace Double

/-- The number `0.d₁d₂d₃… * 10 ^ point`. -/
structure Digits where
  digits : List Char
  point : Int
deriving DecidableEq

/-- A finite number without its sign is `count / 10 ^ places`, and `gap` of those parts lie
between it and the next larger number. -/
structure Exact where
  count : Nat
  gap : Nat
  places : Nat
deriving DecidableEq

def exact (x : Double) : Exact :=
  let up := x.unit.toNat
  let down := (-x.unit).toNat
  ⟨x.significand * Nat.pow 2 up * Nat.pow 5 down, Nat.pow 2 up * Nat.pow 5 down, down⟩

/-- The gap below is half as wide where the exponent changes. -/
def atBoundary (x : Double) : Bool := x.fraction == 0 && 1 < x.exponentField

/-- Whether `n`, in the parts of `exact`, is rounded to `x`. -/
def readsBack (x : Double) (n : Nat) : Bool :=
  let e := x.exact
  let middle := 4 * e.count
  let low := middle - (if x.atBoundary then e.gap else 2 * e.gap)
  let high := middle + 2 * e.gap
  if x.significand % 2 = 0 then low ≤ 4 * n && 4 * n ≤ high else low < 4 * n && 4 * n < high

/-- The multiple of `grid` that reads back as `x`, the nearer of two, and of two equally near
the larger. -/
def onGrid? (x : Double) (grid : Nat) : Option Nat :=
  let n := x.exact.count
  let below := n / grid * grid
  let above := below + grid
  match x.readsBack below, x.readsBack above with
  | true, true => some (if n - below < above - n then below else above)
  | true, false => some below
  | false, true => some above
  | false, false => none

/-- Seventeen digits are always enough. -/
def shortest (x : Double) : Digits :=
  let e := x.exact
  let length := (Decimal.digits e.count).length
  let best := (List.range 17).findSome? fun i => x.onGrid? (Nat.pow 10 (length - (i + 1)))
  let found := Decimal.digits (best.getD e.count)
  let kept := (found.reverse.dropWhile (· == '0')).reverse
  ⟨kept, (found.length : Int) - e.places⟩

/-! Layouts. -/

def signed (x : Double) (text : String) : String := if x.negative then "-" ++ text else text

def zeros (n : Nat) : List Char := List.replicate n '0'

/-- All digits around a point; no point behind a whole number. -/
def positional (d : Digits) : String :=
  let n := d.point.toNat
  if d.point ≤ 0 then "0." ++ String.ofList (zeros (-d.point).toNat ++ d.digits)
  else if d.digits.length ≤ n then String.ofList (d.digits ++ zeros (n - d.digits.length))
  else String.ofList (d.digits.take n ++ '.' :: d.digits.drop n)

/-- One digit before the point, then the exponent of ten. -/
def scientific (d : Digits) : String :=
  let tail := match d.digits.drop 1 with
    | [] => []
    | rest => '.' :: rest
  String.ofList (d.digits.take 1 ++ tail) ++ "e" ++ toString (d.point - 1)

/-- The whole number that a finite number is, if it has no fraction. -/
def whole? (x : Double) : Option Nat :=
  let e := x.exact
  let one := Nat.pow 10 e.places
  if e.count % one = 0 then some (e.count / one) else none

def special (x : Double) : String := if x.isNaN then "NaN" else x.signed "inf"

/-- A whole number in full with one decimal place, any other with its shortest digits; never
with an exponent. -/
def display (x : Double) : String :=
  if x.isFinite then
    x.signed (match x.whole? with
      | some n => toString n ++ ".0"
      | none => positional x.shortest)
  else x.special

/-- The shortest digits, with a decimal place at least; from `10 ^ 16` up and below `10 ^ -4` with
an exponent. -/
def compact (x : Double) : String :=
  if x.isFinite then
    let d := x.shortest
    x.signed (
      if x.isZero then "0.0"
      else if 17 ≤ d.point || d.point ≤ -4 then scientific d
      else if d.digits.length ≤ d.point then positional d ++ ".0"
      else positional d)
  else x.special

end Double

end Stencil
