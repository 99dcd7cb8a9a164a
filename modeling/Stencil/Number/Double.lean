import Stencil.Number.Decimal

/-! Floating-point numbers of 64 bits, kept as their bits: a sign, 11 bits of exponent and 52 of
fraction. A finite number is `significand * 2 ^ unit`. Every operation works on exact whole
numbers and rounds once, to the nearest number and from the middle to the even one. -/

namespace Stencil

structure Double where
  bits : UInt64
deriving DecidableEq

namespace Double

/-- What the sign bit counts. -/
def signWeight : Nat := 0x8000000000000000

/-- What the lowest bit of the exponent counts: one more than the greatest fraction. -/
def exponentWeight : Nat := 0x10000000000000

/-- The magnitude of infinity; the magnitudes above it are no numbers. -/
def infinityMagnitude : Nat := 0x7FF * exponentWeight

/-- The bits without the sign. -/
def magnitude (x : Double) : Nat := x.bits.toNat % signWeight

def negative (x : Double) : Bool := signWeight ≤ x.bits.toNat

def ofMagnitude (negative : Bool) (m : Nat) : Double :=
  ⟨UInt64.ofNat (if negative then signWeight + m else m)⟩

def zero : Double := ofMagnitude false 0

def infinity : Double := ofMagnitude false infinityMagnitude

def notANumber : Double := ofMagnitude false (infinityMagnitude + exponentWeight / 2)

def isNaN (x : Double) : Bool := infinityMagnitude < x.magnitude

def isFinite (x : Double) : Bool := x.magnitude < infinityMagnitude

def isZero (x : Double) : Bool := x.magnitude == 0

def neg (x : Double) : Double := ofMagnitude (!x.negative) x.magnitude

def exponentField (x : Double) : Nat := x.magnitude / exponentWeight

def fraction (x : Double) : Nat := x.magnitude % exponentWeight

def significand (x : Double) : Nat :=
  if x.exponentField = 0 then x.fraction else exponentWeight + x.fraction

/-- The exponent of two that the last place of the significand stands for. -/
def unit (x : Double) : Int := (max x.exponentField 1 : Nat) - (1075 : Int)

/-! Order. The magnitudes are ordered as the numbers are, and both zeros have key zero. -/

def key (x : Double) : Int := if x.negative then -(x.magnitude : Int) else x.magnitude

/-- There is no order with a NaN. -/
def compare? (x y : Double) : Option Ordering :=
  if x.isNaN || y.isNaN then none else some (compare x.key y.key)

/-! Rounding. -/

/-- The whole number nearest to `num / den`, from the middle the even one. -/
def roundHalfEven (num den : Nat) : Nat :=
  let q := num / den
  let r := num % den
  if 2 * r < den || (2 * r == den && q % 2 == 0) then q else q + 1

/-- `num / den / 2 ^ unit` as a quotient of whole numbers. -/
def scaled (num den : Nat) (unit : Int) : Nat × Nat :=
  (num * Nat.pow 2 (-unit).toNat, den * Nat.pow 2 unit.toNat)

/-- The least exponent of two for which `num / den` has at most 53 bits before the point, but
no less than that of the smallest numbers. -/
def unitOf (num den : Nat) : Int :=
  let low : Int := (Nat.log2 num : Int) - Nat.log2 den - 53
  let (n, d) := scaled num den low
  max (if n < 2 * exponentWeight * d then low else low + 1) (-1074)

/-- The magnitude of the number nearest to `num / den`. -/
def nearestMagnitude (num den : Nat) : Nat :=
  if num = 0 then 0
  else
    let unit := unitOf num den
    let (n, d) := scaled num den unit
    min ((unit + 1074).toNat * exponentWeight + roundHalfEven n d) infinityMagnitude

def ofRatio (negative : Bool) (num den : Nat) : Double :=
  ofMagnitude negative (nearestMagnitude num den)

def ofInt (n : Int) : Double := ofRatio (n < 0) n.natAbs 1

/-- A finite number without its sign, as a quotient. -/
def ratio (x : Double) : Nat × Nat := scaled x.significand 1 (-x.unit)

/-- The product of two finite numbers. -/
def mul (x y : Double) : Double :=
  ofRatio (x.negative != y.negative) (x.ratio.1 * y.ratio.1) (x.ratio.2 * y.ratio.2)

/-- The quotient of a finite number by one that is finite and not zero. -/
def div (x y : Double) : Double :=
  ofRatio (x.negative != y.negative) (x.ratio.1 * y.ratio.2) (x.ratio.2 * y.ratio.1)

/-- The number nearest to a decimal. One with its first digit above `10 ^ 310` is infinite and
one below `10 ^ -330` is zero, whatever the other digits are. -/
def ofDecimal (d : Decimal) : Double :=
  let top := (Decimal.digits d.coefficient).length + d.exponent
  if d.coefficient = 0 || top < -330 then ofMagnitude d.negative 0
  else if 310 < top then ofMagnitude d.negative infinityMagnitude
  else ofRatio d.negative (d.coefficient * Nat.pow 10 d.exponent.toNat)
    (Nat.pow 10 (-d.exponent).toNat)

def ofChars? (cs : List Char) : Option Double := (Decimal.ofChars? cs).map ofDecimal

end Double

end Stencil
