/-! Decimal numbers and their written form: a sign, digits with at most one point, and an
exponent of ten. The digits before or behind the point may be missing, not both. -/

namespace Stencil

/-- The number `coefficient * 10 ^ exponent`, with a sign that zero keeps too. -/
structure Decimal where
  negative : Bool
  coefficient : Nat
  exponent : Int
deriving DecidableEq

namespace Decimal

def digitValue (c : Char) : Nat := c.toNat - '0'.toNat

/-- The number that a row of digits writes. -/
def ofDigits (cs : List Char) : Nat :=
  cs.foldl (fun n c => 10 * n + digitValue c) 0

def digits (n : Nat) : List Char := Nat.toDigits 10 n

/-- The number that a nonempty row of digits and nothing else writes. -/
def digits? (cs : List Char) : Option Nat :=
  if !cs.isEmpty && cs.all Char.isDigit then some (ofDigits cs) else none

/-- Takes a minus sign off the front. -/
def splitMinus : List Char → Bool × List Char
  | '-' :: cs => (true, cs)
  | cs => (false, cs)

/-- The part behind `e` or `E`; a text without that letter has exponent zero. -/
def exponentPart? : List Char → Option Int
  | [] => some 0
  | e :: '-' :: cs => if e == 'e' || e == 'E' then (digits? cs).map fun n => -(n : Int) else none
  | e :: '+' :: cs => if e == 'e' || e == 'E' then (digits? cs).map Int.ofNat else none
  | e :: cs => if e == 'e' || e == 'E' then (digits? cs).map Int.ofNat else none

/-- The digits behind a leading point, and what follows them. -/
def fractionPart : List Char → List Char × List Char
  | '.' :: cs => cs.span Char.isDigit
  | cs => ([], cs)

def ofChars? (cs : List Char) : Option Decimal :=
  let (negative, cs) := splitMinus cs
  let (whole, cs) := cs.span Char.isDigit
  let (fraction, cs) := fractionPart cs
  if whole.isEmpty && fraction.isEmpty then none
  else (exponentPart? cs).map fun e =>
    ⟨negative, ofDigits (whole ++ fraction), e - fraction.length⟩

/-- The whole number that an optional minus sign and a row of digits write. -/
def int? (cs : List Char) : Option Int :=
  let (negative, cs) := splitMinus cs
  (digits? cs).map fun n => if negative then -(n : Int) else n

end Decimal

end Stencil
