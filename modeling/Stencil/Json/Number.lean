import Stencil.Value.Basic

/-! Numbers in JSON texts. A number without a point and an exponent is an integer if 64 bits with
a sign hold it. Any other is a floating-point number: its digits are gathered as far as 64 bits
hold them, the rest only count as places, and the result is scaled by a power of ten, each step
rounded on its own. -/

namespace Stencil.Json

/-- Adds digits to `n` as long as the result is below `2 ^ 64`; the second part is how many. -/
def absorb (n : Nat) : List Char → Nat × Nat
  | [] => (n, 0)
  | c :: cs =>
    let m := 10 * n + Decimal.digitValue c
    if m < UInt64.size then
      let (total, count) := absorb m cs
      (total, count + 1)
    else (n, 0)

def powerOfTen (n : Nat) : Double := Double.ofRatio false (Nat.pow 10 n) 1

/-- `n * 10 ^ e` by at most two roundings after the one of `n`; none if it is too large. -/
def scale? (n : Nat) (e : Int) : Option Double :=
  let x := Double.ofInt n
  if n = 0 then some x
  else if 308 < e then none
  else if 0 ≤ e then some (x.mul (powerOfTen e.toNat)) |>.filter Double.isFinite
  else if -308 ≤ e then some (x.div (powerOfTen (-e).toNat))
  else if -616 ≤ e then some ((x.div (powerOfTen 308)).div (powerOfTen (-e - 308).toNat))
  else some .zero

/-- A number in its written parts; the missing ones are `none`. -/
structure Parts where
  negative : Bool
  whole : List Char
  fraction : Option (List Char)
  exponent : Option Int

/-- A minus sign in front of zero makes a floating-point number. -/
def Parts.int? (p : Parts) : Option Int64 :=
  let n := Decimal.ofDigits p.whole
  if p.fraction.isSome || p.exponent.isSome then none
  else if p.negative then
    if 0 < n && -(n : Int) ≥ Int64.minValue.toInt then some (Int64.ofInt (-n)) else none
  else if (n : Int) ≤ Int64.maxValue.toInt then some (Int64.ofInt n) else none

def Parts.double? (p : Parts) : Option Double :=
  let (n, count) := absorb 0 p.whole
  let dropped := p.whole.length - count
  let (n, places) := absorb n (p.fraction.getD [])
  let e : Int := p.exponent.getD 0 + dropped - places
  (scale? n e).map fun x => if p.negative then x.neg else x

def Parts.value? (p : Parts) : Option Value :=
  match p.int? with
  | some n => some (.int n)
  | none => p.double?.map .float

/-- A row of digits and what follows it; none if there is no digit. -/
def digitRun? (cs : List Char) : Option (List Char × List Char) :=
  let run := cs.takeWhile Char.isDigit
  if run.isEmpty then none else some (run, cs.dropWhile Char.isDigit)

/-- The digits of the whole part, which start with zero only if that is all of them. -/
def wholePart? (cs : List Char) : Option (List Char × List Char) :=
  (digitRun? cs).filter fun (run, _) => run.head? != some '0' || run.length == 1

def fractionPart? : List Char → Option (Option (List Char) × List Char)
  | '.' :: cs => (digitRun? cs).map fun (run, rest) => (some run, rest)
  | cs => some (none, cs)

def signedExponent? : List Char → Option (Int × List Char)
  | '-' :: cs => (digitRun? cs).map fun (run, rest) => (-(Decimal.ofDigits run : Int), rest)
  | '+' :: cs => (digitRun? cs).map fun (run, rest) => ((Decimal.ofDigits run : Int), rest)
  | cs => (digitRun? cs).map fun (run, rest) => ((Decimal.ofDigits run : Int), rest)

def exponentPart? : List Char → Option (Option Int × List Char)
  | [] => some (none, [])
  | c :: cs =>
    if c == 'e' || c == 'E' then (signedExponent? cs).map fun (e, rest) => (some e, rest)
    else some (none, c :: cs)

/-- The parts of the number at the front of a text, and what follows it. -/
def parts? (cs : List Char) : Option (Parts × List Char) := do
  let (negative, cs) := Decimal.splitMinus cs
  let (whole, cs) ← wholePart? cs
  let (fraction, cs) ← fractionPart? cs
  let (exponent, cs) ← exponentPart? cs
  return (⟨negative, whole, fraction, exponent⟩, cs)

end Stencil.Json
