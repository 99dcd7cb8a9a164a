import Stencil.Value.Basic

/-! Equality and order of values. Numbers compare as floating-point numbers whichever way they
are written; otherwise only values of one type compare. Lists compare item by item, and at the
first pair of items without an order they have none. Maps have no order, only equality. -/

namespace Stencil

namespace Value

def asDouble? : Value → Option Double
  | int n => some (Double.ofInt n.toInt)
  | float x => some x
  | _ => Option.none

def compareNumbers? (a b : Value) : Option Ordering := do
  Double.compare? (← a.asDouble?) (← b.asDouble?)

mutual

def compare? : Value → Value → Option Ordering
  | bool a, bool b => some (compare a b)
  | str a, str b => some (compare a b)
  | list as, list bs => compareLists? as bs
  | a, b => compareNumbers? a b

/-- A list that ends first is the smaller one. -/
def compareLists? : List Value → List Value → Option Ordering
  | [], [] => some .eq
  | [], _ :: _ => some .lt
  | _ :: _, [] => some .gt
  | a :: as, b :: bs =>
    match compare? a b with
    | some .eq => compareLists? as bs
    | other => other

end

mutual

def eq : Value → Value → Bool
  | none, none => true
  | bool a, bool b => a == b
  | str a, str b => a == b
  | list as, list bs => eqLists as bs
  | map as, map bs => eqEntries as bs
  | a, b => compareNumbers? a b == some .eq

def eqLists : List Value → List Value → Bool
  | [], [] => true
  | a :: as, b :: bs => eq a b && eqLists as bs
  | _, _ => false

def eqEntries : List (String × Value) → List (String × Value) → Bool
  | [], [] => true
  | (k, a) :: as, (l, b) :: bs => k == l && eq a b && eqEntries as bs
  | _, _ => false

end

end Value

end Stencil
