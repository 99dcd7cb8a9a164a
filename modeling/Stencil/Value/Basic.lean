import Stencil.Table
import Stencil.Number.Double

/-! Values: what templates are rendered against and what literals stand for. -/

namespace Stencil

/-- A dynamically typed value. The entries of a map form a `Table`. -/
inductive Value where
  | none
  | bool (b : Bool)
  | int (n : Int64)
  | float (x : Double)
  | str (s : String)
  | list (items : List Value)
  | map (entries : List (String × Value))

namespace Value

instance : Inhabited Value := ⟨none⟩

/-- The value of every name that leads nowhere. -/
def empty : Value := str ""

def ofEntries (entries : List (String × Value)) : Value := map (Table.ofEntries entries)

def typeName : Value → String
  | none => "none"
  | bool _ => "bool"
  | int _ => "int"
  | float _ => "float"
  | str _ => "string"
  | list _ => "list"
  | map _ => "map"

/-- Empty containers and texts, zero, `false` and `none` are false. -/
def isTruthy : Value → Bool
  | none => false
  | bool b => b
  | int n => n != 0
  | float x => !x.isZero
  | str s => !s.isEmpty
  | list items => !items.isEmpty
  | map entries => !entries.isEmpty

/-- The entry of a map; other values have none. -/
def get? (v : Value) (key : String) : Option Value :=
  match v with
  | map entries => Table.get? entries key
  | _ => Option.none

/-- The number that a list index writes: digits, with a plus sign before them if need be. -/
def index? (cs : List Char) : Option Nat :=
  let digits := match cs with
    | '+' :: cs => cs
    | cs => cs
  (Decimal.digits? digits).filter (· < UInt64.size)

/-- One step of a path: a key of a map or an index of a list. -/
def segment? (v : Value) (key : String) : Option Value :=
  match v with
  | map entries => Table.get? entries key
  | list items => (index? key.toList).bind (items[·]?)
  | _ => Option.none

/-- What a loop walks over: the items of a list, the keys of a map, the characters of a text.
Numbers and booleans have no items. -/
def iterate? : Value → Option (List Value)
  | none => some []
  | list items => some items
  | map entries => some ((Table.keys entries).map str)
  | str s => some (s.toList.map fun c => str c.toString)
  | bool _ | int _ | float _ => Option.none

end Value

end Stencil
