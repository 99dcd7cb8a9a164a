import Stencil.Value.Basic
import Stencil.Number.Shortest
import Stencil.Text.Quoted

/-! The text of a value. `none` shows as nothing, or as `null` inside a list or map, where texts
and keys are quoted. -/

namespace Stencil

namespace Value

def enclose (left right : String) (parts : List String) : String :=
  left ++ ", ".intercalate parts ++ right

mutual

/-- The text of a value inside a list or map. -/
def nested : Value → String
  | none => "null"
  | bool b => toString b
  | int n => toString n.toInt
  | float x => x.display
  | str s => Text.quote s
  | list items => enclose "[" "]" (nestedItems items)
  | map entries => enclose "\x7b" "\x7d" (nestedEntries entries)

def nestedItems : List Value → List String
  | [] => []
  | v :: vs => nested v :: nestedItems vs

def nestedEntries : List (String × Value) → List String
  | [] => []
  | (k, v) :: rest => (Text.quote k ++ ": " ++ nested v) :: nestedEntries rest

end

def display : Value → String
  | none => ""
  | str s => s
  | v => v.nested

end Value

end Stencil
