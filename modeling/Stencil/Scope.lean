import Stencil.Text.Blank
import Stencil.Value.Basic

/-! Scopes and names. The outermost scope is the data a template is rendered against; every round
of a loop adds a scope that knows the item only. A leading `..` of a name goes one scope out. -/

namespace Stencil

inductive Scope where
  | top (data : Value)
  | loop (item : Value) (outer : Scope)

namespace Scope

/-- Outside the data lies its own entry for `..`, or an empty map. -/
def outer : Scope → Scope
  | top data => top ((data.get? "..").getD (.map []))
  | loop _ outer => outer

def lookup? (s : Scope) (key : String) : Option Value :=
  match s with
  | top data => data.segment? key
  | loop item _ => if key = "item" then some item else none

/-- Follows the first segment in the scope and the others in the value found. -/
def follow? (s : Scope) : List String → Option Value
  | [] => none
  | key :: keys => keys.foldlM Value.segment? =<< s.lookup? key

def resolveChars (s : Scope) : List Char → Value
  | '.' :: '.' :: rest => s.outer.resolveChars rest
  | name => (s.follow? ((Text.splitBy (· == '.') name).map String.ofList)).getD .empty

/-- The value of a dotted name; a name that leads nowhere has the empty text. -/
def resolve (s : Scope) (name : String) : Value := s.resolveChars name.toList

end Scope

end Stencil
