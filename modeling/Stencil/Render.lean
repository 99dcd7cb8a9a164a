import Stencil.Scope
import Stencil.SyntaxError
import Stencil.Template.Basic
import Stencil.Template.Compile
import Stencil.Value.Display
import Stencil.Value.Order

/-! Rendering a template in a scope. A loop renders its body once for each item, in order, and a
conditional one of its branches; the first fault in that order ends the rendering. -/

namespace Stencil

inductive Operator where
  | lt
  | gt
  | eq
  | ne
  | le
  | ge
deriving DecidableEq

namespace Operator

def symbol : Operator → String
  | lt => "<"
  | gt => ">"
  | eq => "=="
  | ne => "!="
  | le => "<="
  | ge => ">="

def all : List Operator := [lt, gt, eq, ne, le, ge]

def ofSymbol? (symbol : String) : Option Operator := all.find? (·.symbol == symbol)

end Operator

inductive RenderError where
  | malformed (e : SyntaxError)
  | incomparable (lhs op rhs : String)
  | notIterable (expression found : String)
deriving DecidableEq

def RenderError.message : RenderError → String
  | malformed e => e.message
  | incomparable lhs op rhs => "Cannot compare " ++ lhs ++ " " ++ op ++ " " ++ rhs
  | notIterable expression found =>
    "Cannot loop over '" ++ expression ++ "': " ++ found ++ " is not iterable"

/-- Equality always has an answer; the other operators need values with an order. -/
def Operator.test (op : Operator) (a b : Value) : Except RenderError Bool :=
  let ordered (p : Ordering → Bool) : Except RenderError Bool :=
    match Value.compare? a b with
    | some o => .ok (p o)
    | none => .error (.incomparable a.typeName op.symbol b.typeName)
  match op with
  | eq => .ok (Value.eq a b)
  | ne => .ok (!Value.eq a b)
  | lt => ordered Ordering.isLT
  | gt => ordered Ordering.isGT
  | le => ordered Ordering.isLE
  | ge => ordered Ordering.isGE

namespace Operand

def evaluate (s : Scope) : Operand → Value
  | literal v => v
  | name text => s.resolve text

/-- How an operand is shown in a message. -/
def describe : Operand → String
  | literal v => v.display
  | name text => text

end Operand

/-- An unknown operator is a fault of the header, whatever the operands are. -/
def Condition.test (s : Scope) (header : Fragment) : Condition → Except RenderError Bool
  | truthy x => .ok (x.evaluate s).isTruthy
  | compare lhs op rhs =>
    match Operator.ofSymbol? op with
    | some o => o.test (lhs.evaluate s) (rhs.evaluate s)
    | none => .error (.malformed (.atFragment header (.unknownOperator op)))

/-- The items a loop over this operand walks over. -/
def Operand.items (s : Scope) (x : Operand) : Except RenderError (List Value) :=
  match (x.evaluate s).iterate? with
  | some items => .ok items
  | none => .error (.notIterable x.describe (x.evaluate s).typeName)

mutual

def Node.render (s : Scope) : Node → Except RenderError String
  | .text t => .ok t
  | .variable name => .ok (s.resolve name).display
  | .array items body => do
    let rounds ← (← items.items s).mapM fun item => Node.renderAll (.loop item s) body
    return String.join rounds
  | .conditional header test before after => do
    if ← test.test s header then Node.renderAll s before else Node.renderAll s after
  | .elseMark => .ok ""

def Node.renderAll (s : Scope) : List Node → Except RenderError String
  | [] => .ok ""
  | n :: ns => do
    let first ← n.render s
    return first ++ (← Node.renderAll s ns)

end

namespace Template

def render (t : Template) (data : Value) : Except RenderError String := Node.renderAll (.top data) t

/-- Compiles and renders in one step. -/
def renderSource (source : String) (data : Value) : Except RenderError String := do
  let t ← (compile source).mapError .malformed
  t.render data

end Template

end Stencil
