import Stencil.Fragment
import Stencil.Literal.Parse

/-! Templates: trees of text, variables, loops and conditionals. An `else` marker is a node like
any other; it renders nothing, and the first one in the body of a conditional parts that body. -/

namespace Stencil

/-- A part of a block header. -/
inductive Operand where
  | literal (v : Value)
  | name (text : String)

/-- A text that is no literal from its start to its end is a name. -/
def Operand.ofText (text : String) : Operand :=
  match Literal.parse text with
  | .ok v => literal v
  | .error _ => name text

/-- The operator is kept as written; whether it is one shows when the condition is tested. -/
inductive Condition where
  | truthy (x : Operand)
  | compare (lhs : Operand) (op : String) (rhs : Operand)

/-- The body of a conditional is `before`, which holds no `else` marker, and then `after`, which
starts with one unless it is empty. -/
inductive Node where
  | text (s : String)
  | variable (name : String)
  | array (items : Operand) (body : List Node)
  | conditional (header : Fragment) (test : Condition) (before after : List Node)
  | elseMark

abbrev Template := List Node

namespace Node

def isElse : Node → Bool
  | elseMark => true
  | _ => false

/-- Whether the nodes that follow go inside this one until a close marker. -/
def opensScope : Node → Bool
  | array .. | conditional .. => true
  | _ => false

/-- A conditional with its body parted at the first `else` marker. -/
def ofCondition (header : Fragment) (test : Condition) (body : List Node) : Node :=
  conditional header test (body.takeWhile (!·.isElse)) (body.dropWhile (!·.isElse))

end Node

end Stencil
