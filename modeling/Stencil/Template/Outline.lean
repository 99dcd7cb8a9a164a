import Stencil.Template.Basic

/-! The outline of a template: its nodes in a flat list. The root comes first, with number 0, and
the nodes follow in the order in which they stand in the source, each with the numbers of its
children. -/

namespace Stencil

namespace Outline

/-- What an entry stands for; a conditional names the nodes of its two branches, which are its
children without the `else` markers. -/
inductive Shape where
  | root
  | text (s : String)
  | variable (name : String)
  | array (items : Operand)
  | conditional (header : Fragment) (test : Condition) (yes no : List Nat)
  | elseMark

structure Entry where
  id : Nat
  shape : Shape
  children : List Nat

def Entry.opensScope (e : Entry) : Bool :=
  match e.shape with
  | .array _ | .conditional .. => true
  | _ => false

mutual

/-- The number of nodes in a tree. -/
def size : Node → Nat
  | .array _ body => sizes body + 1
  | .conditional _ _ before after => sizes before + sizes after + 1
  | _ => 1

def sizes : List Node → Nat
  | [] => 0
  | n :: ns => size n + sizes ns

end

/-- The nodes with their numbers, the first one being `next`. -/
def number (next : Nat) : List Node → List (Nat × Node)
  | [] => []
  | n :: ns => (next, n) :: number (next + size n) ns

def ids (next : Nat) (nodes : List Node) : List Nat := (number next nodes).map (·.1)

/-- The numbers of the nodes that are no `else` markers. -/
def branchIds (next : Nat) (nodes : List Node) : List Nat :=
  ((number next nodes).filter (!·.2.isElse)).map (·.1)

mutual

/-- The entries of a tree whose top has number `id`. -/
def entries (id : Nat) : Node → List Entry
  | .text s => [⟨id, .text s, []⟩]
  | .variable name => [⟨id, .variable name, []⟩]
  | .elseMark => [⟨id, .elseMark, []⟩]
  | .array items body => ⟨id, .array items, ids (id + 1) body⟩ :: entriesList (id + 1) body
  | .conditional header test before after =>
    let middle := id + 1 + sizes before
    ⟨id, .conditional header test (branchIds (id + 1) before) (branchIds middle after),
        ids (id + 1) before ++ ids middle after⟩ ::
      (entriesList (id + 1) before ++ entriesList middle after)

def entriesList (next : Nat) : List Node → List Entry
  | [] => []
  | n :: ns => entries next n ++ entriesList (next + size n) ns

end

end Outline

/-- The root and all nodes of the template, in the order of their numbers. -/
def Template.outline (t : Template) : List Outline.Entry :=
  ⟨0, .root, Outline.ids 1 t⟩ :: Outline.entriesList 1 t

end Stencil
