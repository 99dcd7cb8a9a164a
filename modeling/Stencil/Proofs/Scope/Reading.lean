import Stencil.Render

/-! What rendering reads of a scope: the values of the names in the template and nothing else.
Loops add scopes on the way down, so each name counts together with the number of loops around
it. -/

namespace Stencil

def Operand.names : Operand → List String
  | literal _ => []
  | name text => [text]

def Condition.names : Condition → List String
  | truthy x => x.names
  | compare lhs _ rhs => lhs.names ++ rhs.names

mutual

/-- The names in a node, each with the number of loops around it, counted from `depth`. -/
def Node.names (depth : Nat) : Node → List (Nat × String)
  | .text _ => []
  | .variable name => [(depth, name)]
  | .array items body => items.names.map (depth, ·) ++ Node.allNames (depth + 1) body
  | .conditional _ test before after =>
    test.names.map (depth, ·) ++ (Node.allNames depth before ++ Node.allNames depth after)
  | .elseMark => []

def Node.allNames (depth : Nat) : List Node → List (Nat × String)
  | [] => []
  | n :: ns => n.names depth ++ Node.allNames depth ns

end

namespace Scope

/-- A relation of scopes under every number of loops, which one more round of a loop keeps. -/
def LoopClosed (R : Nat → Scope → Scope → Prop) : Prop :=
  ∀ depth s s' item, R depth s s' → R (depth + 1) (.loop item s) (.loop item s')

/-- Related scopes give these names the same values. -/
def Fixes (R : Nat → Scope → Scope → Prop) (names : List (Nat × String)) : Prop :=
  ∀ p ∈ names, ∀ s s', R p.1 s s' → s.resolve p.2 = s'.resolve p.2

end Scope

open Scope

section

variable {R : Nat → Scope → Scope → Prop} {depth : Nat} {s s' : Scope}

theorem Scope.Fixes.left {ps qs : List (Nat × String)} (h : Fixes R (ps ++ qs)) : Fixes R ps :=
  fun p hp => h p (List.mem_append_left _ hp)

theorem Scope.Fixes.right {ps qs : List (Nat × String)} (h : Fixes R (ps ++ qs)) : Fixes R qs :=
  fun p hp => h p (List.mem_append_right _ hp)

theorem Operand.evaluate_congr {x : Operand} (hR : R depth s s')
    (h : Fixes R (x.names.map (depth, ·))) : x.evaluate s = x.evaluate s' := by
  cases x with
  | literal v => rfl
  | name text => exact h (depth, text) (by simp [Operand.names]) s s' hR

theorem Operand.items_congr {x : Operand} (hR : R depth s s')
    (h : Fixes R (x.names.map (depth, ·))) : x.items s = x.items s' := by
  unfold Operand.items
  rw [Operand.evaluate_congr hR h]

theorem Condition.test_congr {c : Condition} {header : Fragment} (hR : R depth s s')
    (h : Fixes R (c.names.map (depth, ·))) : c.test s header = c.test s' header := by
  cases c with
  | truthy x => rw [Condition.test, Condition.test, Operand.evaluate_congr hR h]
  | compare lhs op rhs =>
    rw [Condition.names, List.map_append] at h
    rw [Condition.test, Condition.test, Operand.evaluate_congr hR h.left,
      Operand.evaluate_congr hR h.right]

end

mutual

/-- Scopes that are related under as many loops as stand around a node render it alike. -/
theorem Node.render_congr {R : Nat → Scope → Scope → Prop} (hloop : LoopClosed R) {depth : Nat}
    {s s' : Scope} (hR : R depth s s') :
    ∀ n : Node, Fixes R (n.names depth) → n.render s = n.render s'
  | .text t, _ => by rw [Node.render, Node.render]
  | .variable name, h => by
    have hname : s.resolve name = s'.resolve name :=
      h (depth, name) (by simp [Node.names]) s s' hR
    rw [Node.render, Node.render, hname]
  | .array items body, h => by
    rw [Node.names] at h
    have hbody : (fun item => Node.renderAll (.loop item s) body) =
        fun item => Node.renderAll (.loop item s') body :=
      funext fun item => Node.renderAll_congr hloop (hloop depth s s' item hR) body h.right
    rw [Node.render, Node.render, Operand.items_congr hR h.left, hbody]
  | .conditional header test before after, h => by
    rw [Node.names] at h
    rw [Node.render, Node.render, Condition.test_congr hR h.left,
      Node.renderAll_congr hloop hR before h.right.left,
      Node.renderAll_congr hloop hR after h.right.right]
  | .elseMark, _ => by rw [Node.render, Node.render]

theorem Node.renderAll_congr {R : Nat → Scope → Scope → Prop} (hloop : LoopClosed R) {depth : Nat}
    {s s' : Scope} (hR : R depth s s') :
    ∀ ns : List Node, Fixes R (Node.allNames depth ns) →
      Node.renderAll s ns = Node.renderAll s' ns
  | [], _ => by rw [Node.renderAll, Node.renderAll]
  | n :: ns, h => by
    rw [Node.allNames] at h
    rw [Node.renderAll, Node.renderAll, Node.render_congr hloop hR n h.left,
      Node.renderAll_congr hloop hR ns h.right]

end

end Stencil
