/-! How deep a stream has come. Some of its entries open a block and some close the innermost open
one; the others leave the depth as it is. -/

namespace Stencil

variable {α : Type} {opens closes : α → Bool} {before : List α} {x : α} {depth : Nat}

theorem countP_snoc (p : α → Bool) (before : List α) (x : α) :
    (before ++ [x]).countP p = before.countP p + if p x then 1 else 0 := by
  rw [List.countP_append, List.countP_singleton]

/-- The stream opened `depth` blocks more than it closed. -/
def OpenAfter (opens closes : α → Bool) (before : List α) (depth : Nat) : Prop :=
  depth + before.countP closes = before.countP opens

namespace OpenAfter

theorem nil : OpenAfter opens closes [] 0 := rfl

theorem keep (h : OpenAfter opens closes before depth) (hopens : opens x = false)
    (hcloses : closes x = false) : OpenAfter opens closes (before ++ [x]) depth := by
  unfold OpenAfter at h ⊢
  simpa [countP_snoc, hopens, hcloses] using h

theorem opened (h : OpenAfter opens closes before depth) (hopens : opens x = true)
    (hcloses : closes x = false) : OpenAfter opens closes (before ++ [x]) (depth + 1) := by
  unfold OpenAfter at h ⊢
  simp only [countP_snoc, hopens, hcloses, if_true, Bool.false_eq_true, if_false]
  omega

theorem closed (h : OpenAfter opens closes before (depth + 1)) (hopens : opens x = false)
    (hcloses : closes x = true) : OpenAfter opens closes (before ++ [x]) depth := by
  unfold OpenAfter at h ⊢
  simp only [countP_snoc, hopens, hcloses, if_true, Bool.false_eq_true, if_false]
  omega

theorem eq_zero_iff (h : OpenAfter opens closes before depth) :
    depth = 0 ↔ before.countP opens ≤ before.countP closes := by
  unfold OpenAfter at h
  omega

end OpenAfter

end Stencil
