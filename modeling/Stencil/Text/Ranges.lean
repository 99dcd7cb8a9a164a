/-! Sets of characters given by ranges of code points, both ends included. -/

namespace Stencil.Text

def inRanges (ranges : List (Nat × Nat)) (c : Char) : Bool :=
  ranges.any fun r => r.1 ≤ c.toNat && c.toNat ≤ r.2

/-- A character in one of two sets whose ranges all lie apart is not in the other set. -/
theorem not_inRanges_of_apart {ranges others : List (Nat × Nat)} {c : Char}
    (apart : ∀ r ∈ ranges, ∀ s ∈ others, r.2 < s.1 ∨ s.2 < r.1) (h : inRanges others c) :
    ¬inRanges ranges c := by
  intro hc
  simp only [inRanges, List.any_eq_true, Bool.and_eq_true, decide_eq_true_eq] at h hc
  obtain ⟨s, hs, hlow, hhigh⟩ := h
  obtain ⟨r, hr, hlow', hhigh'⟩ := hc
  have hapart := apart r hr s hs
  omega

end Stencil.Text
