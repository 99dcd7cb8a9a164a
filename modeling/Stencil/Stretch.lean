/-! Stretches of a list: where a part of it stands. -/

namespace Stencil

/-- The list has these elements from number `next` on. -/
def Holds {α : Type} (whole : List α) (next : Nat) (part : List α) : Prop :=
  part <+: whole.drop next

variable {α : Type} {whole part more : List α} {a : α} {next : Nat}

theorem Holds.refl (whole : List α) : Holds whole 0 whole := List.prefix_rfl

theorem Holds.head (h : Holds whole next (a :: part)) : whole[next]? = some a := by
  obtain ⟨rest, hrest⟩ := h
  rw [← List.head?_drop, ← hrest]
  rfl

theorem Holds.left (h : Holds whole next (part ++ more)) : Holds whole next part :=
  (List.prefix_append part more).trans h

theorem Holds.right (h : Holds whole next (part ++ more)) :
    Holds whole (next + part.length) more := by
  obtain ⟨rest, hrest⟩ := h
  refine ⟨rest, ?_⟩
  rw [← List.drop_drop, ← hrest, List.append_assoc, List.drop_left]

theorem Holds.tail (h : Holds whole next (a :: part)) : Holds whole (next + 1) part := by
  have hcons : Holds whole next ([a] ++ part) := h
  exact hcons.right

end Stencil
