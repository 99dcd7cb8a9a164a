import Stencil.Proofs.Scope.Nested

/-! The way of a name: first out, one scope for each `..` at its start, and from there along the
segments of the rest. -/

namespace Stencil.Scope

/-- The number of `..` at the start of a name. -/
def ascents : List Char → Nat
  | '.' :: '.' :: rest => ascents rest + 1
  | _ => 0

/-- A name without the `..` at its start. -/
def stem : List Char → List Char
  | '.' :: '.' :: rest => stem rest
  | name => name

/-- The parts between the points of a name, behind the `..` at its start. A name that is nothing
else has one segment, which is empty. -/
def segments (name : String) : List String :=
  (Text.splitBy (· == '.') (stem name.toList)).map String.ofList

/-- The scope that so many `..` lead to. -/
def out : Scope → Nat → Scope
  | s, 0 => s
  | s, n + 1 => s.outer.out n

variable {cs : List Char}

theorem ascents_here (h : ∀ rest, cs ≠ '.' :: '.' :: rest) : ascents cs = 0 := by
  unfold ascents
  split
  · next rest => exact absurd rfl (h rest)
  · rfl

theorem stem_here (h : ∀ rest, cs ≠ '.' :: '.' :: rest) : stem cs = cs := by
  unfold stem
  split
  · next rest => exact absurd rfl (h rest)
  · rfl

theorem resolveChars_eq (s : Scope) (cs : List Char) :
    s.resolveChars cs = ((s.out (ascents cs)).follow?
      ((Text.splitBy (· == '.') (stem cs)).map String.ofList)).getD .empty := by
  induction cs using ascents.induct generalizing s with
  | case1 rest ih =>
    rw [resolveChars_ascend, ih, ascents, stem]
    rfl
  | case2 cs hhere =>
    rw [resolveChars_here s hhere, ascents_here hhere, stem_here hhere]
    rfl

theorem resolve_eq (s : Scope) (name : String) :
    s.resolve name = ((s.out (ascents name.toList)).follow? (segments name)).getD .empty :=
  s.resolveChars_eq name.toList

theorem splitBy_undotted (h : '.' ∉ cs) : Text.splitBy (· == '.') cs = [cs] :=
  Text.splitBy_of_not fun _ hc => beq_false_of_ne fun heq => h (heq ▸ hc)

/-- A name without points is looked up where it stands. -/
theorem resolve_undotted (s : Scope) {name : String} (h : '.' ∉ name.toList) :
    s.resolve name = (s.lookup? name).getD .empty := by
  have hhere : ∀ rest, name.toList ≠ '.' :: '.' :: rest := by
    intro rest heq
    exact h (heq ▸ List.mem_cons_self)
  rw [resolve, resolveChars_here s hhere, splitBy_undotted h, List.map_singleton,
    String.ofList_toList, follow?]
  cases s.lookup? name <;> rfl

end Stencil.Scope
