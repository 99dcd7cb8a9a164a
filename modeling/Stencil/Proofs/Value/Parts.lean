import Stencil.Value.Basic

/-! Parts of a value: the value itself and, at any depth, the items of its lists and the values in
its maps. Every lookup in a value finds a part of it. -/

namespace Stencil.Value

/-- The first value stands somewhere in the second, or is all of it. -/
inductive Part : Value → Value → Prop where
  | self (v : Value) : Part v v
  | item {u v : Value} {items : List Value} (h : v ∈ items) (part : Part u v) : Part u (list items)
  | entry {u v : Value} {key : String} {entries : List (String × Value)} (h : (key, v) ∈ entries)
    (part : Part u v) : Part u (map entries)

variable {u v w : Value} {key : String}

theorem Part.trans (h : Part u v) (h' : Part v w) : Part u w := by
  induction h' with
  | self => exact h
  | item hmem _ ih => exact .item hmem ih
  | entry hmem _ ih => exact .entry hmem ih

theorem part_of_get? (h : v.get? key = some u) : Part u v := by
  cases v with
  | map entries => exact .entry (mem_of_lookup h) (.self u)
  | _ => cases h

theorem part_of_segment? (h : v.segment? key = some u) : Part u v := by
  cases v with
  | map entries => exact part_of_get? (v := .map entries) h
  | list items =>
    obtain ⟨i, -, hi⟩ := Option.bind_eq_some_iff.1 h
    exact .item (List.mem_of_getElem? hi) (.self u)
  | _ => cases h

end Stencil.Value
