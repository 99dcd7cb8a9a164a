import Stencil.Proofs.Scope.Reading

/-! A chain of scopes as one nested map: a round of a loop is the map of its item and, under
`..`, of the scope around it. Both resolve every name to the same value, and rendering reads a
scope in no other way. -/

namespace Stencil

namespace Scope

/-- The data that holds all scopes of a chain. -/
def nested : Scope → Value
  | top data => data
  | loop item outer => Value.ofEntries [("item", item), ("..", outer.nested)]

/-- Two scopes in which every name has the same value. -/
def Agree (s s' : Scope) : Prop := ∀ cs, s.resolveChars cs = s'.resolveChars cs

theorem resolveChars_ascend (s : Scope) (cs : List Char) :
    s.resolveChars ('.' :: '.' :: cs) = s.outer.resolveChars cs := by
  rw [resolveChars]

theorem resolveChars_here (s : Scope) {cs : List Char} (h : ∀ rest, cs ≠ '.' :: '.' :: rest) :
    s.resolveChars cs =
      (s.follow? ((Text.splitBy (· == '.') cs).map String.ofList)).getD .empty := by
  unfold resolveChars
  split
  · next rest => exact absurd rfl (h rest)
  · rfl

/-- The segments of a name hold no points, so none of them is `..`. -/
theorem segment_ne_ascend {cs : List Char} {key : String}
    (h : key ∈ (Text.splitBy (· == '.') cs).map String.ofList) : key ≠ ".." := by
  rintro rfl
  obtain ⟨part, hp, he⟩ := List.mem_map.1 h
  have hpart : part = ['.', '.'] := by rw [← String.toList_ofList (l := part), he]; rfl
  have := Text.not_of_mem_splitBy hp '.' (by simp [hpart])
  simp at this

theorem follow?_congr {s s' : Scope} {keys : List String}
    (h : ∀ key ∈ keys, s.lookup? key = s'.lookup? key) : s.follow? keys = s'.follow? keys := by
  cases keys with
  | nil => rfl
  | cons key keys => rw [follow?, follow?, h key List.mem_cons_self]

/-- Scopes agree if their outer scopes do and they hold the same segments. -/
theorem Agree.of_outer {s s' : Scope} (houter : Agree s.outer s'.outer)
    (hkeys : ∀ key, key ≠ ".." → s.lookup? key = s'.lookup? key) : Agree s s' := by
  intro cs
  by_cases h : ∃ rest, cs = '.' :: '.' :: rest
  · obtain ⟨rest, rfl⟩ := h
    rw [resolveChars_ascend, resolveChars_ascend, houter rest]
  · have h : ∀ rest, cs ≠ '.' :: '.' :: rest := fun rest he => h ⟨rest, he⟩
    rw [resolveChars_here s h, resolveChars_here s' h]
    congr 1
    exact follow?_congr fun key hk => hkeys key (segment_ne_ascend hk)

theorem Agree.loop {s s' : Scope} (h : Agree s s') (item : Value) :
    Agree (.loop item s) (.loop item s') :=
  .of_outer h fun _ _ => rfl

theorem get?_nested (item : Value) (s : Scope) (key : String) :
    (loop item s).nested.get? key =
      if key = ".." then some s.nested else if key = "item" then some item else none := by
  rw [nested, Value.ofEntries, Value.get?]
  simp only [Table.ofEntries, List.foldl_cons, List.foldl_nil, Table.get?_insert]
  rfl

theorem outer_nested (item : Value) (s : Scope) :
    (top (loop item s).nested).outer = top s.nested := by
  rw [outer, get?_nested, if_pos rfl, Option.getD_some]

theorem lookup?_nested (item : Value) (s : Scope) {key : String} (h : key ≠ "..") :
    (top (loop item s).nested).lookup? key = (loop item s).lookup? key := by
  have hget := get?_nested item s key
  rw [if_neg h] at hget
  exact hget

theorem agree_nested (s : Scope) : Agree s (top s.nested) := by
  induction s with
  | top data => exact fun _ => rfl
  | loop item outer ih =>
    refine .of_outer ?_ fun key hk => (lookup?_nested item outer hk).symm
    rw [outer_nested]
    exact ih

end Scope

theorem Node.renderAll_agree {s s' : Scope} (h : s.Agree s') (ns : List Node) :
    Node.renderAll s ns = Node.renderAll s' ns := by
  have hloop : Scope.LoopClosed fun _ s s' => s.Agree s' := fun _ _ _ item h => h.loop item
  have hfixes : Scope.Fixes (fun _ s s' => s.Agree s') (Node.allNames 0 ns) :=
    fun p _ _ _ h => h p.2.toList
  exact renderAll_congr hloop h ns hfixes

/-- A chain of scopes and the nested map it stands for give every name the same value and every
template the same text or fault. -/
theorem Scope.refines_nested (s : Scope) :
    (∀ name, s.resolve name = (Scope.top s.nested).resolve name) ∧
      ∀ t : Template, Node.renderAll s t = t.render s.nested :=
  ⟨fun name => s.agree_nested name.toList, fun t => Node.renderAll_agree s.agree_nested t⟩

end Stencil
