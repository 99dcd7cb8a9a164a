import Stencil.Page.Document

/-! Substitution after substitution. Content put into a page by a first substitution is filled by a
second one as any other part of the page, and blocks that both name have the content of the second.
So two substitutions come to a single one. -/

namespace Stencil

namespace Table

variable {α β : Type}

theorem get?_map (f : α → β) (t : Table α) (key : String) :
    get? (t.map fun e => (e.1, f e.2)) key = (t.get? key).map f := by
  induction t with
  | nil => rfl
  | cons e rest ih =>
    rw [List.map_cons, get?_cons, get?_cons, ih]
    split <;> rfl

theorem keys_map (f : α → β) (t : Table α) : keys (t.map fun e => (e.1, f e.2)) = t.keys := by
  rw [keys, keys, List.map_map]
  rfl

/-- Entries put over a table hide what it has under their keys. -/
theorem get?_foldr_insert (entries t : Table α) (key : String) :
    get? (entries.foldr (fun e t => insert e.1 e.2 t) t) key =
      (entries.get? key).or (t.get? key) := by
  induction entries with
  | nil => rfl
  | cons e rest ih =>
    rw [List.foldr_cons, get?_insert, get?_cons, ih]
    split <;> rfl

theorem sorted_foldr_insert {t : Table α} (h : t.Sorted) (entries : Table α) :
    (entries.foldr (fun e t => insert e.1 e.2 t) t).Sorted := by
  induction entries with
  | nil => exact h
  | cons e rest ih => exact ih.insert e.1 e.2

end Table

open Segment

namespace Overrides

/-- What the second overrides say, and else what the first ones say, filled by the second. -/
def andThen (first second : Overrides) : Overrides :=
  second.foldr (fun e o => Table.insert e.1 e.2 o)
    (first.map fun e => (e.1, substituteAll second e.2))

variable {first second o o' : Overrides}

theorem get?_andThen (name : String) :
    Table.get? (first.andThen second) name =
      (Table.get? second name).or ((Table.get? first name).map (substituteAll second)) := by
  rw [andThen, Table.get?_foldr_insert, Table.get?_map]

theorem get?_andThen_self (name : String) :
    Table.get? (o.andThen o) name = Table.get? o name := by
  rw [get?_andThen]
  cases Table.get? o name <;> rfl

theorem sorted_andThen (h : Table.Sorted first) : Table.Sorted (first.andThen second) := by
  refine Table.sorted_foldr_insert ?_ second
  rwa [Table.Sorted, Table.keys_map]

mutual

/-- Only what is found under a name counts. -/
theorem substitute_congr (h : ∀ name, Table.get? o name = Table.get? o' name) :
    (s : Segment) → substitute o s = substitute o' s
  | text _ => rfl
  | block name children => by
    rw [substitute, substitute, h name, substituteAll_congr h children]

theorem substituteAll_congr (h : ∀ name, Table.get? o name = Table.get? o' name) :
    (ss : List Segment) → substituteAll o ss = substituteAll o' ss
  | [] => rfl
  | s :: ss => by
    rw [substituteAll, substituteAll, substitute_congr h s, substituteAll_congr h ss]

end

mutual

theorem substitute_andThen :
    (s : Segment) → substitute second (substitute first s) = substitute (first.andThen second) s
  | text _ => rfl
  | block name children => by
    rw [substitute, substitute, get?_andThen]
    cases hfirst : Table.get? first name with
    | some content =>
      rw [substitute]
      cases Table.get? second name <;> rfl
    | none =>
      -- the block is left open by the first, so the second meets its filled children
      rw [substitute, substituteAll_andThen children]
      cases Table.get? second name <;> rfl

theorem substituteAll_andThen :
    (ss : List Segment) →
      substituteAll second (substituteAll first ss) = substituteAll (first.andThen second) ss
  | [] => rfl
  | s :: ss => by
    rw [substituteAll, substituteAll, substituteAll, substitute_andThen s,
      substituteAll_andThen ss]

end

end Overrides

/-- Substituting twice is substituting once, by overrides that give a name what the second say, and
a name of the first alone what they say with the second substituted in it. The same overrides may
as well be substituted once. -/
theorem Document.substitute_substitute (d : Document) (first second : Overrides) :
    (d.substitute first).substitute second = d.substitute (first.andThen second) ∧
      (∀ name, Table.get? (first.andThen second) name =
        (Table.get? second name).or ((Table.get? first name).map (substituteAll second))) ∧
      (Table.Sorted first → Table.Sorted (first.andThen second)) ∧
      (d.substitute first).substitute first = d.substitute first := by
  have htwice (o : Overrides) :
      (d.substitute first).substitute o = d.substitute (first.andThen o) :=
    congrArg (Document.mk d.parents) (Overrides.substituteAll_andThen d.segments)
  refine ⟨htwice second, Overrides.get?_andThen, Overrides.sorted_andThen, ?_⟩
  rw [htwice first]
  exact congrArg (Document.mk d.parents)
    (Overrides.substituteAll_congr Overrides.get?_andThen_self d.segments)

/-- The first gives `a` a block `b`, the second gives `b` a block `a`; `c` stands around both. -/
theorem Document.substitute_substitute_crossed :
    Table.Sorted [("a", [Segment.block "b" [.text "x"]])] ∧
      Table.Sorted (Overrides.andThen [("a", [.block "b" [.text "x"]])]
        [("b", [.block "a" [.text "y"]])]) ∧
      ((Document.mk [] [.block "c" [.block "a" [], .block "b" []]]).substitute
          [("a", [.block "b" [.text "x"]])]).substitute [("b", [.block "a" [.text "y"]])] =
        ⟨[], [.block "c" [.block "a" [.block "b" [.block "a" [.text "y"]]],
          .block "b" [.block "a" [.text "y"]]]]⟩ := by
  have hsorted : Table.Sorted [("a", [Segment.block "b" [.text "x"]])] :=
    List.pairwise_singleton _ _
  have h := Document.substitute_substitute ⟨[], [.block "c" [.block "a" [], .block "b" []]]⟩
    [("a", [.block "b" [.text "x"]])] [("b", [.block "a" [.text "y"]])]
  exact ⟨hsorted, h.2.2.1 hsorted, h.1⟩

end Stencil
