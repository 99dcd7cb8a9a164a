import Stencil.Proofs.Files.Ancestors

/-! The components of a path are its start and the parts that lead somewhere. Joining a path to
another one puts the components behind each other, and without `..` a path leads down by them. -/

namespace Stencil

namespace Path

/-- The components of a path with these parts. -/
def componentsOf (absolute : Bool) : List String → List String
  | [] => []
  | first :: rest =>
    if first == "." || absolute then first :: rest.filter (!isIdle ·)
    else (first :: rest).filter (!isIdle ·)

theorem components_eq (path : String) :
    components path = componentsOf (isAbsolute path) (parts path) := by
  rw [components, splitStart]
  cases parts path with
  | nil => rfl
  | cons first rest =>
    dsimp only
    rw [componentsOf]
    split <;> rfl

theorem componentsOf_append (absolute : Bool) {front : List String} (hfront : front ≠ [])
    (more : List String) : componentsOf absolute (front ++ more) =
      componentsOf absolute front ++ more.filter (!isIdle ·) := by
  cases front with
  | nil => exact absurd rfl hfront
  | cons first rest =>
    rw [List.cons_append, componentsOf, componentsOf]
    split
    · rw [List.filter_append, List.cons_append]
    · rw [← List.cons_append, List.filter_append]

end Path

namespace Files

variable {base path name : String} {parts : List String} {loc : Location} {s : Store}

theorem components_join (hbase : base ≠ "") (hrelative : Path.isAbsolute path = false) :
    Path.components (Path.join base path) =
      Path.components base ++ (Path.parts path).filter (!Path.isIdle ·) := by
  have hempty : base.isEmpty = false := by simpa using hbase
  rw [Path.join, hrelative, hempty, Path.components_eq, Path.components_eq]
  simp only [Bool.or_self, Bool.false_eq_true, if_false]
  split
  · next hslash =>
    obtain ⟨front, hfront⟩ := List.getLast?_eq_some_iff.1 (beq_iff_eq.1 hslash)
    obtain rfl : base = String.ofList front ++ "/" := by
      rw [← String.toList_inj, hfront]
      simp
    have hself := parts_slash (String.ofList front) ""
    rw [String.append_empty] at hself
    rw [isAbsolute_append hbase, parts_slash, hself,
      Path.componentsOf_append _ (parts_ne_nil _),
      Path.componentsOf_append _ (parts_ne_nil _)]
    simp [show Path.parts "" = [""] from rfl, Path.isIdle]
  · rw [parts_slash, String.append_assoc, isAbsolute_append hbase,
      Path.componentsOf_append _ (parts_ne_nil _)]

theorem components_join_name (hbase : base ≠ "") (hname : IsName name) :
    Path.components (Path.join base name) = Path.components base ++ [name] := by
  rw [components_join hbase (isAbsolute_of_whole hname.whole), parts_of_whole hname.whole]
  simp [hname.busy]

/-- Without `..` parts lead down by those that are not idle. -/
theorem foldl_move_down (hdown : ".." ∉ parts) (loc : Location) :
    parts.foldl move loc = loc ++ parts.filter (!Path.isIdle ·) := by
  induction parts generalizing loc with
  | nil => exact (List.append_nil loc).symm
  | cons part parts ih =>
    rw [List.mem_cons, not_or] at hdown
    rw [List.foldl_cons, ih hdown.2, move, List.filter_cons]
    cases hidle : Path.isIdle part with
    | true => rfl
    | false => simp [Ne.symm hdown.1]

/-- Such an absolute path has the slash and its address for components. -/
theorem components_absolute (habsolute : Path.isAbsolute path) (hdown : ".." ∉ Path.parts path) :
    Path.components path = "" :: s.address path := by
  obtain ⟨part, rest, hparts⟩ := isAbsolute_iff.1 habsolute
  rw [Path.components_eq, Store.address_eq_foldl, if_pos habsolute, foldl_move_down hdown,
    habsolute, hparts]
  simp [Path.componentsOf, Path.isIdle]

end Files

end Stencil
