import Stencil.Fallible
import Stencil.Render
import Stencil.Stretch
import Stencil.Template.Outline

/-! Rendering by numbers: an outline is an arena in which every entry names its children. A walk
along these numbers finds an entry for each of them and gives what rendering the nested template
gives. -/

namespace Stencil

theorem Node.eq_elseMark {n : Node} (h : n.isElse) : n = .elseMark := by
  cases n with
  | elseMark => rfl
  | _ => cases h

namespace Outline

section

variable {arena : List Entry} {next : Nat}

mutual

theorem length_entries (id : Nat) : ∀ n : Node, (entries id n).length = size n
  | .text _ => rfl
  | .variable _ => rfl
  | .elseMark => rfl
  | .array _ body => by rw [entries, List.length_cons, length_entriesList (id + 1) body, size]
  | .conditional _ _ before after => by
    rw [entries, List.length_cons, List.length_append, length_entriesList _ before,
      length_entriesList _ after, size]

theorem length_entriesList (next : Nat) : ∀ ns : List Node, (entriesList next ns).length = sizes ns
  | [] => rfl
  | n :: ns => by
    rw [entriesList, List.length_append, length_entries next n, length_entriesList _ ns, sizes]

end

theorem size_pos (n : Node) : 0 < size n := by
  cases n <;> simp [size]

theorem ids_cons (next : Nat) (n : Node) (ns : List Node) :
    ids next (n :: ns) = next :: ids (next + size n) ns := rfl

theorem entries_eq_cons (id : Nat) (n : Node) : ∃ e es, entries id n = e :: es := by
  cases n with
  | _ => simp [entries]

theorem holds_first {n : Node} {ns : List Node} (h : Holds arena next (entriesList next (n :: ns))) :
    Holds arena next (entries next n) :=
  h.left

theorem holds_others {n : Node} {ns : List Node} (h : Holds arena next (entriesList next (n :: ns))) :
    Holds arena (next + size n) (entriesList (next + size n) ns) :=
  length_entries next n ▸ h.right

theorem branchIds_cons (next : Nat) (n : Node) (ns : List Node) :
    branchIds next (n :: ns) =
      if n.isElse then branchIds (next + size n) ns
      else next :: branchIds (next + size n) ns := by
  unfold branchIds
  rw [number, List.filter_cons]
  cases n.isElse <;> rfl

end

namespace Checked

/-- The texts of entries that stand in a row. -/
def inRow (render : Nat → Checked RenderError String) : List Nat → Checked RenderError String
  | [] => return ""
  | id :: ids => do
    let first ← render id
    return first ++ (← inRow render ids)

/-- The text of an entry, in which at most `depth` entries stand in one another. -/
def renderNode (arena : List Entry) : (depth : Nat) → Scope → Nat → Checked RenderError String
  | 0, _, _ => Checked.access none
  | depth + 1, s, id => do
    let e ← Checked.access arena[id]?
    match e.shape with
    | .root => inRow (renderNode arena depth s) e.children
    | .text t => return t
    | .variable name => return (s.resolve name).display
    | .array items =>
      let found ← Checked.of (items.items s)
      let rounds ← found.mapM fun item => inRow (renderNode arena depth (.loop item s)) e.children
      return String.join rounds
    | .conditional header test yes no =>
      if ← Checked.of (test.test s header) then inRow (renderNode arena depth s) yes
      else inRow (renderNode arena depth s) no
    | .elseMark => return ""

variable {arena : List Entry} {depth next id : Nat} {s : Scope}

theorem inRow_cons (render : Nat → Checked RenderError String) {first : Except RenderError String}
    {rest : Except RenderError String} {ids : List Nat} (hid : render id = Checked.of first)
    (hids : inRow render ids = Checked.of rest) :
    inRow render (id :: ids) = Checked.of (do return (← first) ++ (← rest)) := by
  rw [inRow, hid, hids]
  cases first with
  | error e => rfl
  | ok t => cases rest <;> rfl

/-- Leaving out the `else` markers changes nothing. -/
theorem inRow_branchIds {ns : List Node} (hsize : sizes ns ≤ depth)
    (h : Holds arena next (entriesList next ns)) :
    inRow (renderNode arena depth s) (branchIds next ns) =
      inRow (renderNode arena depth s) (ids next ns) := by
  induction ns generalizing next with
  | nil => rfl
  | cons n ns ih =>
    rw [sizes] at hsize
    have hpos := size_pos n
    have ihns := ih (by omega) (holds_others h)
    rw [branchIds_cons, ids_cons]
    by_cases helse : n.isElse
    · obtain rfl := Node.eq_elseMark helse
      obtain ⟨depth, rfl⟩ : ∃ d, depth = d + 1 := ⟨depth - 1, by omega⟩
      have hmark : renderNode arena (depth + 1) s next = Checked.of (.ok "") := by
        rw [renderNode, (holds_first h).head]
        rfl
      rw [if_pos helse, ihns, inRow, hmark, Checked.of_ok_bind]
      simp
    · rw [if_neg helse, inRow, inRow, ihns]

mutual

theorem renderNode_eq {s : Scope} {depth id : Nat} : ∀ n : Node, size n ≤ depth + 1 →
    Holds arena id (entries id n) → renderNode arena (depth + 1) s id = Checked.of (n.render s)
  | .text _, _, h => by
    rw [renderNode, h.head, Node.render]
    rfl
  | .variable _, _, h => by
    rw [renderNode, h.head, Node.render]
    rfl
  | .elseMark, _, h => by
    rw [renderNode, h.head, Node.render]
    rfl
  | .array items body, hsize, h => by
    rw [size] at hsize
    rw [entries] at h
    have hbody := fun item =>
      inRow_ids (s := .loop item s) body (Nat.le_of_succ_le_succ hsize) h.tail
    rw [renderNode, h.head, Node.render, Checked.access_some_bind]
    simp only [hbody, Checked.of_mapM]
    cases items.items s with
    | error e => rfl
    | ok found =>
      rw [Checked.of_ok_bind, ok_bind]
      cases found.mapM fun item => Node.renderAll (.loop item s) body <;> rfl
  | .conditional header test before after, hsize, h => by
    rw [size] at hsize
    rw [entries] at h
    have hbefore := h.tail.left
    have hafter := h.tail.right
    rw [length_entriesList] at hafter
    have hfit : sizes before ≤ depth ∧ sizes after ≤ depth := by omega
    rw [renderNode, h.head, Node.render, Checked.access_some_bind]
    dsimp only
    rw [inRow_branchIds hfit.1 hbefore, inRow_branchIds hfit.2 hafter,
      inRow_ids before hfit.1 hbefore, inRow_ids after hfit.2 hafter]
    rcases test.test s header with e | _ | _ <;> rfl

theorem inRow_ids {s : Scope} {depth next : Nat} : ∀ ns : List Node, sizes ns ≤ depth →
    Holds arena next (entriesList next ns) →
      inRow (renderNode arena depth s) (ids next ns) = Checked.of (Node.renderAll s ns)
  | [], _, _ => by
    rw [Node.renderAll]
    rfl
  | n :: ns, hsize, h => by
    rw [sizes] at hsize
    have hpos := size_pos n
    obtain ⟨depth, rfl⟩ : ∃ d, depth = d + 1 := ⟨depth - 1, by omega⟩
    rw [ids_cons, Node.renderAll]
    exact inRow_cons _ (renderNode_eq n (by omega) (holds_first h))
      (inRow_ids ns (by omega) (holds_others h))

end

/-- From the root on all entries are found. -/
theorem renderNode_root (t : Template) (s : Scope) :
    renderNode t.outline t.outline.length s 0 = Checked.of (Node.renderAll s t) := by
  have hlength : t.outline.length = sizes t + 1 := by
    rw [Template.outline, List.length_cons, length_entriesList]
  have hbody : Holds t.outline 1 (entriesList 1 t) := (Holds.refl t.outline).tail
  rw [hlength, renderNode, (Holds.refl t.outline).head, Checked.access_some_bind]
  exact inRow_ids t (Nat.le_refl _) hbody

end Checked

end Outline

/-- Rendering along the numbers of the outline, from the root on. A number without an entry, which
there is none of by `renderNode_root`, would leave nothing to show. -/
def Template.renderOutline (t : Template) (s : Scope) : Except RenderError String :=
  (Outline.Checked.renderNode t.outline t.outline.length s 0).run.getD (.ok "")

theorem Template.renderOutline_eq (t : Template) (s : Scope) :
    t.renderOutline s = Node.renderAll s t := by
  rw [renderOutline, Outline.Checked.renderNode_root]
  rfl

end Stencil
