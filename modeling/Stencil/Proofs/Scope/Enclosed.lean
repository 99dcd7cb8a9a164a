import Stencil.Fallible
import Stencil.Proofs.Scope.Outward

/-! Loop bodies that keep to their items. A name looks out of its loop by `..` alone, so a body in
which no name goes further out than the loops of the body around it renders by its item, whatever
scope the loop stands in. -/

namespace Stencil

namespace Scope

variable {s s' : Scope} {depth n : Nat}

/-- Scopes whose `depth + 1` innermost rounds are of the same items. -/
inductive SameItems : (depth : Nat) → Scope → Scope → Prop where
  | round (item : Value) (s s' : Scope) : SameItems 0 (loop item s) (loop item s')
  | inner {depth : Nat} {s s' : Scope} (item : Value) (h : SameItems depth s s') :
    SameItems (depth + 1) (loop item s) (loop item s')

/-- The way out leads from round to round of the same item as far as the items are the same. -/
theorem SameItems.out (h : SameItems depth s s') (hn : n ≤ depth) :
    ∃ item t t', s.out n = loop item t ∧ s'.out n = loop item t' := by
  induction h generalizing n with
  | round item s s' =>
    obtain rfl := Nat.le_zero.1 hn
    exact ⟨item, s, s', rfl, rfl⟩
  | @inner depth s s' item _ ih =>
    cases n with
    | zero => exact ⟨item, s, s', rfl, rfl⟩
    | succ n => exact ih (Nat.le_of_succ_le_succ hn)

theorem SameItems.resolve_eq {name : String} (h : SameItems depth s s')
    (hname : ascents name.toList ≤ depth) : s.resolve name = s'.resolve name := by
  obtain ⟨item, t, t', hs, hs'⟩ := h.out hname
  have hfollow : (loop item t).follow? (segments name) = (loop item t').follow? (segments name) :=
    follow?_congr fun _ _ => rfl
  rw [Scope.resolve_eq, Scope.resolve_eq, hs, hs', hfollow]

end Scope

/-- No name in a loop body goes further out than the loops around it in this body. The operand of
a loop counts as outside that loop. -/
def Template.KeepsInside (body : Template) : Prop :=
  ∀ p ∈ Node.allNames 0 body, Scope.ascents p.2.toList ≤ p.1

/-- A round of such a body shows its item, and the loop its items; nothing else of the scopes
around it makes a difference. -/
theorem Template.render_keepsInside {body : Template} (h : body.KeepsInside) :
    (∀ item s s', Node.renderAll (.loop item s) body = Node.renderAll (.loop item s') body) ∧
      ∀ items s s', Operand.items s items = Operand.items s' items →
        (Node.array items body).render s = (Node.array items body).render s' := by
  have hloop : Scope.LoopClosed Scope.SameItems := fun _ _ _ item hs => .inner item hs
  have hfixes : Scope.Fixes Scope.SameItems (Node.allNames 0 body) := by
    intro p hp s s' hs
    exact hs.resolve_eq (h p hp)
  have hround : ∀ item s s', Node.renderAll (.loop item s) body =
      Node.renderAll (.loop item s') body := by
    intro item s s'
    exact Node.renderAll_congr hloop (.round item s s') body hfixes
  refine ⟨hround, fun items s s' hitems => ?_⟩
  rw [Node.render, Node.render, hitems, funext fun item => hround item s s']

/-- A body with a loop in it that goes out to the item around it, once with a point too many. -/
def albumBody : Template :=
  let header : Fragment := ⟨.opening, "", "if item == 'b'", ⟨0, 0, 1, 1⟩⟩
  [.variable "item.title",
    .array (.name "item.songs") [.variable "item",
      .conditional header (.compare (.name "item") "==" (.literal (.str "b")))
        [.variable "...item"] [.elseMark, .variable "..item.title"]]]

def albumItem : Value := .map [("songs", .list [.str "a", .str "b"]), ("title", .str "-")]

theorem Template.render_keepsInside_album :
    albumBody.KeepsInside ∧
      Node.renderAll (.loop albumItem (.top .none)) albumBody = .ok "-a-b" ∧
      Node.renderAll (.loop albumItem (.loop (.int 7) (.top (.map [("item", .str "out")]))))
        albumBody = .ok "-a-b" ∧
      (Node.array (.literal (.list [albumItem])) albumBody).render (.top .none) =
        (Node.array (.literal (.list [albumItem])) albumBody).render (.top (.int 7)) := by
  have hkeeps : albumBody.KeepsInside := by
    unfold Template.KeepsInside
    decide +kernel
  have hshown : Node.renderAll (.loop albumItem (.top .none)) albumBody = .ok "-a-b" :=
    eq_ok_of_toOption (by decide +kernel)
  obtain ⟨hround, hloop⟩ := render_keepsInside hkeeps
  exact ⟨hkeeps, hshown, (hround albumItem _ _).trans hshown, hloop _ _ _ rfl⟩

end Stencil
