import Stencil.Proofs.Bounds.Compiler
import Stencil.Proofs.Bounds.Scanner
import Stencil.Proofs.Template.Arena

/-! The engine with checked accesses, from the source to the rendered text. The renderer is the walk
over the arena by numbers, each of which has to be the number of an entry. For all sources, streams
and data no access fails: there is a text or one of the errors, and it is that of the model. -/

namespace Stencil

namespace Outline.Checked

def render (arena : List Entry) (data : Value) : Checked RenderError String :=
  renderNode arena arena.length (.top data) 0

theorem render_eq (t : Template) (data : Value) :
    render t.outline data = Checked.of (t.render data) :=
  renderNode_root t (.top data)

end Outline.Checked

namespace Engine

def renderFragments (fragments : List Fragment) (data : Value) : Checked RenderError String := do
  let arena ← (Compile.Checked.build fragments).adapt .malformed
  Outline.Checked.render arena data

def renderSource (source : String) (data : Value) : Checked RenderError String := do
  renderFragments (← Checked.access (Fragment.checkedSource source)) data

theorem renderFragments_eq (fragments : List Fragment) (data : Value) :
    renderFragments fragments data = Checked.of (do
      let t ← (Template.ofFragments fragments).mapError .malformed
      t.render data) := by
  rw [renderFragments, Compile.Checked.build_eq]
  cases Template.ofFragments fragments with
  | error e => rfl
  | ok t => exact Outline.Checked.render_eq t data

/-- Every access is within its bounds, whatever the source, the text of an operand, the stream of
fragments and the data are. Names are looked up without accesses that can fail. -/
theorem accesses_within_bounds (source text : String) (fragments : List Fragment) (data : Value) :
    Fragment.checkedSource source = some (Fragment.ofSource source) ∧
      Literal.Checked.parse text = Checked.of (Literal.parse text) ∧
      Compile.Checked.build fragments =
        Checked.of ((Template.ofFragments fragments).map Template.outline) ∧
      renderFragments fragments data = Checked.of (do
        let t ← (Template.ofFragments fragments).mapError .malformed
        t.render data) ∧
      renderSource source data = Checked.of (Template.renderSource source data) := by
  refine ⟨Fragment.checkedSource_eq source, Literal.Checked.parse_eq text,
    Compile.Checked.build_eq fragments, renderFragments_eq fragments data, ?_⟩
  rw [renderSource, Fragment.checkedSource_eq, Checked.access_some_bind]
  exact renderFragments_eq (Fragment.ofSource source) data

end Engine

end Stencil
