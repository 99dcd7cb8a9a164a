import Stencil.Page.Ancestry
import Stencil.Page.Inclusion

/-! Assembling a page: inheritance first, then inclusion, then compiling and rendering the text
that results. -/

namespace Stencil.Page

def Visit.bind {α β : Type} (v : Visit α) (f : α → Except Error β) : Visit β :=
  ⟨v.result.bind f, v.history⟩

/-- The template text of a page. -/
def flatten (loader : Loader) (page : String) : Visit String :=
  (inherit loader page).bind (expandIncludes loader page)

def compile (source : String) : Except Error Template :=
  (Template.compile source).mapError .malformed

def renderWith (data : Value) (t : Template) : Except Error String :=
  (t.render data).mapError .render

def assemble (loader : Loader) (page : String) (data : Value) : Visit String :=
  (flatten loader page).bind fun source => compile source >>= renderWith data

end Stencil.Page
