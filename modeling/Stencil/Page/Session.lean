import Stencil.Page.Assembly

/-! Work on one page. Its parents can be gone up, a text of it expanded and the page assembled, as
often as need be and over files that change in between; the pages that the last way up visited can
be looked up at any time. -/

namespace Stencil.Page

/-- The page as it was asked for, and the pages visited last, the requested one first. -/
structure Session where
  request : String
  history : List String

inductive Task where
  | inherit
  | expand (text : String)
  | flatten
  | assemble (data : Value)

namespace Session

def start (request : String) : Session := ⟨request, [normalize request]⟩

def record (s : Session) (v : Visit String) : Except Error String × Session :=
  (v.result, ⟨s.request, v.history⟩)

def perform (loader : Loader) (s : Session) : Task → Except Error String × Session
  | .inherit => s.record (Page.inherit loader s.request)
  | .expand text => (expandIncludes loader s.request text, s)
  | .flatten => s.record (Page.flatten loader s.request)
  | .assemble data => s.record (Page.assemble loader s.request data)

/-- The session after some tasks, each with the files as they are then. -/
def after (s : Session) (tasks : List (Loader × Task)) : Session :=
  tasks.foldl (fun s task => (s.perform task.1 task.2).2) s

end Session

end Stencil.Page
