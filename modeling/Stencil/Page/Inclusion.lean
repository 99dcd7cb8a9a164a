import Stencil.Page.Loader

/-! Inclusion. Every include marker is replaced by the page it names, whose own markers are
replaced in the same way. The chain holds the requested page and the pages being included, the
innermost last; none of them may be included again inside. -/

namespace Stencil.Page

def includeMarker : Delimiter := ⟨"\x7b#", "#\x7d"⟩

theorem includeMarker_oneLine : includeMarker.OneLine := by decide

/-- Replaces the markers of one text, where `inner` expands an included one. -/
def expandPieces (loader : Loader) (inner : List String → String → Except Error String)
    (chain : List String) (text : String) : Except Error String := do
  let parts ← (scan [includeMarker] text).mapM fun piece =>
    match piece.inner? with
    | none => .ok piece.text
    | some target => do
      let path := normalize target
      if path ∈ chain then throw (.includeLoop path chain)
      inner (chain ++ [path]) (← loader.load path)
  return String.join parts

def expand (loader : Loader) : (depth : Nat) → (chain : List String) → String →
    Except Error String
  | 0 => expandPieces loader fun chain _ => .error (.includeLoop (chain.getLastD "") chain)
  | depth + 1 => expandPieces loader (expand loader depth)

/-- A text of the page with its includes expanded. All pages of a chain but the first are named by
markers in different places, so the bytes of all texts bound its length. -/
def expandIncludes (loader : Loader) (page text : String) : Except Error String :=
  expand loader (text.utf8ByteSize + loader.size) [normalize page] text

end Stencil.Page
