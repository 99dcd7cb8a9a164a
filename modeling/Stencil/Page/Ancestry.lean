import Stencil.Fallible
import Stencil.Page.Document
import Stencil.Page.Loader

/-! Inheritance. A page that names a parent gives its blocks to the parent, which gives them on
with its own to its parent, up to a page without one. The content declared nearest to the requested
page wins. -/

namespace Stencil.Page

/-- The result of climbing from a page to the top, and the pages visited, the requested one
first. -/
structure Visit (α : Type) where
  result : Except Error α
  history : List String

/-- A page on the way up, with what the pages below it declare. -/
structure Climb where
  page : String
  document : Document
  overrides : Overrides
  history : List String

namespace Climb

def fail (c : Climb) (e : Error) : Visit String := ⟨.error e, c.history⟩

/-- The parent of a page by its normalized name; a page has at most one. -/
def parent? (c : Climb) : Except Error (Option String) :=
  match c.document.parents with
  | [] => .ok none
  | [parent] => .ok (some (normalize parent))
  | markers => .error (.severalParents c.page markers.length)

theorem parents_of_parent?_none {c : Climb} (h : c.parent? = .ok none) :
    c.document.parents = [] := by
  unfold parent? at h
  split at h
  · assumption
  · exact nomatch h
  · exact nomatch h

theorem parents_of_parent?_some {c : Climb} {parent : String}
    (h : c.parent? = .ok (some parent)) :
    ∃ marker, c.document.parents = [marker] ∧ parent = normalize marker := by
  unfold parent? at h
  split at h
  · exact nomatch h
  · next marker hparents => exact ⟨marker, hparents, (Option.some.inj (Except.ok.inj h)).symm⟩
  · exact nomatch h

/-- The page as the pages below it leave it. -/
def filled (c : Climb) : Document := c.document.substitute c.overrides

/-- What the pages up to and with this one declare. -/
def declared (c : Climb) : Overrides :=
  c.filled.blocks.foldl (fun o b => Table.insert b.1 b.2 o) c.overrides

end Climb

def loadDocument (loader : Loader) (page : String) : Except Error Document := do
  (Document.parse (← loader.load page)).mapError .malformed

theorem loadDocument_eq_ok {loader : Loader} {page : String} {d : Document}
    (h : loadDocument loader page = .ok d) :
    ∃ text, loader.load page = .ok text ∧ Document.parse text = .ok d := by
  obtain ⟨text, hload, hparse⟩ := bind_eq_ok h
  exact ⟨text, hload, mapError_eq_ok hparse⟩

/-- A page that cannot be read is missing or malformed. -/
theorem loadDocument_eq_error {loader : Loader} {page : String} {e : Error}
    (h : loadDocument loader page = .error e) :
    (∃ detail, e = .missing (normalize page) detail) ∨ ∃ fault, e = .malformed fault := by
  rcases bind_eq_error h with hload | ⟨text, -, hparse⟩
  · exact .inl (Loader.load_eq_error hload)
  · obtain ⟨fault, -, rfl⟩ := mapError_eq_error hparse
    exact .inr ⟨fault, rfl⟩

/-- The way up from a page. A page whose parent is on the way already has no top. -/
def climb (loader : Loader) : (fuel : Nat) → Climb → Visit String
  | 0, c => c.fail (.parentLoop c.page c.history)
  | fuel + 1, c =>
    match c.parent? with
    | .error e => c.fail e
    | .ok none => ⟨.ok c.filled.flatten, c.history⟩
    | .ok (some parent) =>
      match c.document.duplicateBlock? with
      | some name => c.fail (.duplicateBlock c.page name)
      | none =>
        if parent ∈ c.history then c.fail (.parentLoop parent c.history)
        else
          let history := c.history ++ [parent]
          match loadDocument loader parent with
          | .error e => ⟨.error e, history⟩
          | .ok document => climb loader fuel ⟨parent, document, c.declared, history⟩

/-- The text of the topmost ancestor with all blocks filled and all markers of blocks removed.
Every page on the way but the last has a text of its own, so the texts bound the way. -/
def inherit (loader : Loader) (page : String) : Visit String :=
  let page := normalize page
  match loadDocument loader page with
  | .error e => ⟨.error e, [page]⟩
  | .ok document => climb loader (loader.texts.length + 1) ⟨page, document, [], [page]⟩

end Stencil.Page
