import Stencil.Files.Store
import Stencil.Page.Assembly

/-! Sites: directories of pages. What can go wrong around the pages, and how pages are read. -/

namespace Stencil.Site

open Files

inductive Error where
  | file (path : String) (fault : Fault)
  | listing (root : String) (fault : Fault)
  | siteExists (root : String)
  | missingIndex (root : String)
  | outputExists (path : String)
  | malformedContext (path : String)
  | wrongContext (path found : String)
deriving DecidableEq

/-- The text shown for an error. What the JSON reader has against a malformed context, and where, is
left out: every such file gets the same words. -/
def Error.message : Error → String
  | file path fault => path ++ ": " ++ fault.message
  | listing root fault =>
    root ++ ": IO error for operation on " ++ root ++ ": " ++ fault.message
  | siteExists root => "There is already an index.html in " ++ root ++ ", use --force to overwrite it"
  | missingIndex root => "index.html not found in " ++ root ++ ", create a site with `quill new`"
  | outputExists path =>
    "Output directory " ++ path ++ " already exists, use --force to rebuild into it"
  | malformedContext path => "Invalid context file " ++ path ++ ": malformed JSON"
  | wrongContext path found =>
    "Invalid context file " ++ path ++ ": expected a JSON object, found " ++ found

abbrev Run (α : Type) := Action Error α

def makeDirectories (path : String) : Run Unit :=
  ExceptT.adapt (.file path) (Files.makeDirectories path)

def write (path text : String) : Run Unit :=
  Action.change (·.write path text.toUTF8) (.file path)

def indexName : String := "index.html"

/-- Reads pages from the files below `root`. -/
def loader (s : Store) (root : String) : Page.Loader where
  read name := (s.readText (Path.join root name)).mapError Fault.message
  texts := s.texts
  mem_texts {name text} h := by
    cases hr : s.readText (Path.join root name) with
    | error => rw [hr] at h; cases h
    | ok t => rw [hr] at h; cases h; exact Store.mem_texts_of_readText hr

end Stencil.Site
