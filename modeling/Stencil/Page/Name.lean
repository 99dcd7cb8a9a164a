import Stencil.Text.Blank

/-! Names of pages as markers write them. Blanks and quotes around a name do not count, nor do
leading `/` and `./`. -/

namespace Stencil.Page

def isQuote (c : Char) : Bool := c == '"' || c == '\''

def dropLeading : List Char → List Char
  | '.' :: '/' :: cs => dropLeading cs
  | '/' :: cs => dropLeading cs
  | cs => cs

def normalize (name : String) : String :=
  String.ofList (dropLeading (Text.trim (Text.trimBy isQuote (Text.trim name.toList))))

end Stencil.Page
