import Stencil.Site.Basic

/-! The starter site: two pages that include a header, a menu and a footer, and a style sheet. -/

namespace Stencil.Site

open Files

namespace Starter

def page (title : String) : String :=
  "<!DOCTYPE html>\n<html>\n\x7b# templates/header.html #\x7d\n<body>\n  <h1>" ++ title ++
    "</h1>\n  \x7b# templates/nav.html #\x7d\n</body>\n\x7b# templates/footer.html #\x7d\n</html>"

def header : String :=
  "\n<head>\n  <title>My new site</title>\n" ++
    "  <link rel=\"stylesheet\" href=\"/css/style.css\" />\n</head>"

def footer : String :=
  "\n<footer>\n   <p><strong>Just example of footer</strong></p>\n" ++
    "   <p>&copy; Your name </p>\n</footer>"

def menuItem (target label : String) : String :=
  "\n    <li>\n      <a href=\"" ++ target ++ "\" class=\"active\">" ++ label ++ "</a>\n    </li>"

def menu : String :=
  "\n  <ul>" ++ menuItem "/" "Main" ++ menuItem "/about.html" "About" ++ "\n  </ul>"

def style : String := ".active \x7bfont-weight:bold;\x7d"

/-- The files with their paths below the root, in the order in which they are written. -/
def files : List (String × String) :=
  [(indexName, page "Welcome!"),
   ("about.html", page "About!"),
   ("templates/header.html", header),
   ("templates/footer.html", footer),
   ("templates/nav.html", menu),
   ("css/style.css", style)]

/-- Writes one file and gives its path. -/
def writeFile (root : String) (file : String × String) : Run String := do
  let path := Path.join root file.1
  match Path.parent? path with
  | some up => makeDirectories up
  | none => pure ()
  write path file.2
  return path

end Starter

/-- Writes the starter site below `root`. A root with an index is left alone unless `force`. -/
def create (root : String) (force : Bool) : Run (List String) := do
  if (← get).exists? (Path.join root indexName) && !force then throw (.siteExists root)
  Starter.files.mapM (Starter.writeFile root)

end Stencil.Site
