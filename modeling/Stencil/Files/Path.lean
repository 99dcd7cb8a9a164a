import Stencil.Text.Blank

/-! Paths as texts, with `/` between their parts. Joining keeps paths as they are written: nothing
is simplified, and an absolute path replaces what it is joined to. -/

namespace Stencil.Path

def isAbsolute (path : String) : Bool := path.toList.head? == some '/'

/-- A path that ends in a slash can only mean a directory. -/
def endsInSlash (path : String) : Bool := path.toList.getLast? == some '/'

def join (base path : String) : String :=
  if isAbsolute path || base.isEmpty then path
  else if endsInSlash base then base ++ path
  else base ++ "/" ++ path

/-- What stands between the slashes. -/
def parts (path : String) : List String :=
  (Text.splitBy (· == '/') path.toList).map String.ofList

def ofParts (parts : List String) : String := "/".intercalate parts

/-- The parts without the empty ones that slashes at the end leave. -/
def dropSlashEnd (parts : List String) : List String :=
  (parts.reverse.dropWhile (·.isEmpty)).reverse

/-- Parts that lead nowhere. -/
def isIdle (part : String) : Bool := part.isEmpty || part == "."

/-- The part at the start that says where the path starts, and the others. -/
def splitStart (path : String) : List String × List String :=
  match parts path with
  | first :: rest =>
    if first == "." || isAbsolute path then ([first], rest) else ([], first :: rest)
  | [] => ([], [])

/-- The start if it is written, and the parts that lead somewhere. -/
def components (path : String) : List String :=
  let (start, rest) := splitStart path
  start ++ rest.filter (!isIdle ·)

/-- Whether a path is the other one or lies below it, part by part. -/
def startsWith (path base : String) : Bool := (components base).isPrefixOf (components path)

def dropIdleEnd (parts : List String) : List String :=
  (parts.reverse.dropWhile isIdle).reverse

/-- The path without its last part; the top and the empty path have no parent. -/
def parent? (path : String) : Option String :=
  let (start, rest) := splitStart path
  match dropIdleEnd rest with
  | [] => if start == ["."] then some "" else none
  | body =>
    let kept := start ++ dropIdleEnd body.dropLast
    some (if kept == [""] then "/" else ofParts kept)

end Stencil.Path
