import Stencil.Json.Parse
import Stencil.Site.Basic

/-! Building a site: every page at the top of the root is assembled into the output directory, then
the style sheets are copied there. A page that fails does not keep the others from being built. -/

namespace Stencil.Site

open Files

/-- `output` is relative to `root` unless it is absolute; `context` is a file with a JSON object. -/
structure Options where
  root : String
  output : String
  force : Bool
  context : Option String
deriving DecidableEq

/-- The files written and the pages that failed, each in the order of the pages. -/
structure Report where
  pages : List String
  failures : List (String × Page.Error)

def Options.outputPath (o : Options) : String := Path.join o.root o.output

/-! The context of the pages. -/

def loadContext (path : String) (s : Store) : Except Error Value :=
  match s.readText path with
  | .error fault => .error (.file path fault)
  | .ok text =>
    match Json.parse? text with
    | none => .error (.malformedContext path)
    | some (.map entries) => .ok (.map entries)
    | some v => .error (.wrongContext path v.typeName)

/-- The names under which pages know the output directory. -/
def outputKeys : List String := ["destionation_url", "destination_url"]

def withOutput (output : String) : Value → Value
  | .map entries =>
    .map (outputKeys.foldl (fun t key => Table.insert key (.str output) t) entries)
  | v => v

/-- The entries of the context file, if there is one, and the output directory as it was given. -/
def pageContext (o : Options) (s : Store) : Except Error Value := do
  let base ← match o.context with
    | some path => loadContext path s
    | none => pure (.map [])
  return withOutput o.output base

/-! Pages. -/

def pageEnding : String := ".html"

def isPage (name : String) (e : Entry) : Bool :=
  !e.isDirectory && pageEnding.toList.isSuffixOf name.toList

/-- The names of the pages at the top of a root, in order; a root that is a file has none. -/
def pages (root : String) (s : Store) : Except Error (List String) :=
  match s.find? root with
  | .error fault => .error (.listing root fault)
  | .ok (.file ..) => .ok []
  | .ok (.directory entries) => .ok ((entries.filter fun e => isPage e.1 e.2).map (·.1))

/-- Builds one page and adds it to the report. -/
def buildPage (root output : String) (data : Value) (report : Report) (page : String) :
    Run Report := do
  let target := Path.join output page
  match (Page.assemble (loader (← get) root) page data).result with
  | .ok html =>
    write target html
    return ⟨report.pages ++ [target], report.failures⟩
  | .error e => return ⟨report.pages, report.failures ++ [(page, e)]⟩

/-! Copying. -/

/-- The names in a directory as they are read; what is no directory has none. -/
def namesIn (s : Store) (source : String) : List String :=
  (s.find? source).toOption.elim [] Entry.names

/-- Copies an entry. A directory is made before its names are read. -/
def copyEntry : (depth : Nat) → (source target : String) → Run Unit
  | 0, _, target => throw (.file target .nameTooLong)
  | depth + 1, source, target => do
    match (← get).find? source with
    | .ok (.directory _) =>
      makeDirectories target
      let names := namesIn (← get) source
      names.forM fun name => copyEntry depth (Path.join source name) (Path.join target name)
    | _ => Action.change (·.copyFile source target) (.file target)

/-- Copies a directory with all that is in it; what is no directory is not copied. Paths have a
greatest length, which bounds the depth. -/
def copyTree (source target : String) : Run Unit := do
  if (← get).isDirectory source then
    copyEntry maxPathBytes source (Path.join target "")

def stylesName : String := "css"

def build (o : Options) : Run Report := do
  unless (← get).isFile (Path.join o.root indexName) do throw (.missingIndex o.root)
  let output := o.outputPath
  if (← get).exists? output && !o.force then throw (.outputExists output)
  makeDirectories output
  let data ← Action.look (pageContext o)
  let names ← Action.look (pages o.root)
  let report ← names.foldlM (buildPage o.root output data) ⟨[], []⟩
  copyTree (Path.join o.root stylesName) (Path.join output stylesName)
  return report

end Stencil.Site
