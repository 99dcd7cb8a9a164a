import Stencil.Command.Arguments
import Stencil.Site.Starter

/-! Running commands on a store of files: the exit code, what is printed, and the store after. -/

namespace Stencil.Command

open Files

structure Outcome where
  exit : Nat
  out : String
  err : String
deriving DecidableEq

def line (text : String) : String := text ++ "\n"

def failure (message : String) : Outcome := ⟨1, "", line ("Error: " ++ message)⟩

def versionText : String := line "quill 0.3.0"

def helpText : String :=
  line "Quill: static sites from plain HTML templates" ++ line "" ++
    line "Usage: quill [-v] new [-r ROOT] [-F]" ++
    line "       quill [-v] build [-r ROOT] [-o OUTPUT] [-F] [-w] [-c CONTEXT]" ++
    line "       quill [-v] check [-r ROOT] PATH"

def Stop.outcome : Stop → Outcome
  | misuse => ⟨2, "", helpText⟩
  | help => ⟨0, helpText, ""⟩
  | version => ⟨0, versionText, ""⟩

def runNew (root : String) (force : Bool) (s : Store) : Outcome × Store :=
  match (Site.create root force).run s with
  | (.ok files, s) =>
    (⟨0, "", line ("Created " ++ toString files.length ++ " files in " ++ root)⟩, s)
  | (.error e, s) => (failure e.message, s)

def reportText (o : Site.Options) (r : Site.Report) : String :=
  String.join (r.failures.map fun f => line ("Error in " ++ f.1 ++ ": " ++ f.2.message)) ++
    line ("Built " ++ toString r.pages.length ++ " page(s) into " ++ o.outputPath)

def runBuild (o : Site.Options) (s : Store) : Outcome × Store :=
  match (Site.build o).run s with
  | (.ok r, s) => (⟨if r.failures.isEmpty then 0 else 1, "", reportText o r⟩, s)
  | (.error e, s) => (failure e.message, s)

/-- A page is in order if it can be put together and compiled; it is not rendered. -/
def checkPage (page root : String) (s : Store) : Except Page.Error Template :=
  (Page.flatten (Site.loader s root) page).result.bind Page.compile

def runCheck (page root : String) (s : Store) : Outcome :=
  match checkPage page root s with
  | .ok _ => ⟨0, "", line ("OK: " ++ page)⟩
  | .error e => failure e.message

/-- One run of a command. Watching goes on with more builds from outside. -/
def run (s : Store) : Command → Outcome × Store
  | new root force => runNew root force s
  | build o _ => runBuild o s
  | check page root => (runCheck page root s, s)

def runArguments (args : List String) (s : Store) : Outcome × Store :=
  match ofArguments args with
  | .ok command => run s command
  | .error stop => (stop.outcome, s)

end Stencil.Command
