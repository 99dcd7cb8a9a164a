import Stencil.Page.Name
import Stencil.Render
import Stencil.Table

/-! Sources of pages. A loader reads a page by its normalized name, and there are finitely many
texts that it can give. -/

namespace Stencil.Page

inductive Error where
  | malformed (e : SyntaxError)
  | severalParents (page : String) (markers : Nat)
  | parentLoop (page : String) (history : List String)
  | includeLoop (path : String) (chain : List String)
  | duplicateBlock (page name : String)
  | missing (path detail : String)
  | render (e : RenderError)
deriving DecidableEq

def Error.message : Error → String
  | malformed e => e.message
  | severalParents page markers =>
    "'" ++ page ++ "' extends " ++ toString markers ++ " pages, a page may extend at most one"
  | parentLoop page history =>
    "Inheritance loop: '" ++ page ++ "' already extended in " ++ " -> ".intercalate history
  | includeLoop path chain =>
    "Include loop: '" ++ path ++ "' already included in " ++ " -> ".intercalate chain
  | duplicateBlock page name => "'" ++ page ++ "' declares block '" ++ name ++ "' more than once"
  | missing path detail => "Cannot read '" ++ path ++ "': " ++ detail
  | render e => e.message

/-- `read` gives a text or the reason why there is none. -/
structure Loader where
  read : String → Except String String
  texts : List String
  mem_texts : ∀ {name text}, read name = .ok text → text ∈ texts

namespace Loader

def load (loader : Loader) (name : String) : Except Error String :=
  match loader.read (normalize name) with
  | .ok text => .ok text
  | .error detail => .error (.missing (normalize name) detail)

/-- The bytes in all texts together. -/
def size (loader : Loader) : Nat := loader.texts.foldl (fun n text => n + text.utf8ByteSize) 0

theorem mem_texts_of_load {loader : Loader} {name text : String} (h : loader.load name = .ok text) :
    text ∈ loader.texts := by
  unfold load at h
  split at h
  · next hread =>
    obtain rfl := Except.ok.inj h
    exact loader.mem_texts hread
  · exact nomatch h

theorem load_eq_error {loader : Loader} {name : String} {e : Error}
    (h : loader.load name = .error e) : ∃ detail, e = .missing (normalize name) detail := by
  unfold load at h
  split at h
  · exact nomatch h
  · next detail _ => exact ⟨detail, (Except.error.inj h).symm⟩

end Loader

/-- Pages kept in memory, by their normalized names. -/
abbrev Library := Table String

namespace Library

def insert (library : Library) (name source : String) : Library :=
  Table.insert (normalize name) source library

theorem mem_of_get? {library : Library} {name text : String}
    (h : Table.get? library name = some text) : text ∈ library.map (·.2) :=
  List.mem_map_of_mem (mem_of_lookup h)

def read (library : Library) (name : String) : Except String String :=
  match Table.get? library name with
  | some text => .ok text
  | none => .error "no such file"

def loader (library : Library) : Loader where
  read := library.read
  texts := library.map (·.2)
  mem_texts {name text} h := by
    unfold read at h
    split at h
    · next hg => cases h; exact mem_of_get? hg
    · cases h

end Library

end Stencil.Page
