import Stencil.Files.Store

/-! Watching a tree of files. A watcher remembers the stamps of all files below its root except
those below ignored paths, and tells whether any of them came, went or changed since. -/

namespace Stencil.Site

open Files

/-- The files it saw last, with their stamps. -/
structure Watcher where
  root : String
  ignore : List String
  seen : List (String × Stamp)
deriving DecidableEq

namespace Watcher

def isIgnored (ignore : List String) (path : String) : Bool := ignore.any (Path.startsWith path)

mutual

/-- The files of an entry, unless it is ignored, with their stamps. -/
def stamps (ignore : List String) (path : String) : Entry → List (String × Stamp)
  | .file _ stamp => if isIgnored ignore path then [] else [(path, stamp)]
  | .directory entries => if isIgnored ignore path then [] else stampsOf ignore path entries

def stampsOf (ignore : List String) (path : String) :
    List (String × Entry) → List (String × Stamp)
  | [] => []
  | (name, e) :: rest => stamps ignore (Path.join path name) e ++ stampsOf ignore path rest

end

/-- What there is to see now; a root that is missing has no files. -/
def look (root : String) (ignore : List String) (s : Store) : List (String × Stamp) :=
  match s.find? root with
  | .ok e => stamps ignore root e
  | .error _ => []

def start (root : String) (ignore : List String) (s : Store) : Watcher :=
  ⟨root, ignore, look root ignore s⟩

def tracked (w : Watcher) : Nat := w.seen.length

/-- Looks again: whether anything changed, and the watcher that has seen it. -/
def scan (w : Watcher) (s : Store) : Bool × Watcher :=
  let now := look w.root w.ignore s
  (now != w.seen, ⟨w.root, w.ignore, now⟩)

end Watcher

end Stencil.Site
