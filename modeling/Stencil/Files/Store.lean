import Stencil.Files.Entry
import Stencil.Files.Path

/-! Stores of files and what can be done with them. Paths are followed part by part; `..` leads to
the directory above, and everything but the last part has to be a directory that exists. Slashes at
the end of a path lead nowhere, but what is there has to be a directory, or to become one. -/

namespace Stencil.Files

/-- Why a path cannot be used as it was asked for. -/
inductive Fault where
  | notFound
  | alreadyExists
  | notDirectory
  | isDirectory
  | nameTooLong
  | nulInName
  | notText
deriving DecidableEq

def Fault.message : Fault → String
  | notFound => "No such file or directory (os error 2)"
  | alreadyExists => "File exists (os error 17)"
  | notDirectory => "Not a directory (os error 20)"
  | isDirectory => "Is a directory (os error 21)"
  | nameTooLong => "File name too long (os error 36)"
  | nulInName => "file name contained an unexpected NUL byte"
  | notText => "stream did not contain valid UTF-8"

/-- `here` is the location at which relative paths start; `clock` counts the writes. -/
structure Store where
  top : Entry
  here : Location
  clock : Nat

/-- Where a path leads: to an entry, or to a free name in a directory. -/
inductive Place where
  | taken (loc : Location) (entry : Entry)
  | free (loc : Location)

def maxNameBytes : Nat := 255

def maxPathBytes : Nat := 4095

/-- The directories above an entry, innermost first, each with the name in it that was followed. -/
abbrev Trail := List (List (String × Entry) × String)

def Trail.location (trail : Trail) : Location := (trail.map (·.2)).reverse

/-- Follows parts of a path from an entry. Nothing may follow a free name, and nothing lies above
the top. -/
def follow : Trail → Entry → List String → Except Fault Place
  | trail, e, [] => .ok (.taken trail.location e)
  | _, .file .., _ :: _ => .error .notDirectory
  | trail, .directory entries, part :: rest =>
    if Path.isIdle part then follow trail (.directory entries) rest
    else if part = ".." then
      match trail with
      | [] => follow [] (.directory entries) rest
      | (above, _) :: trail => follow trail (.directory above) rest
    else if maxNameBytes < part.utf8ByteSize then .error .nameTooLong
    else match Table.get? entries part with
      | some e => follow ((entries, part) :: trail) e rest
      | none =>
        if rest.isEmpty then .ok (.free (trail.location ++ [part])) else .error .notFound

namespace Store

def empty : Store := ⟨.empty, [], 0⟩

/-- Where a path leads, whether it ends in slashes or not. -/
def locate (s : Store) (path : String) : Except Fault Place :=
  if '\x00' ∈ path.toList then .error .nulInName
  else if path.isEmpty then .error .notFound
  else if maxPathBytes < path.utf8ByteSize then .error .nameTooLong
  else
    let parts := Path.dropSlashEnd (Path.parts path)
    follow [] s.top (if Path.isAbsolute path then parts else s.here ++ parts)

/-! Looking. -/

def find? (s : Store) (path : String) : Except Fault Entry := do
  match ← s.locate path with
  | .taken _ e => if Path.endsInSlash path && !e.isDirectory then throw .notDirectory else return e
  | .free _ => throw .notFound

def exists? (s : Store) (path : String) : Bool := (s.find? path).isOk

def isDirectory (s : Store) (path : String) : Bool :=
  match s.find? path with
  | .ok (.directory _) => true
  | _ => false

def isFile (s : Store) (path : String) : Bool :=
  match s.find? path with
  | .ok (.file ..) => true
  | _ => false

def read (s : Store) (path : String) : Except Fault ByteArray := do
  match ← s.find? path with
  | .file bytes _ => return bytes
  | .directory _ => throw .isDirectory

def readText (s : Store) (path : String) : Except Fault String := do
  match String.fromUTF8? (← s.read path) with
  | some text => return text
  | none => throw .notText

/-- The texts of all files that hold text. -/
def texts (s : Store) : List String := s.top.contents.filterMap String.fromUTF8?

/-! Changing. A change that fails changes nothing. -/

/-- Puts an entry at a location and lets the clock go on. -/
def put (s : Store) (loc : Location) (e : Entry) : Store := ⟨s.top.set loc e, s.here, s.clock + 1⟩

/-- Writes a file, which may be there already, with a given stamp. -/
def writeAt (s : Store) (path : String) (bytes : ByteArray) (stamp : Stamp) :
    Except Fault Store := do
  match ← s.locate path with
  | .taken loc (.file ..) | .free loc =>
    if Path.endsInSlash path then throw .isDirectory else return s.put loc (.file bytes stamp)
  | .taken _ (.directory _) => throw .isDirectory

/-- Writes a file now. -/
def write (s : Store) (path : String) (bytes : ByteArray) : Except Fault Store :=
  s.writeAt path bytes (.tick s.clock)

/-- Removes a file. -/
def remove (s : Store) (path : String) : Except Fault Store := do
  match ← s.locate path with
  | .taken loc (.file ..) =>
    if Path.endsInSlash path then throw .notDirectory
    else return ⟨s.top.remove loc, s.here, s.clock⟩
  | .taken _ (.directory _) => throw .isDirectory
  | .free _ => throw .notFound

def makeDirectory (s : Store) (path : String) : Except Fault Store := do
  match ← s.locate path with
  | .taken .. => throw .alreadyExists
  | .free loc => return s.put loc .empty

/-- Copies the bytes of a file. The target is emptied before the source is read, so a file copied
onto itself ends up empty. -/
def copyFile (s : Store) (source target : String) : Except Fault Store := do
  let _ ← s.read source
  let s ← s.write target .empty
  s.write target (← s.read source)

end Store

/-- The trail of an entry leads from the top to it. -/
def Trail.LeadsTo (top : Entry) : Trail → Entry → Prop
  | [], e => e = top
  | (above, name) :: trail, e =>
    Table.get? above name = some e ∧ LeadsTo top trail (.directory above)

theorem Trail.LeadsTo.get?_location {top e : Entry} {trail : Trail} (h : trail.LeadsTo top e) :
    top.get? trail.location = some e := by
  induction trail generalizing e with
  | nil => rw [h]; rfl
  | cons step trail ih =>
    rw [location, List.map_cons, List.reverse_cons, Entry.get?_append]
    have above := ih h.2
    unfold location at above
    simp [above, Entry.get?, h.1]

theorem follow_taken {top e found : Entry} {trail : Trail} {parts : List String} {loc : Location}
    (h : follow trail e parts = .ok (.taken loc found)) (ht : trail.LeadsTo top e) :
    top.get? loc = some found := by
  fun_induction follow trail e parts with
  | case1 => cases h; exact ht.get?_location
  | case2 => cases h
  | case3 _ _ _ _ _ ih => exact ih h ht
  | case4 _ _ _ ih => exact ih h ht
  | case5 _ _ _ _ _ _ ih => exact ih h ht.2
  | case6 => cases h
  | case7 _ _ _ _ _ _ _ _ hg ih => exact ih h ⟨hg, ht⟩
  | case8 => cases h
  | case9 => cases h

theorem Store.get?_of_locate {s : Store} {path : String} {loc : Location} {e : Entry}
    (h : s.locate path = .ok (.taken loc e)) : s.top.get? loc = some e := by
  unfold Store.locate at h
  split at h
  · cases h
  · split at h
    · cases h
    · split at h
      · cases h
      · exact follow_taken h rfl

theorem Store.get?_of_find? {s : Store} {path : String} {e : Entry} (h : s.find? path = .ok e) :
    ∃ loc, s.top.get? loc = some e := by
  unfold Store.find? at h
  cases hp : s.locate path with
  | error => simp [hp, bind, Except.bind] at h
  | ok place =>
    cases place with
    | free => simp [hp, bind, Except.bind] at h
    | taken loc e' =>
      simp only [hp, bind, Except.bind, pure, Except.pure] at h
      split at h
      · cases h
      · cases h
        exact ⟨loc, get?_of_locate hp⟩

/-- What is read as text is one of the texts of the store. -/
theorem Store.mem_texts_of_readText {s : Store} {path text : String} (h : s.readText path = .ok text) :
    text ∈ s.texts := by
  unfold Store.readText Store.read at h
  cases hf : s.find? path with
  | error => simp [hf, bind, Except.bind] at h
  | ok e =>
    obtain ⟨loc, hloc⟩ := get?_of_find? hf
    cases e with
    | directory => simp [hf, bind, Except.bind] at h
    | file bytes stamp =>
      simp only [hf, bind, Except.bind, pure, Except.pure] at h
      split at h
      · next t ht =>
        cases h
        exact List.mem_filterMap.2 ⟨bytes, Entry.mem_contents_of_get? hloc, ht⟩
      · cases h

/-- Steps on a store. What was changed before a step fails stays changed. -/
abbrev Action (ε α : Type) := ExceptT ε (StateM Store) α

namespace Action

variable {ε α : Type}

/-- A change that becomes an error by way of `describe`. -/
def change (f : Store → Except Fault Store) (describe : Fault → ε) : Action ε Unit := do
  match f (← get) with
  | .ok s => set s
  | .error fault => throw (describe fault)

def look (f : Store → Except ε α) : Action ε α := do
  match f (← get) with
  | .ok a => return a
  | .error e => throw e

def run (x : Action ε α) (s : Store) : Except ε α × Store := ExceptT.run x s

end Action

/-- Makes a directory; where it only lacks a place, its parent first. -/
def makeWithParents : (depth : Nat) → (path : String) → Action Fault Unit
  | 0, _ => throw .notFound
  | depth + 1, path => do
    if path.isEmpty then return
    let s ← get
    match s.makeDirectory path with
    | .ok s => set s
    | .error .notFound =>
      match Path.parent? path with
      | none => throw .notFound
      | some up => makeWithParents depth up
      unless (← get).isDirectory path do
        Action.change (·.makeDirectory path) id
    | .error fault => unless s.isDirectory path do throw fault

/-- Makes a directory with all that lead to it; one that is there already is kept. A path has no
more ancestors than parts. -/
def makeDirectories (path : String) : Action Fault Unit :=
  makeWithParents ((Path.parts path).length + 1) path

end Stencil.Files
