import Stencil.Table

/-! File trees: directories of named entries down to files, each with its bytes and a stamp that
tells when it was written. A location is the list of names that lead from the top to an entry. -/

namespace Stencil.Files

/-- A time set from outside, or a tick of the clock that goes on with every write. -/
inductive Stamp where
  | given (time : Int)
  | tick (n : Nat)
deriving DecidableEq

/-- The entries of a directory form a `Table`. -/
inductive Entry where
  | file (bytes : ByteArray) (stamp : Stamp)
  | directory (entries : List (String × Entry))

abbrev Location := List String

namespace Entry

def empty : Entry := directory []

def isDirectory : Entry → Bool
  | directory _ => true
  | file .. => false

def get? : Entry → Location → Option Entry
  | e, [] => some e
  | directory entries, name :: rest => (Table.get? entries name).bind (·.get? rest)
  | file .., _ :: _ => none

/-- Puts an entry at a location; nothing changes where a file is in the way. -/
def set : Entry → Location → Entry → Entry
  | _, [], new => new
  | directory entries, name :: rest, new =>
    let inner := (Table.get? entries name).getD empty
    directory (Table.insert name (inner.set rest new) entries)
  | file bytes stamp, _ :: _, _ => file bytes stamp

def remove : Entry → Location → Entry
  | e, [] => e
  | directory entries, [name] => directory (entries.filter (·.1 != name))
  | directory entries, name :: rest =>
    directory (entries.map fun e => if e.1 = name then (e.1, e.2.remove rest) else e)
  | file bytes stamp, _ :: _ => file bytes stamp

/-- The names in a directory, in order. -/
def names : Entry → List String
  | directory entries => Table.keys entries
  | file .. => []

mutual

/-- The bytes of all files. -/
def contents : Entry → List ByteArray
  | file bytes _ => [bytes]
  | directory entries => contentsOf entries

def contentsOf : List (String × Entry) → List ByteArray
  | [] => []
  | (_, e) :: rest => contents e ++ contentsOf rest

end

mutual

/-- All files of an entry at `loc`, with their locations. -/
def files (loc : Location) : Entry → List (Location × ByteArray × Stamp)
  | file bytes stamp => [(loc, bytes, stamp)]
  | directory entries => filesOf loc entries

def filesOf (loc : Location) : List (String × Entry) → List (Location × ByteArray × Stamp)
  | [] => []
  | (name, e) :: rest => files (loc ++ [name]) e ++ filesOf loc rest

end

mutual

/-- The locations of all directories of an entry at `loc`, outer ones first. -/
def directories (loc : Location) : Entry → List Location
  | file .. => []
  | directory entries => loc :: directoriesOf loc entries

def directoriesOf (loc : Location) : List (String × Entry) → List Location
  | [] => []
  | (name, e) :: rest => directories (loc ++ [name]) e ++ directoriesOf loc rest

end

/-- What lies below an entry is found from that entry on. -/
theorem get?_append (e : Entry) (loc more : Location) :
    e.get? (loc ++ more) = (e.get? loc).bind (·.get? more) := by
  induction loc generalizing e with
  | nil => rfl
  | cons first rest ih =>
    cases e with
    | file => rfl
    | directory entries =>
      simp only [List.cons_append, get?]
      cases Table.get? entries first with
      | none => rfl
      | some e => exact ih e

theorem contents_subset_of_mem {name : String} {e : Entry} {entries : List (String × Entry)}
    (h : Table.get? entries name = some e) {b : ByteArray} (hb : b ∈ e.contents) :
    b ∈ contentsOf entries := by
  induction entries with
  | nil => simp [Table.get?] at h
  | cons head rest ih =>
    obtain ⟨k, v⟩ := head
    rw [Table.get?, List.lookup_cons] at h
    rw [contentsOf, List.mem_append]
    split at h
    · cases h; exact .inl hb
    · exact .inr (ih h)

theorem mem_contents_of_get? {e : Entry} {loc : Location} {b : ByteArray} {stamp : Stamp}
    (h : e.get? loc = some (file b stamp)) : b ∈ e.contents := by
  induction loc generalizing e with
  | nil => cases e <;> simp_all [get?, contents]
  | cons name rest ih =>
    cases e with
    | file => simp [get?] at h
    | directory entries =>
      obtain ⟨sub, hs, hf⟩ := Option.bind_eq_some_iff.1 (by simpa only [get?] using h)
      rw [contents]
      exact contents_subset_of_mem hs (ih hf)

end Entry

end Stencil.Files
