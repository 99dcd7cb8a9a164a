import Stencil.Command.Run
import Stencil.Site.Watch

/-! The program. What a command may need is read from the disk into a store, the command runs on
the store, and what it wrote there is written to the disk. Watching repeats this. -/

open Stencil Stencil.Files

namespace Stencil.Main

/-- The path of a location on the disk. -/
def diskPath (loc : Location) : String := "/" ++ Path.ofParts loc

/-- Where a path leads without looking at the disk. -/
def locationOf (here : Location) (path : String) : Location :=
  let start := if Path.isAbsolute path then [] else here
  (Path.parts path).foldl (fun loc part =>
    if Path.isIdle part then loc else if part = ".." then loc.dropLast else loc ++ [part]) start

/-- The file or directory on the disk, with all that is in it. -/
partial def readEntry? (path : String) : IO (Option Entry) := do
  let place := (← IO.currentDir) / path
  if !(← place.pathExists) then return none
  if ← place.isDir then
    let mut entries : List (String × Entry) := []
    for child in ← place.readDir do
      if let some e ← readEntry? (Path.join path child.fileName) then
        entries := Table.insert child.fileName e entries
    return some (.directory entries)
  let time := (← place.metadata).modified
  return some (.file (← IO.FS.readBinFile place) (.given (time.sec * 1000000000 + time.nsec.toNat)))

/-- Adds what the disk holds at a path to a store. -/
def learn (s : Store) (path : String) : IO Store := do
  let loc := locationOf s.here path
  match ← readEntry? (diskPath loc) with
  | some e => return ⟨s.top.set loc e, s.here, s.clock⟩
  | none => return s

/-- A store that knows the working directory by its location only. -/
def bareStore : IO Store := do
  let here := ((Path.parts (← IO.currentDir).toString).filter (!Path.isIdle ·))
  return ⟨Entry.empty.set here .empty, here, 0⟩

/-- The paths that a command is about. -/
def subjects : Command → List String
  | .new root _ => [root]
  | .build o _ => [o.root, o.outputPath] ++ o.context.toList
  | .check _ root => [root]

/-- The pages that a command missed, with the root they are looked for below. -/
def missed (s : Store) : Command → List String
  | .new .. => []
  | .build o _ =>
    match ((Site.build o).run s).1 with
    | .ok r => r.failures.filterMap fun f => pathOf o.root f.2
    | .error _ => []
  | .check page root =>
    match Command.checkPage page root s with
    | .error e => (pathOf root e).toList
    | .ok _ => []
where
  pathOf (root : String) : Page.Error → Option String
    | .missing path _ => some (Path.join root path)
    | _ => none

/-- Learns pages outside the subjects for as long as the disk has some that the command misses. -/
partial def learnMissed (s : Store) (c : Command) : IO Store := do
  let paths := (missed s c).filter fun path => !s.exists? path
  let more ← paths.foldlM learn s
  if paths.any fun path => more.exists? path then learnMissed more c else return s

def snapshot (c : Command) : IO Store := do
  learnMissed (← (subjects c).foldlM learn (← bareStore)) c

/-- Writes what is new in a store. -/
def commit (before after : Store) : IO Unit := do
  let known := before.top.directories []
  for loc in after.top.directories [] do
    unless loc ∈ known do IO.FS.createDirAll (diskPath loc)
  for (loc, bytes, stamp) in after.top.files [] do
    match stamp with
    | .tick _ => IO.FS.writeBinFile (diskPath loc) bytes
    | .given _ => pure ()

def execute (c : Command) : IO UInt32 := do
  let s ← snapshot c
  let (o, after) := Command.run s c
  commit s after
  IO.print o.out
  IO.eprint o.err
  return UInt32.ofNat o.exit

partial def watchLoop (o : Site.Options) (w : Site.Watcher) : IO Unit := do
  IO.sleep 1000
  let (changed, w) := w.scan (← snapshot (.build o false))
  if changed then discard (execute (.build o false))
  watchLoop o w

/-- Every later build goes into the output of the one before. -/
def watch (o : Site.Options) : IO Unit := do
  let o : Site.Options := ⟨o.root, o.output, true, o.context⟩
  let w := Site.Watcher.start o.root [o.outputPath] (← snapshot (.build o false))
  IO.eprintln ("Watching " ++ o.root ++ " (" ++ toString w.tracked ++
    " files), press Ctrl+C to stop")
  watchLoop o w

end Stencil.Main

def main (args : List String) : IO UInt32 := do
  match Command.ofArguments args with
  | .error stop =>
    IO.print stop.outcome.out
    IO.eprint stop.outcome.err
    return UInt32.ofNat stop.outcome.exit
  | .ok c =>
    let code ← Stencil.Main.execute c
    match c with
    | .build o true => do
      Stencil.Main.watch o
      return code
    | _ => return code
