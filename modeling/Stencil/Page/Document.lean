import Stencil.SyntaxError
import Stencil.Table

/-! Documents: pages as text, named blocks nested as written, and the parents they name. A block
lies between its opening marker and the closing marker that belongs to it; an opening marker that
is never closed is text. -/

namespace Stencil

inductive Segment where
  | text (s : String)
  | block (name : String) (children : List Segment)

/-- Content for blocks, by their names. -/
abbrev Overrides := Table (List Segment)

/-- A parsed page. The parents stand as written, in order. -/
structure Document where
  parents : List String
  segments : List Segment

namespace Document

def parentMarker : Delimiter := ⟨"\x7b!", "!\x7d"⟩

theorem parentMarker_oneLine : parentMarker.OneLine := by decide

def blockMarker : Delimiter := ⟨"\x7b?", "?\x7d"⟩

theorem blockMarker_oneLine : blockMarker.OneLine := by decide

/-- A block marker whose inside starts with this text closes a block. -/
def closeWord : String := "endblock"

/-! Parsing. -/

/-- What a piece of a page stands for. -/
inductive Part where
  | text (s : String)
  | parent (name : String)
  | opening (name : String)
  | closing
  | nameless

def Part.ofPiece (p : Piece) : Part :=
  match p.delimiter, p.inner? with
  | some d, some inner =>
    if d = parentMarker then parent inner
    else if closeWord.toList.isPrefixOf inner.toList then closing
    else if inner.isEmpty then nameless
    else opening inner
  | _, _ => text p.text

/-- A block still open, with its marker as written and its children so far in reverse. -/
structure Frame where
  name : String
  marker : String
  done : List Segment

/-- The parents and the segments outside all open blocks in reverse, and the open blocks,
innermost first. -/
structure State where
  parents : List String
  root : List Segment
  frames : List Frame

namespace State

def start : State := ⟨[], [], []⟩

/-- Adds segments, in reverse, to the innermost open block. -/
def add (segments : List Segment) : State → State
  | ⟨parents, root, []⟩ => ⟨parents, segments ++ root, []⟩
  | ⟨parents, root, frame :: frames⟩ =>
    ⟨parents, root, ⟨frame.name, frame.marker, segments ++ frame.done⟩ :: frames⟩

theorem length_frames_add (segments : List Segment) (s : State) :
    (s.add segments).frames.length = s.frames.length := by
  obtain ⟨parents, root, _ | ⟨frame, frames⟩⟩ := s <;> rfl

/-- Makes the innermost open block a block; none if there is none. -/
def close? : State → Option State
  | ⟨_, _, []⟩ => none
  | ⟨parents, root, frame :: frames⟩ =>
    some (add [.block frame.name frame.done.reverse] ⟨parents, root, frames⟩)

def step (s : State) (p : Piece) : Except SyntaxError State :=
  match Part.ofPiece p with
  | .text t => .ok (s.add [.text t])
  | .parent name => .ok ⟨name :: s.parents, s.root, s.frames⟩
  | .opening name => .ok ⟨s.parents, s.root, ⟨name, p.text, []⟩ :: s.frames⟩
  | .closing =>
    match s.close? with
    | some s => .ok s
    | none => .error (.ofMarker p.text p.span .unmatchedEndblock)
  | .nameless => .error (.ofMarker p.text p.span .namelessBlock)

/-- The segments once all open blocks in `frames` are text again, with `inner` inside the
innermost of them. -/
def unwind (root inner : List Segment) : List Frame → List Segment
  | [] => inner ++ root
  | frame :: frames => unwind root (inner ++ frame.done ++ [.text frame.marker]) frames

def finish (s : State) : Document := ⟨s.parents.reverse, (unwind s.root [] s.frames).reverse⟩

end State

def parse (source : String) : Except SyntaxError Document := do
  return (← (scan [parentMarker, blockMarker] source).foldlM State.step .start).finish

end Document

/-! Blocks and their content. -/

namespace Segment

mutual

/-- The blocks in a segment with their children, outer blocks before the ones in them. -/
def blocks : Segment → List (String × List Segment)
  | text _ => []
  | block name children => (name, children) :: blocksOf children

def blocksOf : List Segment → List (String × List Segment)
  | [] => []
  | s :: ss => blocks s ++ blocksOf ss

end

mutual

/-- Gives every block with an override that content, which is then left as it is. -/
def substitute (o : Overrides) : Segment → Segment
  | text s => text s
  | block name children =>
    match Table.get? o name with
    | some content => block name content
    | none => block name (substituteAll o children)

def substituteAll (o : Overrides) : List Segment → List Segment
  | [] => []
  | s :: ss => substitute o s :: substituteAll o ss

end

mutual

/-- The text without the block markers. -/
def flatten : Segment → String
  | text s => s
  | block _ children => flattenAll children

def flattenAll : List Segment → String
  | [] => ""
  | s :: ss => flatten s ++ flattenAll ss

end

end Segment

namespace Document

def blocks (d : Document) : List (String × List Segment) := Segment.blocksOf d.segments

/-- The first name that already stands before, in `seen` or in the list. -/
def firstRepeat? (seen : List String) : List String → Option String
  | [] => none
  | name :: names => if name ∈ seen then some name else firstRepeat? (name :: seen) names

def duplicateBlock? (d : Document) : Option String := firstRepeat? [] (d.blocks.map (·.1))

def substitute (d : Document) (o : Overrides) : Document :=
  ⟨d.parents, Segment.substituteAll o d.segments⟩

def flatten (d : Document) : String := Segment.flattenAll d.segments

end Document

end Stencil
