import Stencil.SyntaxError
import Stencil.Template.Basic

/-! Compiling fragments to a template. Loops and conditionals stay open until a close marker of
any name or the end of the source, and every fragment goes into the innermost open one. -/

namespace Stencil

namespace Compile

/-- The start of a loop or conditional. -/
inductive Header where
  | array (items : Operand)
  | conditional (header : Fragment) (test : Condition)

def Header.close (body : List Node) : Header → Node
  | array items => .array items body
  | conditional header test => .ofCondition header test body

/-- A block still open, with the nodes in it so far in reverse. -/
structure Frame where
  header : Header
  done : List Node

/-- The nodes outside all open blocks in reverse, and the open blocks, innermost first. -/
structure State where
  root : List Node
  frames : List Frame

/-- What an open marker stands for. -/
inductive Opened where
  | block (header : Header)
  | node (n : Node)

/-- The rest of a header behind its first blank. -/
def afterKeyword (clean : List Char) : List Char :=
  Text.trim ((clean.dropWhile (!Text.isBlank ·)).drop 1)

/-- One expression, which holds blanks only if it is a literal. -/
def arrayHeader (f : Fragment) : Except SyntaxError Header :=
  let rest := afterKeyword f.clean.toList
  let text := String.ofList rest
  if rest.isEmpty then .error (.atFragment f .missingItems)
  else match Operand.ofText text with
    | .literal v => .ok (.array (.literal v))
    | .name name =>
      if rest.any Text.isBlank then .error (.atFragment f .severalItems)
      else .ok (.array (.name name))

def ifHeader (f : Fragment) : Except SyntaxError Header :=
  match f.words.drop 1 with
  | [x] => .ok (.conditional f (.truthy (.ofText x)))
  | [lhs, op, rhs] => .ok (.conditional f (.compare (.ofText lhs) op (.ofText rhs)))
  | _ => .error (.atFragment f .malformedCondition)

def openMarker (f : Fragment) : Except SyntaxError Opened :=
  let keyword := f.keyword?.getD ""
  if keyword = "array" then (arrayHeader f).map .block
  else if keyword = "if" then (ifHeader f).map .block
  else if keyword = "else" then .ok (.node .elseMark)
  else .error (.atFragment f (.unknownKeyword keyword))

namespace State

def start : State := ⟨[], []⟩

/-- Adds a node to the innermost open block. -/
def add (n : Node) : State → State
  | ⟨root, []⟩ => ⟨n :: root, []⟩
  | ⟨root, frame :: frames⟩ => ⟨root, ⟨frame.header, n :: frame.done⟩ :: frames⟩

theorem length_frames_add (n : Node) (s : State) : (s.add n).frames.length = s.frames.length := by
  obtain ⟨root, _ | ⟨frame, frames⟩⟩ := s <;> rfl

def enter (header : Header) (s : State) : State := ⟨s.root, ⟨header, []⟩ :: s.frames⟩

/-- Closes the innermost open block; none if there is none. -/
def close? : State → Option State
  | ⟨_, []⟩ => none
  | ⟨root, frame :: frames⟩ => some (add (frame.header.close frame.done.reverse) ⟨root, frames⟩)

def step (s : State) (f : Fragment) : Except SyntaxError State :=
  match f.kind with
  | .text => .ok (s.add (.text f.raw))
  | .variable => .ok (s.add (.variable f.clean))
  | .closing =>
    match s.close? with
    | some s => .ok s
    | none => .error (.atFragment f .unmatchedClose)
  | .opening => do
    match ← openMarker f with
    | .block header => return s.enter header
    | .node n => return s.add n

/-- The nodes at the top once all blocks in `frames` are closed and `inner` is put into the
innermost of them. -/
def closeAll (root : List Node) (inner : List Node) : List Frame → List Node
  | [] => inner ++ root
  | frame :: frames =>
    closeAll root [frame.header.close (inner ++ frame.done).reverse] frames

def finish (s : State) : Template := (closeAll s.root [] s.frames).reverse

end State

end Compile

namespace Template

def ofFragments (fragments : List Fragment) : Except SyntaxError Template := do
  return (← fragments.foldlM Compile.State.step .start).finish

def compile (source : String) : Except SyntaxError Template :=
  ofFragments (Fragment.ofSource source)

end Template

end Stencil
