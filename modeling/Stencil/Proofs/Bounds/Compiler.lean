import Stencil.Proofs.Bounds.Parser
import Stencil.Proofs.Template.Faults
import Stencil.Proofs.Template.Ordered

/-! Compiling by numbers. Nodes go into an arena, each as the last child of the innermost open one,
and a conditional parts its children when it closes; the open nodes are a stack of numbers. All
numbers on the stack and among the children are those of entries, so no access fails, and the arena
that is built is the outline of the template. -/

namespace Stencil

open Outline

/-- What the entry of a node stands for as long as nothing is in it. -/
def Node.shape : Node → Shape
  | .text s => .text s
  | .variable name => .variable name
  | .array items _ => .array items
  | .conditional header test _ _ => .conditional header test [] []
  | .elseMark => .elseMark

/-- The node that an open marker stands for, with nothing in it yet. -/
def Compile.Opened.toNode : Opened → Node
  | .block header => header.close []
  | .node n => n

namespace Compile.Checked

/-! Headers. -/

/-- A text with a fault as a literal is a name. -/
def operand (text : String) : Checked SyntaxError Operand := do
  match ← Checked.access (Literal.Checked.parse text).run with
  | .ok v => return .literal v
  | .error _ => return .name text

def arrayHeader (f : Fragment) : Checked SyntaxError Header := do
  let rest := afterKeyword f.clean.toList
  if rest.isEmpty then throw (.atFragment f .missingItems)
  else match ← operand (String.ofList rest) with
    | .literal v => return .array (.literal v)
    | .name name =>
      if rest.any Text.isBlank then throw (.atFragment f .severalItems)
      else return .array (.name name)

def ifHeader (f : Fragment) : Checked SyntaxError Header := do
  match ← Checked.access (slice? f.words 1 f.words.length) with
  | [x] => return .conditional f (.truthy (← operand x))
  | [lhs, op, rhs] => return .conditional f (.compare (← operand lhs) op (← operand rhs))
  | _ => throw (.atFragment f .malformedCondition)

def openMarker (f : Fragment) : Checked SyntaxError Opened := do
  let keyword := f.keyword?.getD ""
  if keyword = "array" then return .block (← arrayHeader f)
  else if keyword = "if" then return .block (← ifHeader f)
  else if keyword = "else" then return .node .elseMark
  else throw (.atFragment f (.unknownKeyword keyword))

/-! The arena. -/

def change? (nodes : List Entry) (id : Nat) (f : Entry → Entry) : Option (List Entry) := do
  let e ← nodes[id]?
  return nodes.set id (f e)

/-- Adds an entry as the last child of another. -/
def push? (nodes : List Entry) (parent : Nat) (shape : Shape) : Option (List Entry) :=
  let id := nodes.length
  change? (nodes ++ [⟨id, shape, []⟩]) parent fun e => { e with children := e.children ++ [id] }

/-- The children before and behind the first `else` marker, without the `else` markers; `inElse`
says whether it has been met. -/
def split? (nodes : List Entry) : (inElse : Bool) → List Nat → Option (List Nat × List Nat)
  | _, [] => some ([], [])
  | inElse, child :: children => do
    if (← nodes[child]?).isElse then split? nodes true children
    else
      let (yes, no) ← split? nodes inElse children
      return if inElse then (yes, child :: no) else (child :: yes, no)

def exitScope? (nodes : List Entry) (id : Nat) : Option (List Entry) := do
  let e ← nodes[id]?
  let (yes, no) ← split? nodes false e.children
  match e.shape with
  | .conditional header test _ _ =>
    change? nodes id fun e => { e with shape := .conditional header test yes no }
  | _ => return nodes

/-- The arena so far, and the numbers of the open nodes, innermost first. -/
structure Builder where
  nodes : List Entry
  scopes : List Nat

namespace Builder

def start : Builder := ⟨[⟨0, .root, []⟩], [0]⟩

def parent (b : Builder) : Nat := b.scopes.head?.getD 0

def add? (b : Builder) (n : Node) : Option Builder := do
  let nodes ← push? b.nodes b.parent n.shape
  return ⟨nodes, if n.opensScope then b.nodes.length :: b.scopes else b.scopes⟩

def close? (b : Builder) : Option Builder := do
  let nodes ← exitScope? b.nodes b.parent
  return ⟨nodes, b.scopes.tail⟩

def step (b : Builder) (f : Fragment) : Checked SyntaxError Builder :=
  match f.kind with
  | .text => Checked.access (b.add? (.text f.raw))
  | .variable => Checked.access (b.add? (.variable f.clean))
  | .closing =>
    if b.scopes.length = 1 then throw (.atFragment f .unmatchedClose)
    else Checked.access b.close?
  | .opening => do
    let opened ← openMarker f
    Checked.access (b.add? opened.toNode)

end Builder

/-- Closes all open nodes but the root. -/
def exitAll? : List Entry → (scopes : List Nat) → Option (List Entry)
  | nodes, id :: outer :: scopes => do
    let nodes ← exitScope? nodes id
    exitAll? nodes (outer :: scopes)
  | nodes, _ => some nodes

def build (fragments : List Fragment) : Checked SyntaxError (List Entry) := do
  let b ← fragments.foldlM Builder.step .start
  Checked.access (exitAll? b.nodes b.scopes)

/-! Headers are read as in the model. -/

theorem operand_eq (text : String) : operand text = Checked.of (.ok (Operand.ofText text)) := by
  rw [operand, Literal.Checked.parse_eq, Operand.ofText]
  cases Literal.parse text <;> rfl

theorem arrayHeader_eq (f : Fragment) : arrayHeader f = Checked.of (Compile.arrayHeader f) := by
  rw [arrayHeader, Compile.arrayHeader]
  by_cases hempty : (afterKeyword f.clean.toList).isEmpty
  · rw [if_pos hempty, if_pos hempty]
    rfl
  rw [if_neg hempty, if_neg hempty, operand_eq, Checked.of_ok_bind]
  cases Operand.ofText (String.ofList (afterKeyword f.clean.toList)) with
  | literal v => rfl
  | name name =>
    dsimp only
    split <;> rfl

/-- A fragment that is read as a condition has a first word. -/
theorem ifHeader_eq {f : Fragment} (h : f.keyword? = some "if") :
    ifHeader f = Checked.of (Compile.ifHeader f) := by
  have hne : 1 ≤ f.words.length := by
    rw [Fragment.keyword?] at h
    exact List.length_pos_of_mem (List.mem_of_head? h)
  have hwords : slice? f.words 1 f.words.length = some (f.words.drop 1) := by
    rw [slice?, if_pos ⟨hne, Nat.le_refl _⟩, List.take_length]
  rw [ifHeader, Compile.ifHeader, hwords, Checked.access_some_bind]
  simp only [operand_eq, Checked.of_ok_bind]
  generalize f.words.drop 1 = words
  rcases words with _ | ⟨lhs, _ | ⟨op, _ | ⟨rhs, _ | ⟨more, words⟩⟩⟩⟩ <;> rfl

theorem openMarker_eq (f : Fragment) : openMarker f = Checked.of (Compile.openMarker f) := by
  unfold openMarker Compile.openMarker
  dsimp only
  split
  · rw [arrayHeader_eq]
    cases Compile.arrayHeader f <;> rfl
  split
  · next hif =>
    rw [ifHeader_eq (keyword?_of_getD (by decide) hif)]
    cases Compile.ifHeader f <;> rfl
  split <;> rfl

/-! Parting the children of a conditional. -/

section

variable {nodes : List Entry} {next : Nat} {ns : List Node}

theorem split?_cons {n : Node} (inElse : Bool) (h : Holds nodes next (entriesList next (n :: ns))) :
    split? nodes inElse (ids next (n :: ns)) =
      if n.isElse then split? nodes true (ids (next + size n) ns)
      else (split? nodes inElse (ids (next + size n) ns)).map fun (yes, no) =>
        if inElse then (yes, next :: no) else (next :: yes, no) := by
  obtain ⟨e, es, he⟩ := entries_eq_cons next n
  have hget : nodes[next]? = some e := (he ▸ holds_first h).head
  rw [ids_cons, split?, hget, Option.bind_eq_bind, Option.bind_some, isElse_of_entries he]
  split
  · rfl
  · rw [Option.bind_eq_bind, Option.map_eq_bind]
    rfl

theorem split?_behind (h : Holds nodes next (entriesList next ns)) :
    split? nodes true (ids next ns) = some ([], branchIds next ns) := by
  induction ns generalizing next with
  | nil => rfl
  | cons n ns ih =>
    rw [split?_cons true h, ih (holds_others h), branchIds_cons]
    split <;> rfl

theorem split?_eq (h : Holds nodes next (entriesList next ns)) :
    split? nodes false (ids next ns) = some (branchIds next (ns.takeWhile (!·.isElse)),
      branchIds (next + sizes (ns.takeWhile (!·.isElse))) (ns.dropWhile (!·.isElse))) := by
  induction ns generalizing next with
  | nil => rfl
  | cons n ns ih =>
    rw [split?_cons false h]
    by_cases helse : n.isElse
    · rw [if_pos helse, split?_behind (holds_others h), List.takeWhile_cons_of_neg (by simp [helse]),
        List.dropWhile_cons_of_neg (by simp [helse]), sizes, Nat.add_zero, branchIds_cons,
        if_pos helse]
      rfl
    · rw [if_neg helse, ih (holds_others h), List.takeWhile_cons_of_pos (by simp [helse]),
        List.dropWhile_cons_of_pos (by simp [helse]), sizes, ← Nat.add_assoc, branchIds_cons,
        if_neg helse]
      rfl

end

/-! The arena in the middle of a stream. Each open node stands in it with the nodes that are done
in it behind it, and then with the open node in it, which is its last child. -/

/-- An open node with the nodes that are done in it. -/
structure Layer where
  shape : Shape
  done : List Node

/-- An open node put behind a list of entries; `inner` are its children that are not done. -/
def Layer.put (l : Layer) (before : List Entry) (inner : List Nat) : List Entry :=
  before ++ ⟨before.length, l.shape, ids (before.length + 1) l.done ++ inner⟩ ::
    entriesList (before.length + 1) l.done

/-- The entries of open nodes, innermost first, which all stand around another one. -/
def front : List Layer → List Entry
  | [] => []
  | l :: outer => l.put (front outer) [(front outer).length + 1 + sizes l.done]

/-- The entries of open nodes, innermost first. -/
def layout : List Layer → List Entry
  | [] => []
  | l :: outer => l.put (front outer) []

/-- The numbers of open nodes. -/
def scopeIds : List Layer → List Nat
  | [] => []
  | _ :: outer => (front outer).length :: scopeIds outer

/-- What the entry of a closed node stands for. -/
def closed (header : Header) (done : List Node) (id : Nat) : Shape :=
  match header with
  | .array items => .array items
  | .conditional header test =>
    let before := done.takeWhile (!·.isElse)
    .conditional header test (branchIds (id + 1) before)
      (branchIds (id + 1 + sizes before) (done.dropWhile (!·.isElse)))

section

variable {l : Layer} {outer : List Layer} {n : Node}

theorem change?_append (before : List Entry) (e : Entry) (rest : List Entry) (f : Entry → Entry) :
    change? (before ++ e :: rest) before.length f = some (before ++ f e :: rest) := by
  simp [change?]

theorem length_put (l : Layer) (before : List Entry) (inner : List Nat) :
    (l.put before inner).length = before.length + 1 + sizes l.done := by
  rw [Layer.put, List.length_append, List.length_cons, length_entriesList]
  omega

theorem length_front (layers : List Layer) : (front layers).length = (layout layers).length := by
  cases layers with
  | nil => rfl
  | cons l outer => rw [front, layout, length_put, length_put]

theorem scopeIds_cons (l : Layer) (outer : List Layer) :
    scopeIds (l :: outer) = (layout outer).length :: scopeIds outer := by
  rw [scopeIds, length_front]

theorem length_scopeIds (layers : List Layer) : (scopeIds layers).length = layers.length := by
  induction layers with
  | nil => rfl
  | cons l outer ih => rw [scopeIds, List.length_cons, List.length_cons, ih]

theorem holds_layout (l : Layer) (outer : List Layer) :
    Holds (layout (l :: outer)) (front outer).length
      (⟨(front outer).length, l.shape, ids ((front outer).length + 1) l.done⟩ ::
        entriesList ((front outer).length + 1) l.done) := by
  refine ⟨[], ?_⟩
  rw [List.append_nil, layout, Layer.put, List.append_nil, List.drop_left]

theorem entries_of_body (id : Nat) (h : n.body = []) : entries id n = [⟨id, n.shape, []⟩] := by
  cases n with
  | conditional header test before after =>
    obtain ⟨rfl, rfl⟩ := List.append_eq_nil_iff.1 h
    rfl
  | array items body =>
    obtain rfl : body = [] := h
    rfl
  | _ => rfl

/-- A new entry is a new innermost node. -/
theorem push?_layout (l : Layer) (outer : List Layer) (shape : Shape) :
    push? (layout (l :: outer)) (front outer).length shape =
      some (layout (⟨shape, []⟩ :: l :: outer)) := by
  rw [push?, ← length_front, layout, Layer.put, List.append_assoc, List.cons_append,
    change?_append, List.append_nil, layout, Layer.put, front, length_put, Layer.put,
    List.append_assoc, List.cons_append]
  rfl

/-- A node that is closed is one more done in the next one. -/
theorem layout_done (shape : Nat → Shape) {done : List Node}
    (h : ∀ id, entries id n = ⟨id, shape id, ids (id + 1) done⟩ :: entriesList (id + 1) done) :
    layout (⟨shape (front (l :: outer)).length, done⟩ :: l :: outer) =
      layout (⟨l.shape, l.done ++ [n]⟩ :: outer) := by
  have hlast : entriesList ((front outer).length + 1 + sizes l.done) [n] =
      entries ((front outer).length + 1 + sizes l.done) n := by
    rw [entriesList, entriesList, List.append_nil]
  rw [layout, Layer.put, List.append_nil, ← h, front, length_put, layout, Layer.put, Layer.put,
    List.append_assoc, List.cons_append, List.append_nil, entriesList_append, ids_append, hlast]
  rfl

/-- The children of a closed conditional are parted, and all of them are still its children. -/
theorem entries_close (header : Header) (id : Nat) (done : List Node) :
    entries id (header.close done) =
      ⟨id, closed header done id, ids (id + 1) done⟩ :: entriesList (id + 1) done := by
  cases header with
  | array items => rfl
  | conditional header test =>
    have hdone := List.takeWhile_append_dropWhile (p := (!·.isElse)) (l := done)
    rw [Header.close, Node.ofCondition, entries, ← ids_append, ← entriesList_append, hdone]
    rfl

theorem exitScope?_layout (header : Header) (done : List Node) (outer : List Layer) :
    exitScope? (layout (⟨(header.close []).shape, done⟩ :: outer)) (front outer).length =
      some (layout (⟨closed header done (front outer).length, done⟩ :: outer)) := by
  have hheld := holds_layout ⟨(header.close []).shape, done⟩ outer
  rw [exitScope?, hheld.head, Option.bind_eq_bind, Option.bind_some, split?_eq hheld.tail,
    Option.bind_eq_bind, Option.bind_some]
  cases header with
  | array items => rfl
  | conditional header test =>
    rw [layout, Layer.put, List.append_nil, layout, Layer.put, List.append_nil]
    exact change?_append ..

end

/-! The stream. -/

def layer (frame : Frame) : Layer :=
  ⟨(frame.header.close []).shape, frame.done.reverse⟩

def layers (s : State) : List Layer := s.frames.map layer ++ [⟨.root, s.root.reverse⟩]

/-- The arena and the stack that stand for a state. -/
def ofState (s : State) : Builder := ⟨layout (layers s), scopeIds (layers s)⟩

section

variable {s : State} {n : Node} {l : Layer} {outer : List Layer}

theorem layers_eq_cons (s : State) : ∃ l outer, layers s = l :: outer := by
  obtain ⟨root, _ | ⟨frame, frames⟩⟩ := s
  · exact ⟨_, _, rfl⟩
  · exact ⟨_, _, rfl⟩

theorem layers_add (n : Node) (h : layers s = l :: outer) :
    layers (s.add n) = ⟨l.shape, l.done ++ [n]⟩ :: outer := by
  obtain ⟨root, _ | ⟨frame, frames⟩⟩ := s
  · obtain ⟨rfl, rfl⟩ := List.cons.inj h
    simp [State.add, layers]
  · obtain ⟨rfl, rfl⟩ := List.cons.inj h
    simp [State.add, layers, layer]

theorem add?_leaf (hbody : n.body = []) (hopens : n.opensScope = false) :
    (ofState s).add? n = some (ofState (s.add n)) := by
  obtain ⟨l, outer, hl⟩ := layers_eq_cons s
  have hadd := layers_add n hl
  have hdone : layout (⟨n.shape, []⟩ :: l :: outer) = layout (layers (s.add n)) := by
    rw [hadd]
    exact layout_done (fun _ => n.shape) fun id => entries_of_body id hbody
  rw [Builder.add?, Builder.parent, ofState, hl]
  show (push? (layout (l :: outer)) (front outer).length n.shape >>= _) = _
  rw [push?_layout, hdone, hopens, ofState, hadd]
  rfl

theorem add?_block (header : Header) :
    (ofState s).add? (header.close []) = some (ofState (s.enter header)) := by
  obtain ⟨l, outer, hl⟩ := layers_eq_cons s
  have henter : layers (s.enter header) = ⟨(header.close []).shape, []⟩ :: l :: outer := by
    rw [← hl]
    rfl
  have hopens : (header.close []).opensScope = true := by cases header <;> rfl
  rw [Builder.add?, Builder.parent, ofState, hl]
  show (push? (layout (l :: outer)) (front outer).length _ >>= _) = _
  rw [push?_layout, hopens, ofState, henter, scopeIds_cons _ (l :: outer)]
  rfl

theorem exitScope?_ofState (root : List Node) (frame : Frame) (frames : List Frame) :
    exitScope? (layout (layers ⟨root, frame :: frames⟩)) (front (layers ⟨root, frames⟩)).length =
      some (layout (layers (State.add (frame.header.close frame.done.reverse) ⟨root, frames⟩))) := by
  obtain ⟨l, outer, hl⟩ := layers_eq_cons ⟨root, frames⟩
  have hlayers : layers ⟨root, frame :: frames⟩ = layer frame :: l :: outer := by
    rw [← hl]
    rfl
  rw [hlayers, hl, layers_add _ hl, layer, exitScope?_layout]
  exact congrArg some (layout_done _ fun id => entries_close frame.header id frame.done.reverse)

theorem scopeIds_add (n : Node) (s : State) : scopeIds (layers (s.add n)) = scopeIds (layers s) := by
  obtain ⟨l, outer, hl⟩ := layers_eq_cons s
  rw [layers_add n hl, hl, scopeIds, scopeIds]

theorem close?_ofState (root : List Node) (frame : Frame) (frames : List Frame) :
    (ofState ⟨root, frame :: frames⟩).close? =
      some (ofState (State.add (frame.header.close frame.done.reverse) ⟨root, frames⟩)) := by
  rw [Builder.close?, Builder.parent, ofState]
  show (exitScope? _ (front (layers ⟨root, frames⟩)).length >>= _) = _
  rw [exitScope?_ofState, ofState, scopeIds_add]
  rfl

/-- What a fragment does to a state it does to the arena and the stack. -/
theorem step_ofState (s : State) (f : Fragment) :
    (ofState s).step f = Checked.of ((s.step f).map ofState) := by
  rw [Builder.step, State.step]
  cases f.kind with
  | text =>
    dsimp only
    rw [add?_leaf rfl rfl]
    rfl
  | «variable» =>
    dsimp only
    rw [add?_leaf rfl rfl]
    rfl
  | closing =>
    obtain ⟨root, _ | ⟨frame, frames⟩⟩ := s
    · rfl
    · have hlength : (ofState ⟨root, frame :: frames⟩).scopes.length ≠ 1 := by
        simp [ofState, length_scopeIds, layers]
      dsimp only
      rw [if_neg hlength, close?_ofState]
      rfl
  | opening =>
    dsimp only
    rw [openMarker_eq]
    cases hopen : Compile.openMarker f with
    | error e => rfl
    | ok opened =>
      rw [Checked.of_ok_bind]
      cases opened with
      | block header =>
        rw [Opened.toNode, add?_block]
        rfl
      | node n =>
        obtain rfl := (Brackets.openMarker_eq_node hopen).1
        rw [Opened.toNode, add?_leaf rfl rfl]
        rfl

theorem run_ofState (s : State) (fs : List Fragment) :
    fs.foldlM Builder.step (ofState s) = Checked.of ((fs.foldlM State.step s).map ofState) := by
  induction fs generalizing s with
  | nil => rfl
  | cons f fs ih =>
    rw [List.foldlM_cons, List.foldlM_cons, step_ofState]
    cases s.step f with
    | error e => rfl
    | ok s' => exact ih s'

/-- Closing the blocks one by one ends with what closing all of them gives. -/
theorem exitAll?_ofState (s : State) :
    exitAll? (ofState s).nodes (ofState s).scopes = some (Template.outline s.finish) := by
  induction hcount : s.frames.length generalizing s with
  | zero =>
    obtain ⟨root, _ | ⟨frame, frames⟩⟩ := s
    · show some (layout [⟨.root, root.reverse⟩]) = _
      rw [layout, Layer.put, List.append_nil]
      rfl
    · cases hcount
  | succ count ih =>
    obtain ⟨root, _ | ⟨frame, frames⟩⟩ := s
    · cases hcount
    have hclose : State.close? ⟨root, frame :: frames⟩ =
        some (State.add (frame.header.close frame.done.reverse) ⟨root, frames⟩) := rfl
    obtain ⟨hopen, hfinish⟩ := State.finish_close? hclose
    have hrest := ih (State.add (frame.header.close frame.done.reverse) ⟨root, frames⟩)
      (Nat.succ.inj (hopen.trans hcount))
    obtain ⟨l, outer, hl⟩ := layers_eq_cons ⟨root, frames⟩
    have hscopes : (ofState ⟨root, frame :: frames⟩).scopes =
        (front (layers ⟨root, frames⟩)).length :: (front outer).length :: scopeIds outer := by
      rw [← scopeIds, ← hl]
      rfl
    rw [← hfinish, ← hrest, hscopes, exitAll?]
    show (exitScope? (layout (layers ⟨root, frame :: frames⟩)) _ >>= _) = _
    rw [exitScope?_ofState, ofState, scopeIds_add, hl]
    rfl

theorem build_eq (fragments : List Fragment) :
    build fragments = Checked.of ((Template.ofFragments fragments).map Template.outline) := by
  have hrun := run_ofState .start fragments
  rw [build, Template.ofFragments]
  show (fragments.foldlM Builder.step (ofState .start) >>= _) = _
  rw [hrun]
  cases fragments.foldlM State.step .start with
  | error e => rfl
  | ok s =>
    show Checked.access (exitAll? (ofState s).nodes (ofState s).scopes) = _
    rw [exitAll?_ofState]
    rfl

end

end Compile.Checked

end Stencil
