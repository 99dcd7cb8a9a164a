import Stencil.Text.Blank

/-! Scanning text for one-line markers. A marker is the opening text of a delimiter pair, then
anything up to the first closing text of that pair on the same line. The first place that starts
a marker wins, and at one place the pair listed first. Everything else is plain text. -/

namespace Stencil

structure Delimiter where
  opening : String
  closing : String
deriving DecidableEq

/-- A place in a text: the byte offset from 0, the line and the column, in characters, from 1. -/
structure Position where
  offset : Nat
  line : Nat
  column : Nat
deriving DecidableEq

structure Span where
  start : Nat
  stop : Nat
  line : Nat
  column : Nat
deriving DecidableEq

/-- A marker with its delimiter, or the plain text between two markers. -/
structure Run where
  delimiter : Option Delimiter
  chars : List Char
deriving DecidableEq

/-- A run together with the place where it stands. -/
structure Piece where
  delimiter : Option Delimiter
  text : String
  span : Span
deriving DecidableEq

namespace Delimiter

/-- The trimmed text between the two ends, if `raw` has them both. -/
def strip (d : Delimiter) (raw : List Char) : Option (List Char) := do
  let body ← d.opening.toList.isPrefixOf? raw
  let inner ← d.closing.toList.isSuffixOf? body
  return Text.trim inner

/-- The length of the marker of this pair that `cs` starts with. -/
def markerLength? (d : Delimiter) (cs : List Char) : Option Nat := do
  let body ← d.opening.toList.isPrefixOf? cs
  let inner ← Text.find? d.closing.toList (body.takeWhile (· != '\n'))
  return d.opening.length + inner + d.closing.length

/-- A pair that can mark something on one line. -/
structure OneLine (d : Delimiter) : Prop where
  opening_ne : d.opening.toList ≠ []
  opening_line : '\n' ∉ d.opening.toList
  closing_line : '\n' ∉ d.closing.toList

instance (d : Delimiter) : Decidable d.OneLine :=
  decidable_of_iff
    (d.opening.toList ≠ [] ∧ '\n' ∉ d.opening.toList ∧ '\n' ∉ d.closing.toList)
    ⟨fun h => ⟨h.1, h.2.1, h.2.2⟩, fun h => ⟨h.opening_ne, h.opening_line, h.closing_line⟩⟩

theorem OneLine.single {d : Delimiter} (hd : d.OneLine) : ∀ x ∈ [d], x.OneLine :=
  List.forall_mem_singleton.2 hd

theorem OneLine.pair {d e : Delimiter} (hd : d.OneLine) (he : e.OneLine) :
    ∀ x ∈ [d, e], x.OneLine :=
  List.forall_mem_cons.2 ⟨hd, List.forall_mem_singleton.2 he⟩

end Delimiter

namespace Position

def start : Position := ⟨0, 1, 1⟩

def next (p : Position) (c : Char) : Position :=
  if c = '\n' then ⟨p.offset + c.utf8Size, p.line + 1, 1⟩
  else ⟨p.offset + c.utf8Size, p.line, p.column + 1⟩

def advance (p : Position) (cs : List Char) : Position := cs.foldl next p

end Position

namespace Scan

/-- The first listed pair that has a marker here, with the length of that marker. -/
def marker? (ds : List Delimiter) (cs : List Char) : Option (Delimiter × Nat) :=
  ds.findSome? fun d => (d.markerLength? cs).map (d, ·)

/-- Puts a character of plain text in front of the runs that follow it. -/
def glue (c : Char) : List Run → List Run
  | ⟨none, cs⟩ :: runs => ⟨none, c :: cs⟩ :: runs
  | runs => ⟨none, [c]⟩ :: runs

/-- The runs of a text, of which the first `skip` characters belong to a marker already seen. -/
def runsFrom (ds : List Delimiter) : (skip : Nat) → List Char → List Run
  | _, [] => []
  | n + 1, _ :: cs => runsFrom ds n cs
  | 0, c :: cs =>
    match marker? ds (c :: cs) with
    | some (d, n + 1) => ⟨some d, (c :: cs).take (n + 1)⟩ :: runsFrom ds n cs
    | _ => glue c (runsFrom ds 0 cs)

def runs (ds : List Delimiter) (cs : List Char) : List Run := runsFrom ds 0 cs

/-- Gives each run its span, the first one starting at `p`. -/
def place (p : Position) : List Run → List Piece
  | [] => []
  | r :: rs =>
    let q := p.advance r.chars
    ⟨r.delimiter, String.ofList r.chars, ⟨p.offset, q.offset, p.line, p.column⟩⟩ :: place q rs

theorem chars_glue (c : Char) (runs : List Run) :
    (glue c runs).flatMap (·.chars) = c :: runs.flatMap (·.chars) := by
  unfold glue
  split <;> simp

theorem chars_runsFrom (ds : List Delimiter) (skip : Nat) (cs : List Char) :
    (runsFrom ds skip cs).flatMap (·.chars) = cs.drop skip := by
  fun_induction runsFrom ds skip cs with
  | case1 => simp
  | case2 _ _ _ ih => simpa using ih
  | case3 _ _ _ _ _ ih => simp [ih]
  | case4 _ _ _ ih => simp [chars_glue, ih]

theorem runsFrom_skip (ds : List Delimiter) (n : Nat) (cs : List Char) :
    runsFrom ds n cs = runsFrom ds 0 (cs.drop n) := by
  induction cs generalizing n with
  | nil => rw [List.drop_nil, runsFrom, runsFrom]
  | cons c cs ih =>
    cases n with
    | zero => rfl
    | succ n => rw [runsFrom, ih, List.drop_succ_cons]

theorem runsFrom_marker {ds : List Delimiter} {d : Delimiter} {c : Char} {rest : List Char}
    {n : Nat} (h : marker? ds (c :: rest) = some (d, n + 1)) : runsFrom ds 0 (c :: rest) =
      ⟨some d, (c :: rest).take (n + 1)⟩ :: runsFrom ds 0 (rest.drop n) := by
  rw [runsFrom, h]
  dsimp only
  rw [runsFrom_skip]

theorem chars_runs (ds : List Delimiter) (cs : List Char) :
    (runs ds cs).flatMap (·.chars) = cs :=
  chars_runsFrom ds 0 cs

theorem text_place (p : Position) (rs : List Run) :
    (place p rs).flatMap (·.text.toList) = rs.flatMap (·.chars) := by
  induction rs generalizing p with
  | nil => rfl
  | cons r rs ih => simp [place, ih]
end Scan

/-- The pieces of a text in order. -/
def scan (ds : List Delimiter) (source : String) : List Piece :=
  Scan.place .start (Scan.runs ds source.toList)

/-- Scanning loses nothing. -/
theorem text_scan (ds : List Delimiter) (source : String) :
    (scan ds source).flatMap (·.text.toList) = source.toList := by
  rw [scan, Scan.text_place, Scan.chars_runs]
/-- The trimmed text inside a marker; plain text has none. -/
def Piece.inner? (p : Piece) : Option String :=
  p.delimiter.bind fun d => (d.strip p.text.toList).map String.ofList

end Stencil
