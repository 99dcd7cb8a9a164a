import Stencil.Proofs.Bounds.Slices
import Stencil.Proofs.Scan.Lines
import Stencil.Proofs.Template.Fragments

/-! The scanner by byte offsets. It keeps the place that it looks at and the place where plain text
began, and cuts markers and plain text out of the source. No cut fails, and the pieces are those of
the scan. -/

namespace Stencil

/-- On one line only the column moves on, once for each character. -/
theorem Position.advance_line {cs : List Char} (h : '\n' ∉ cs) (p : Position) :
    p.advance cs = ⟨p.offset + bytes cs, p.line, p.column + cs.length⟩ := by
  induction cs generalizing p with
  | nil => rfl
  | cons c cs ih =>
    rw [List.mem_cons, not_or] at h
    have hnext : p.next c = ⟨p.offset + c.utf8Size, p.line, p.column + 1⟩ :=
      if_neg (Ne.symm h.1)
    show (p.next c).advance cs = _
    rw [ih h.2, hnext, bytes_cons, List.length_cons]
    simp only [Position.mk.injEq, true_and]
    omega

namespace Scan

/-- Looks at `here`; plain text began at `text`. -/
structure Cursor where
  here : Position
  text : Position
  pieces : List Piece

namespace Cursor

def start : Cursor := ⟨.start, .start, []⟩

/-- The offset at which the first line ends. -/
def lineEnd (rest : List Char) : Nat := bytes (rest.takeWhile (· != '\n'))

/-- The first listed pair with a marker in `rest`, which stands at offset `pos`, and the offset
behind that marker. -/
def findMarker (pos : Nat) (rest : List Char) :
    List Delimiter → Option (Option (Delimiter × Nat))
  | [] => some none
  | d :: ds =>
    if d.opening.toList.isPrefixOf rest then do
      let body ← Text.cut? rest (bytes d.opening.toList) (lineEnd rest)
      match Text.findBytes? d.closing.toList body with
      | some inner =>
        return some (d, pos + bytes d.opening.toList + inner + bytes d.closing.toList)
      | none => findMarker pos rest ds
    else findMarker pos rest ds

def matchMarker (ds : List Delimiter) (source : List Char) (c : Cursor) :
    Option (Option (Delimiter × Nat)) := do
  let rest ← Text.from? source c.here.offset
  findMarker c.here.offset rest ds

/-- Ends the plain text here, if there is any. -/
def flush (source : List Char) (c : Cursor) : Option Cursor :=
  if c.text.offset < c.here.offset then do
    let text ← Text.cut? source c.text.offset c.here.offset
    let span := ⟨c.text.offset, c.here.offset, c.text.line, c.text.column⟩
    return ⟨c.here, c.here, c.pieces ++ [⟨none, String.ofList text, span⟩]⟩
  else return ⟨c.here, c.here, c.pieces⟩

def emit (source : List Char) (d : Delimiter) (stop : Nat) (c : Cursor) : Option Cursor := do
  let text ← Text.cut? source c.here.offset stop
  let span := ⟨c.here.offset, stop, c.here.line, c.here.column⟩
  let behind := ⟨stop, c.here.line, c.here.column + text.length⟩
  return ⟨behind, behind, c.pieces ++ [⟨some d, String.ofList text, span⟩]⟩

def advance (source : List Char) (c : Cursor) : Option Cursor := do
  match ← Text.from? source c.here.offset with
  | [] => return c
  | ch :: _ => return ⟨c.here.next ch, c.text, c.pieces⟩

/-- Goes on to the end of the source. -/
def loop (ds : List Delimiter) (source : List Char) : (fuel : Nat) → Cursor → Option Cursor
  | 0, _ => none
  | fuel + 1, c =>
    if bytes source ≤ c.here.offset then some c
    else do
      match ← c.matchMarker ds source with
      | some (d, stop) => loop ds source fuel (← (← c.flush source).emit source d stop)
      | none => loop ds source fuel (← c.advance source)

/-- The pieces once the rest of the source is read. -/
def collect (ds : List Delimiter) (source : List Char) (fuel : Nat) (c : Cursor) :
    Option (List Piece) := do
  let c ← loop ds source fuel c
  return (← c.flush source).pieces

end Cursor

/-- Every character takes a step at most. -/
def checked (ds : List Delimiter) (source : String) : Option (List Piece) :=
  Cursor.start.collect ds source.toList (source.toList.length + 1)

variable {ds : List Delimiter} {d : Delimiter} {before pending rest text : List Char}
  {pieces : List Piece} {n : Nat} {rs : List Run}

/-! Markers. -/

theorem marker?_cons (d : Delimiter) (ds : List Delimiter) (rest : List Char) :
    marker? (d :: ds) rest =
      ((d.markerLength? rest).map (d, ·)).or (marker? ds rest) := by
  rw [marker?, List.findSome?_cons]
  cases d.markerLength? rest <;> rfl

/-- What is searched for the closing text is the rest of the line. -/
theorem cut_line (hd : d.OneLine) (behind : List Char) :
    Text.cut? (d.opening.toList ++ behind) (bytes d.opening.toList)
        (Cursor.lineEnd (d.opening.toList ++ behind)) =
      some (behind.takeWhile (· != '\n')) := by
  have hopening : ∀ c ∈ d.opening.toList, (c != '\n') = true := fun c hc =>
    bne_iff_ne.2 fun heq => hd.opening_line (heq ▸ hc)
  have hline : (d.opening.toList ++ behind).takeWhile (· != '\n') =
      d.opening.toList ++ behind.takeWhile (· != '\n') :=
    List.takeWhile_append_of_pos hopening
  have hcut := Text.cut?_bytes d.opening.toList (behind.takeWhile (· != '\n'))
    (behind.dropWhile (· != '\n'))
  rw [List.append_assoc, List.takeWhile_append_dropWhile] at hcut
  rw [Cursor.lineEnd, hline, bytes_append, hcut]

theorem markerLength?_append (d : Delimiter) (behind : List Char) :
    d.markerLength? (d.opening.toList ++ behind) =
      (Text.find? d.closing.toList (behind.takeWhile (· != '\n'))).map fun inner =>
        d.opening.length + inner + d.closing.length := by
  rw [Delimiter.markerLength?, Text.isPrefixOf?_eq_some.2 rfl, Option.bind_eq_bind,
    Option.bind_some]
  cases Text.find? d.closing.toList (behind.takeWhile (· != '\n')) <;> rfl

/-- The offset behind a marker follows from where its closing text was found. -/
theorem bytes_marker {behind : List Char}
    (h : Text.find? d.closing.toList (behind.takeWhile (· != '\n')) = some n) :
    bytes d.opening.toList + bytes ((behind.takeWhile (· != '\n')).take n) +
        bytes d.closing.toList =
      bytes ((d.opening.toList ++ behind).take (d.opening.length + n + d.closing.length)) := by
  obtain ⟨inner, hprefix, rfl⟩ := Text.find?_prefix h
  obtain ⟨tail, htail⟩ := hprefix
  obtain ⟨more, rfl⟩ : ∃ more, behind = inner ++ d.closing.toList ++ more :=
    ⟨tail ++ behind.dropWhile (· != '\n'), by
      rw [← List.append_assoc, htail, List.takeWhile_append_dropWhile]⟩
  have hlength : d.opening.length + inner.length + d.closing.length =
      (d.opening.toList ++ inner ++ d.closing.toList).length := by
    simp only [List.length_append, String.length_toList]
  have hwhole : d.opening.toList ++ (inner ++ d.closing.toList ++ more) =
      d.opening.toList ++ inner ++ d.closing.toList ++ more := by simp only [List.append_assoc]
  rw [← htail, List.append_assoc inner, List.take_left, hlength, hwhole, List.take_left,
    bytes_append, bytes_append]

theorem findMarker_eq (hds : ∀ d ∈ ds, d.OneLine) (pos : Nat) (rest : List Char) :
    Cursor.findMarker pos rest ds =
      some ((marker? ds rest).map fun found => (found.1, pos + bytes (rest.take found.2))) := by
  induction ds with
  | nil => rfl
  | cons d ds ih =>
    obtain ⟨hd, hds⟩ := List.forall_mem_cons.1 hds
    rw [Cursor.findMarker, marker?_cons, ih hds]
    split
    · next hopening =>
      obtain ⟨behind, rfl⟩ := List.isPrefixOf_iff_prefix.1 hopening
      rw [cut_line hd, markerLength?_append, Option.bind_eq_bind, Option.bind_some,
        Text.findBytes?]
      cases hfind : Text.find? d.closing.toList (behind.takeWhile (· != '\n')) with
      | none => rfl
      | some inner =>
        have hbytes := bytes_marker hfind
        simp only [Option.map_some, Option.some_or]
        rw [← hbytes]
        simp only [Nat.add_assoc]
        rfl
    · next hopening =>
      have hnone : d.markerLength? rest = none := by
        cases hprefix : d.opening.toList.isPrefixOf? rest with
        | none => rw [Delimiter.markerLength?, hprefix]; rfl
        | some behind =>
          obtain rfl := Text.isPrefixOf?_eq_some.1 hprefix
          exact absurd (List.isPrefixOf_iff_prefix.2 (List.prefix_append _ _)) hopening
      rw [hnone]
      rfl

/-! Plain text. -/

/-- Plain text as a run, if there is any. -/
def plain (cs : List Char) : List Run := if cs = [] then [] else [⟨none, cs⟩]

theorem text_plain (cs : List Char) : Scan.text (plain cs) = cs := by
  rw [plain]
  split
  · next hcs => exact hcs.symm
  · exact List.append_nil cs

theorem foldr_glue (hrs : ∀ r ∈ rs.head?, r.delimiter.isSome) (cs : List Char) :
    cs.foldr glue rs = plain cs ++ rs := by
  induction cs with
  | nil => rfl
  | cons c cs ih =>
    rw [List.foldr_cons, ih]
    cases cs with
    | cons c' cs => rfl
    | nil =>
      cases rs with
      | nil => rfl
      | cons r rs =>
        obtain ⟨_ | d, chars⟩ := r
        · exact absurd (hrs _ rfl) Bool.false_ne_true
        · rfl

/-! Steps. A cursor has read `before`, and the plain text `pending` behind it. -/

/-- The cursor that has read this much. -/
def reading (before pending : List Char) (pieces : List Piece) : Cursor :=
  ⟨Position.start.advance (before ++ pending), Position.start.advance before, pieces⟩

theorem offset_start (cs : List Char) : (Position.start.advance cs).offset = bytes cs := by
  rw [Position.offset_advance]
  exact Nat.zero_add _

theorem flush_reading (before pending rest : List Char) (pieces : List Piece) :
    (reading before pending pieces).flush (before ++ pending ++ rest) =
      some (reading (before ++ pending) []
        (pieces ++ place (Position.start.advance before) (plain pending))) := by
  rw [Cursor.flush, reading, reading, offset_start, offset_start, bytes_append, plain]
  by_cases hpending : pending = []
  · subst hpending
    rw [if_neg (by simp [bytes]), if_pos rfl, place]
    simp only [List.append_nil]
    rfl
  · have hpos := bytes_pos hpending
    rw [List.append_nil, if_pos (by omega), if_neg hpending, Text.cut?_bytes]
    simp only [place, ← Position.advance_append, offset_start, bytes_append]
    rfl

theorem emit_reading (hline : '\n' ∉ text) (d : Delimiter) (before rest : List Char)
    (pieces : List Piece) :
    (reading before [] pieces).emit (before ++ text ++ rest) d (bytes before + bytes text) =
      some (reading (before ++ text) []
        (pieces ++ place (Position.start.advance before) [⟨some d, text⟩])) := by
  rw [Cursor.emit, reading, reading, List.append_nil, List.append_nil, offset_start,
    Text.cut?_bytes, Position.advance_append, Position.advance_line hline]
  simp only [place, Position.advance_line hline, offset_start]
  rfl

theorem place_marker (d : Delimiter) (before pending text : List Char) (rs : List Run) :
    place (Position.start.advance before) (plain pending ++ ⟨some d, text⟩ :: rs) =
      place (Position.start.advance before) (plain pending ++ [⟨some d, text⟩]) ++
        place (Position.start.advance (before ++ pending ++ text)) rs := by
  have htext : Scan.text (plain pending ++ [⟨some d, text⟩]) = pending ++ text := by
    rw [text_append, text_plain]
    exact congrArg (pending ++ ·) (List.append_nil text)
  rw [List.append_cons, place_append, htext, List.append_assoc before, Position.advance_append _ before]

/-- A marker ends the plain text in front of it. -/
theorem emit_flush_reading (hline : '\n' ∉ text) (d : Delimiter) (before pending rest : List Char)
    (pieces : List Piece) :
    ((reading before pending pieces).flush (before ++ pending ++ text ++ rest)).bind
        (·.emit (before ++ pending ++ text ++ rest) d (bytes (before ++ pending) + bytes text)) =
      some (reading (before ++ pending ++ text) [] (pieces ++
        place (Position.start.advance before) (plain pending ++ [⟨some d, text⟩]))) := by
  rw [List.append_assoc _ text, flush_reading, Option.bind_some, ← List.append_assoc _ text,
    emit_reading hline, place_append, text_plain, Position.advance_append, ← List.append_assoc pieces]

theorem advance_reading (c : Char) (before pending rest : List Char) (pieces : List Piece) :
    (reading before pending pieces).advance (before ++ pending ++ c :: rest) =
      some (reading before (pending ++ [c]) pieces) := by
  rw [Cursor.advance, reading, offset_start, Text.from?_bytes, reading, ← List.append_assoc,
    Position.advance_append _ _ [c]]
  rfl

theorem matchMarker_reading (hds : ∀ d ∈ ds, d.OneLine) (before pending rest : List Char)
    (pieces : List Piece) :
    (reading before pending pieces).matchMarker ds (before ++ pending ++ rest) =
      some ((marker? ds rest).map fun found =>
        (found.1, bytes (before ++ pending) + bytes (rest.take found.2))) := by
  rw [Cursor.matchMarker, reading, offset_start, Text.from?_bytes]
  exact findMarker_eq hds _ rest

theorem collect_succ (ds : List Delimiter) (source : List Char) (fuel : Nat) (c : Cursor) :
    c.collect ds source (fuel + 1) =
      if bytes source ≤ c.here.offset then (c.flush source).map (·.pieces)
      else (c.matchMarker ds source).bind fun
        | some (d, stop) =>
          ((c.flush source).bind (·.emit source d stop)).bind (·.collect ds source fuel)
        | none => (c.advance source).bind (·.collect ds source fuel) := by
  rw [Cursor.collect, Cursor.loop]
  split
  · rw [Option.bind_eq_bind, Option.bind_some]
    cases c.flush source <;> rfl
  · cases c.matchMarker ds source with
    | none => rfl
    | some found =>
      cases found with
      | none => cases c.advance source <;> rfl
      | some found =>
        cases c.flush source with
        | none => rfl
        | some flushed =>
          simp only [Option.bind_eq_bind, Option.bind_some]
          cases flushed.emit source found.1 found.2 <;> rfl

/-- The pieces that are left to be cut are those of what is left to be read. -/
theorem collect_reading (hds : ∀ d ∈ ds, d.OneLine) (fuel : Nat) (rest before pending : List Char)
    (pieces : List Piece) (hfuel : rest.length < fuel) :
    (reading before pending pieces).collect ds (before ++ pending ++ rest) fuel =
      some (pieces ++
        place (Position.start.advance before) (pending.foldr glue (runsFrom ds 0 rest))) := by
  induction fuel generalizing rest before pending pieces with
  | zero => exact absurd hfuel (Nat.not_lt_zero _)
  | succ fuel ih =>
    have hhere : (reading before pending pieces).here.offset = bytes (before ++ pending) :=
      offset_start _
    rw [collect_succ, hhere, matchMarker_reading hds]
    cases rest with
    | nil =>
      have hrest : runsFrom ds 0 [] = [] := rfl
      rw [if_pos (by rw [List.append_nil]), flush_reading, hrest, foldr_glue (by simp),
        List.append_nil]
      rfl
    | cons c rest =>
      have hmore := bytes_pos (List.cons_ne_nil c rest)
      rw [if_neg (by rw [bytes_append]; omega)]
      cases hmarker : marker? ds (c :: rest) with
      | none =>
        rw [Option.map_none, Option.bind_some]
        dsimp only
        have hnext := ih rest before (pending ++ [c]) pieces (Nat.lt_of_succ_lt_succ hfuel)
        rw [advance_reading, Option.bind_some, List.append_cons, List.append_assoc before, hnext,
          List.foldr_concat, runsFrom, hmarker]
      | some found =>
        obtain ⟨d, n⟩ := found
        have hline := marker?_line hds hmarker
        obtain ⟨hpos, -⟩ := marker?_moves hds hmarker
        obtain ⟨n, rfl⟩ := Nat.exists_eq_add_one.2 hpos
        have hruns := runsFrom_marker hmarker
        have hsplit : c :: rest = (c :: rest).take (n + 1) ++ rest.drop n :=
          (List.take_append_drop (n + 1) (c :: rest)).symm
        rw [Option.map_some, Option.bind_some]
        dsimp only
        generalize (c :: rest).take (n + 1) = text at hline hruns hsplit ⊢
        have hshort : (rest.drop n).length < fuel := by
          rw [List.length_drop]
          rw [List.length_cons] at hfuel
          omega
        have hnext := ih (rest.drop n) (before ++ pending ++ text) []
          (pieces ++ place (Position.start.advance before) (plain pending ++ [⟨some d, text⟩])) hshort
        rw [List.append_nil, List.foldr_nil] at hnext
        rw [hruns, hsplit, ← List.append_assoc _ text, emit_flush_reading hline, Option.bind_some,
          hnext, foldr_glue (by simp), place_marker _ _ _ _ (runsFrom ds 0 (rest.drop n)),
          List.append_assoc pieces]

theorem checked_eq (hds : ∀ d ∈ ds, d.OneLine) (source : String) :
    checked ds source = some (scan ds source) :=
  collect_reading hds _ source.toList [] [] [] (Nat.lt_succ_self _)

end Scan

namespace Fragment

/-- The fragments of a template by way of the cursor. -/
def checkedSource (source : String) : Option (List Fragment) :=
  (Scan.checked [variableMarker, blockMarker] source).map (·.map ofPiece)

theorem checkedSource_eq (source : String) : checkedSource source = some (ofSource source) := by
  rw [checkedSource, Scan.checked_eq (variableMarker_oneLine.pair blockMarker_oneLine),
    Option.map_some, ofSource]

end Fragment

end Stencil
