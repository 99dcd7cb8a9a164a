import Stencil.Proofs.Scan.Marker

/-! A scan finds exactly the leftmost, shortest, first listed markers: each marker stands where
the search finds one, and inside plain text the search finds none. -/

namespace Stencil

/-- The number of bytes of a text. -/
def bytes (cs : List Char) : Nat := (String.ofList cs).utf8ByteSize

theorem bytes_toList (s : String) : bytes s.toList = s.utf8ByteSize := by
  rw [bytes, String.ofList_toList]

theorem bytes_append (as bs : List Char) : bytes (as ++ bs) = bytes as + bytes bs := by
  rw [bytes, String.ofList_append, String.utf8ByteSize_append]
  rfl

theorem bytes_cons (c : Char) (cs : List Char) : bytes (c :: cs) = c.utf8Size + bytes cs := by
  rw [← List.singleton_append, bytes_append]
  congr 1
  exact String.utf8ByteSize_singleton

theorem bytes_pos {cs : List Char} (h : cs ≠ []) : 0 < bytes cs := by
  cases cs with
  | nil => exact absurd rfl h
  | cons c cs =>
    have := c.utf8Size_pos
    rw [bytes_cons]
    omega

theorem eq_nil_of_bytes {cs : List Char} (h : bytes cs = 0) : cs = [] := by
  by_cases hcs : cs = []
  · exact hcs
  · have := bytes_pos hcs
    omega

/-- Of two cuts through a text, the one with fewer bytes before it comes first. -/
theorem exists_between {as bs cs ds : List Char} (h : as ++ bs = cs ++ ds)
    (hle : bytes as ≤ bytes cs) : ∃ mid, cs = as ++ mid ∧ bs = mid ++ ds := by
  rcases List.append_eq_append_iff.1 h with ⟨mid, rfl, rfl⟩ | ⟨mid, rfl, rfl⟩
  · exact ⟨mid, rfl, rfl⟩
  · rw [bytes_append] at hle
    obtain rfl := eq_nil_of_bytes (show bytes mid = 0 by omega)
    exact ⟨[], by simp, by simp⟩

theorem Position.offset_advance (p : Position) (cs : List Char) :
    (p.advance cs).offset = p.offset + bytes cs := by
  induction cs generalizing p with
  | nil => rfl
  | cons c cs ih =>
    have hnext : (p.next c).offset = p.offset + c.utf8Size := by
      unfold next
      split <;> rfl
    show ((p.next c).advance cs).offset = _
    rw [ih, hnext, bytes_cons, Nat.add_assoc]

theorem Position.advance_append (p : Position) (as bs : List Char) :
    p.advance (as ++ bs) = (p.advance as).advance bs :=
  List.foldl_append

namespace Scan

/-- The text that runs cover. -/
def text (rs : List Run) : List Char := rs.flatMap (·.chars)

/-- What holds at the place of a run, which `rest` follows. -/
def Run.Found (ds : List Delimiter) (r : Run) (rest : List Char) : Prop :=
  match r.delimiter with
  | some d => marker? ds (r.chars ++ rest) = some (d, r.chars.length)
  | none => ∀ before behind, r.chars = before ++ behind → behind ≠ [] →
      marker? ds (behind ++ rest) = none

/-- Every run is what the search finds at its place. -/
def AllFound (ds : List Delimiter) : List Run → Prop
  | [] => True
  | r :: rs => Run.Found ds r (text rs) ∧ AllFound ds rs

variable {ds : List Delimiter} {rs : List Run}

theorem AllFound.at {left right : List Run} {r : Run} (h : AllFound ds (left ++ r :: right)) :
    Run.Found ds r (text right) := by
  induction left with
  | nil => exact h.1
  | cons l left ih => exact ih h.2

theorem AllFound.glue {c : Char} (h : AllFound ds rs)
    (hc : marker? ds (c :: text rs) = none) : AllFound ds (glue c rs) := by
  unfold Scan.glue
  split
  · next cs rs =>
    refine ⟨?_, h.2⟩
    intro before behind hsplit hne
    cases before with
    | nil =>
      obtain rfl : c :: cs = behind := hsplit
      exact hc
    | cons b before => exact h.1 before behind (List.cons.inj hsplit).2 hne
  · next rs =>
    refine ⟨?_, h⟩
    intro before behind hsplit hne
    cases before with
    | nil =>
      obtain rfl : [c] = behind := hsplit
      exact hc
    | cons b before =>
      have := (List.cons.inj hsplit).2
      exact absurd (List.append_eq_nil_iff.1 this.symm).2 hne

theorem allFound_runsFrom (hds : ∀ d ∈ ds, d.OneLine) (skip : Nat) (cs : List Char) :
    AllFound ds (runsFrom ds skip cs) := by
  fun_induction runsFrom ds skip cs with
  | case1 => trivial
  | case2 n c cs ih => exact ih
  | case3 c cs d n hm ih =>
    refine ⟨?_, ih⟩
    have htext : text (runsFrom ds n cs) = cs.drop n := chars_runsFrom ds n cs
    obtain ⟨-, inner, hshort, hlen⟩ := marker?_eq_some hds hm
    have hle : n + 1 ≤ (c :: cs).length := Nat.le_trans (Nat.le_of_eq hlen) hshort.1.1.length_le
    show marker? ds ((c :: cs).take (n + 1) ++ text (runsFrom ds n cs)) = some (d, _)
    rw [htext, List.length_take, Nat.min_eq_left hle, ← hm]
    congr 1
    exact List.take_append_drop (n + 1) (c :: cs)
  | case4 c cs hno ih =>
    refine ih.glue ?_
    rw [show text (runsFrom ds 0 cs) = cs from chars_runsFrom ds 0 cs]
    cases hm : marker? ds (c :: cs) with
    | none => rfl
    | some found =>
      -- no marker is empty, because its opening text is not
      obtain ⟨d, n⟩ := found
      obtain ⟨hfirst, inner, -, hlen⟩ := marker?_eq_some hds hm
      have hpos := (hds d hfirst.mem).length_write_pos inner
      obtain ⟨m, rfl⟩ : ∃ m, n = m + 1 := ⟨n - 1, by omega⟩
      exact absurd hm (hno d m)

/-! Pieces and their places. -/

/-- The piece of a run that `before` stands in front of. -/
def pieceAt (before : List Char) (r : Run) : Piece :=
  let p := Position.start.advance before
  ⟨r.delimiter, String.ofList r.chars, ⟨p.offset, (p.advance r.chars).offset, p.line, p.column⟩⟩

theorem start_pieceAt (before : List Char) (r : Run) :
    (pieceAt before r).span.start = bytes before := by
  show (Position.start.advance before).offset = _
  rw [Position.offset_advance]
  exact Nat.zero_add _

theorem stop_pieceAt (before : List Char) (r : Run) :
    (pieceAt before r).span.stop = bytes (before ++ r.chars) := by
  show ((Position.start.advance before).advance r.chars).offset = _
  rw [← Position.advance_append, Position.offset_advance]
  exact Nat.zero_add _

theorem mem_place {p : Position} {rs : List Run} {piece : Piece} :
    piece ∈ place p rs ↔ ∃ left r right, rs = left ++ r :: right ∧
      piece = ⟨r.delimiter, String.ofList r.chars, ⟨(p.advance (text left)).offset,
        ((p.advance (text left)).advance r.chars).offset, (p.advance (text left)).line,
        (p.advance (text left)).column⟩⟩ := by
  induction rs generalizing p with
  | nil => simp [place]
  | cons r rs ih =>
    rw [place, List.mem_cons, ih]
    constructor
    · rintro (rfl | ⟨left, r', right, rfl, rfl⟩)
      · exact ⟨[], r, rs, rfl, rfl⟩
      · refine ⟨r :: left, r', right, rfl, ?_⟩
        simp [text, Position.advance_append]
    · rintro ⟨left, r', right, hrs, rfl⟩
      cases left with
      | nil =>
        obtain ⟨rfl, rfl⟩ := List.cons.inj hrs
        exact .inl rfl
      | cons l left =>
        obtain ⟨rfl, rfl⟩ := List.cons.inj hrs
        refine .inr ⟨left, r', right, rfl, ?_⟩
        simp [text, Position.advance_append]

theorem mem_scan {source : String} {piece : Piece} :
    piece ∈ scan ds source ↔ ∃ left r right,
      runs ds source.toList = left ++ r :: right ∧ piece = pieceAt (text left) r :=
  mem_place

theorem text_runs (ds : List Delimiter) (cs : List Char) : text (runs ds cs) = cs :=
  chars_runs ds cs

theorem text_append (ls rs : List Run) : text (ls ++ rs) = text ls ++ text rs :=
  List.flatMap_append

theorem text_cons (r : Run) (rs : List Run) : text (r :: rs) = r.chars ++ text rs :=
  List.flatMap_cons

/-- A place before the end of the text lies in one of the runs. -/
theorem exists_run {rs : List Run} {before rest : List Char} (h : text rs = before ++ rest)
    (hne : rest ≠ []) : ∃ left r right inside behind, rs = left ++ r :: right ∧
      before = text left ++ inside ∧ r.chars = inside ++ behind ∧ behind ≠ [] ∧
      rest = behind ++ text right := by
  induction rs generalizing before rest with
  | nil => exact absurd (List.append_eq_nil_iff.1 h.symm).2 hne
  | cons r rs ih =>
    rw [text_cons] at h
    rcases List.append_eq_append_iff.1 h with ⟨mid, rfl, hrs⟩ | ⟨mid, hr, rfl⟩
    · obtain ⟨left, r', right, inside, behind, rfl, rfl, hr', hb, hrest⟩ := ih hrs hne
      refine ⟨r :: left, r', right, inside, behind, rfl, ?_, hr', hb, hrest⟩
      rw [text_cons, List.append_assoc]
    · cases mid with
      | nil =>
        rw [List.nil_append, List.append_nil] at *
        have hrs : text rs = [] ++ text rs := rfl
        obtain ⟨left, r', right, inside, behind, rfl, hin, hr', hb, hrest⟩ := ih hrs hne
        refine ⟨r :: left, r', right, inside, behind, rfl, ?_, hr', hb, hrest⟩
        rw [text_cons, List.append_assoc, ← hin, List.append_nil, hr]
      | cons c mid =>
        exact ⟨[], r, rs, before, c :: mid, rfl, rfl, hr, List.cons_ne_nil c mid, rfl⟩

/-- Runs do not overlap. -/
theorem stop_le_start {left right left' right' : List Run} {r r' : Run}
    (h : left ++ r :: right = left' ++ r' :: right') (hlt : bytes (text left') < bytes (text left)) :
    bytes (text left' ++ r'.chars) ≤ bytes (text left) := by
  rcases List.append_eq_append_iff.1 h with ⟨mid, rfl, -⟩ | ⟨mid, rfl, hmid⟩
  · rw [text_append, bytes_append] at hlt
    omega
  · cases mid with
    | nil =>
      rw [List.append_nil] at hlt
      omega
    | cons m mid =>
      obtain ⟨rfl, -⟩ := List.cons.inj hmid
      rw [text_append, text_cons, ← List.append_assoc, bytes_append (text left' ++ _)]
      omega

/-- Pieces that are exactly the leftmost, shortest, first listed markers of a text, with the plain
text between them. Places are given by the text before them and count bytes. -/
structure Exact (ds : List Delimiter) (source : String) (pieces : List Piece) : Prop where
  /-- A piece of a pair starts at a place if and only if the pair is the first with a marker there
  and the place is not inside a marker. -/
  starts : ∀ before rest d, source.toList = before ++ rest →
    ((∃ p ∈ pieces, p.delimiter = some d ∧ p.span.start = bytes before) ↔
      First ds d rest ∧ ∀ m ∈ pieces, m.delimiter.isSome →
        ¬(m.span.start < bytes before ∧ bytes before < m.span.stop))
  /-- It ends with the first closing text, and its inside is the trimmed text between. -/
  ends : ∀ p ∈ pieces, ∀ d, p.delimiter = some d → ∃ before inner rest,
    source.toList = before ++ (d.write inner ++ rest) ∧ p.span.start = bytes before ∧
      p.span.stop = bytes (before ++ d.write inner) ∧ p.text = String.ofList (d.write inner) ∧
      d.Shortest inner (d.write inner ++ rest) ∧ p.inner? = some (String.ofList (Text.trim inner))
  /-- Plain text has no inside, and no marker starts at a place in it. -/
  plain : ∀ p ∈ pieces, p.delimiter = none → p.inner? = none ∧
    ∀ before rest, source.toList = before ++ rest → p.span.start ≤ bytes before →
      bytes before < p.span.stop → ∀ d ∈ ds, ¬d.Marks rest

section

variable {source : String} {cs : List Char} {left right : List Run} {r : Run}

theorem source_eq (h : runs ds cs = left ++ r :: right) :
    cs = text left ++ (r.chars ++ text right) := by
  rw [← text_cons, ← text_append, ← h, text_runs]

theorem found_run (hds : ∀ d ∈ ds, d.OneLine) (h : runs ds cs = left ++ r :: right) :
    Run.Found ds r (text right) := by
  have hall : AllFound ds (runs ds cs) := allFound_runsFrom hds 0 cs
  rw [h] at hall
  exact hall.at

theorem Run.Found.marker {d : Delimiter} {rest : List Char} (h : Run.Found ds r rest)
    (hd : r.delimiter = some d) : marker? ds (r.chars ++ rest) = some (d, r.chars.length) := by
  unfold Run.Found at h
  rw [hd] at h
  exact h

theorem Run.Found.no_marker {rest before behind : List Char} (h : Run.Found ds r rest)
    (hd : r.delimiter = none) (hr : r.chars = before ++ behind) (hne : behind ≠ []) :
    marker? ds (behind ++ rest) = none := by
  unfold Run.Found at h
  rw [hd] at h
  exact h before behind hr hne

/-- A piece of a pair stands where this pair is the first with a marker. -/
theorem first_of_piece (hds : ∀ d ∈ ds, d.OneLine) {before rest : List Char} {d : Delimiter}
    {p : Piece} (hsource : source.toList = before ++ rest) (hp : p ∈ scan ds source)
    (hd : p.delimiter = some d) (hstart : p.span.start = bytes before) : First ds d rest := by
  obtain ⟨left, r, right, hruns, rfl⟩ := mem_scan.1 hp
  rw [start_pieceAt] at hstart
  have hsplit := (source_eq hruns).symm.trans hsource
  obtain ⟨mid, rfl, hrest⟩ := exists_between hsplit (Nat.le_of_eq hstart)
  rw [bytes_append] at hstart
  obtain rfl := eq_nil_of_bytes (show bytes mid = 0 by omega)
  obtain rfl : r.chars ++ text right = rest := hrest
  exact (marker?_eq_some hds ((found_run hds hruns).marker hd)).1

/-- No piece starts inside another one. -/
theorem start_not_inside {p m : Piece} (hp : p ∈ scan ds source) (hm : m ∈ scan ds source) :
    ¬(m.span.start < p.span.start ∧ p.span.start < m.span.stop) := by
  rintro ⟨hstart, hstop⟩
  obtain ⟨left, r, right, hruns, rfl⟩ := mem_scan.1 hp
  obtain ⟨left', r', right', hruns', rfl⟩ := mem_scan.1 hm
  rw [start_pieceAt, start_pieceAt] at hstart
  rw [start_pieceAt, stop_pieceAt] at hstop
  have := stop_le_start (hruns.symm.trans hruns') hstart
  omega

theorem First.rest_ne_nil (hds : ∀ d ∈ ds, d.OneLine) {d : Delimiter} {rest : List Char}
    (h : First ds d rest) : rest ≠ [] := by
  rintro rfl
  have hmem := h.mem
  obtain ⟨before, after, -, ⟨inner, hwraps⟩, -⟩ := h
  have hpos := (hds d hmem).length_write_pos inner
  have hle := hwraps.1.length_le
  rw [List.length_nil] at hle
  omega

/-- Where a pair is the first with a marker, outside all markers, a piece of it stands. -/
theorem piece_of_first (hds : ∀ d ∈ ds, d.OneLine) {before rest : List Char} {d : Delimiter}
    (hsource : source.toList = before ++ rest) (hfirst : First ds d rest)
    (hinside : ∀ m ∈ scan ds source, m.delimiter.isSome →
      ¬(m.span.start < bytes before ∧ bytes before < m.span.stop)) :
    ∃ p ∈ scan ds source, p.delimiter = some d ∧ p.span.start = bytes before := by
  obtain ⟨left, r, right, inside, behind, hruns, rfl, hr, hb, rfl⟩ :=
    exists_run ((text_runs ds source.toList).trans hsource) (hfirst.rest_ne_nil hds)
  have hfound := found_run hds hruns
  have hmem := mem_scan.2 ⟨left, r, right, hruns, rfl⟩
  cases hd : r.delimiter with
  | none =>
    have hnone := (marker?_eq_none_iff hds).1 (hfound.no_marker hd hr hb)
    have hmarks := hnone d hfirst.mem
    obtain ⟨_, _, -, hmarked, -⟩ := hfirst
    exact absurd hmarked hmarks
  | some e =>
    cases inside with
    | nil =>
      have hmarker := hfound.marker hd
      rw [hr] at hmarker
      obtain rfl := (marker?_eq_some hds hmarker).1.unique hfirst
      refine ⟨pieceAt (text left) r, hmem, hd, ?_⟩
      rw [start_pieceAt, List.append_nil]
    | cons c inside =>
      -- the place is past the start of this marker and before its end
      have hsome : (pieceAt (text left) r).delimiter.isSome := Option.isSome_of_eq_some hd
      refine absurd ⟨?_, ?_⟩ (hinside (pieceAt (text left) r) hmem hsome)
      · have := bytes_pos (List.cons_ne_nil c inside)
        rw [start_pieceAt, bytes_append]
        omega
      · have := bytes_pos hb
        rw [stop_pieceAt, hr, ← List.append_assoc, bytes_append (text left ++ _)]
        omega

theorem exact_starts (hds : ∀ d ∈ ds, d.OneLine) {before rest : List Char} {d : Delimiter}
    (hsource : source.toList = before ++ rest) :
    (∃ p ∈ scan ds source, p.delimiter = some d ∧ p.span.start = bytes before) ↔
      First ds d rest ∧ ∀ m ∈ scan ds source, m.delimiter.isSome →
        ¬(m.span.start < bytes before ∧ bytes before < m.span.stop) := by
  constructor
  · rintro ⟨p, hp, hd, hstart⟩
    refine ⟨first_of_piece hds hsource hp hd hstart, ?_⟩
    intro m hm _
    rw [← hstart]
    exact start_not_inside hp hm
  · rintro ⟨hfirst, hinside⟩
    exact piece_of_first hds hsource hfirst hinside

theorem exact_ends (hds : ∀ d ∈ ds, d.OneLine) {p : Piece} {d : Delimiter}
    (hp : p ∈ scan ds source) (hd : p.delimiter = some d) : ∃ before inner rest,
      source.toList = before ++ (d.write inner ++ rest) ∧ p.span.start = bytes before ∧
        p.span.stop = bytes (before ++ d.write inner) ∧ p.text = String.ofList (d.write inner) ∧
        d.Shortest inner (d.write inner ++ rest) ∧
        p.inner? = some (String.ofList (Text.trim inner)) := by
  obtain ⟨left, r, right, hruns, rfl⟩ := mem_scan.1 hp
  have hsource := source_eq hruns
  obtain ⟨-, inner, hshort, hlen⟩ := marker?_eq_some hds ((found_run hds hruns).marker hd)
  have hchars : r.chars = d.write inner := by
    have htake := List.prefix_iff_eq_take.1 hshort.1.1
    rw [← hlen, List.take_left] at htake
    exact htake.symm
  rw [hchars] at hsource hshort
  refine ⟨text left, inner, text right, hsource, start_pieceAt _ _, ?_, ?_, hshort, ?_⟩
  · rw [stop_pieceAt, hchars]
  · exact congrArg String.ofList hchars
  · show (r.delimiter.bind fun d => (d.strip (String.ofList r.chars).toList).map String.ofList) = _
    rw [show r.delimiter = some d from hd, Option.bind_some, String.toList_ofList, hchars,
      Delimiter.strip_write]
    rfl

/-- The scan matches listed pairs only. -/
theorem delimiter_mem (hds : ∀ d ∈ ds, d.OneLine) {p : Piece} {d : Delimiter}
    (hp : p ∈ scan ds source) (hd : p.delimiter = some d) : d ∈ ds := by
  obtain ⟨before, inner, rest, hsource, hstart, -⟩ := exact_ends hds hp hd
  exact (first_of_piece hds hsource hp hd hstart).mem

theorem exact_plain (hds : ∀ d ∈ ds, d.OneLine) {p : Piece} (hp : p ∈ scan ds source)
    (hd : p.delimiter = none) : p.inner? = none ∧
      ∀ before rest, source.toList = before ++ rest → p.span.start ≤ bytes before →
        bytes before < p.span.stop → ∀ d ∈ ds, ¬d.Marks rest := by
  obtain ⟨left, r, right, hruns, rfl⟩ := mem_scan.1 hp
  constructor
  · rw [Piece.inner?, hd]
    rfl
  · intro before rest hsource hstart hstop
    rw [start_pieceAt] at hstart
    rw [stop_pieceAt] at hstop
    obtain ⟨mid, rfl, hmid⟩ := exists_between ((source_eq hruns).symm.trans hsource) hstart
    rw [bytes_append, bytes_append] at hstop
    obtain ⟨behind, hr, rfl⟩ := exists_between hmid.symm (by omega)
    have hb : behind ≠ [] := by
      rintro rfl
      rw [hr, List.append_nil] at hstop
      omega
    exact (marker?_eq_none_iff hds).1 ((found_run hds hruns).no_marker hd hr hb)

end

end Scan

/-- Scanning finds exactly the leftmost, shortest, first listed markers. -/
theorem scan_exact {ds : List Delimiter} (hds : ∀ d ∈ ds, d.OneLine) (source : String) :
    Scan.Exact ds source (scan ds source) where
  starts _ _ _ := Scan.exact_starts hds
  ends _ hp _ := Scan.exact_ends hds hp
  plain _ := Scan.exact_plain hds

/-- A closing text that overlaps the opening one does not close it, the first one after does. -/
theorem scan_exact_overlap :
    let ds : List Delimiter := [⟨"\x7b%", "%\x7d"⟩, ⟨"\x7b", "\x7d"⟩]
    let source := "é\x7b%\x7d a %\x7d\x7b%\x7d"
    (∀ d ∈ ds, d.OneLine) ∧ Scan.Exact ds source (scan ds source) ∧
      (scan ds source).map (fun p => (p.text, p.span.start, p.span.stop, p.inner?)) =
        [("é", 0, 2, none), ("\x7b%\x7d a %\x7d", 2, 10, some "\x7d a"),
          ("\x7b%\x7d", 10, 13, some "%")] := by
  intro ds source
  have hds : ∀ d ∈ ds, d.OneLine := by
    intro d hd
    rcases List.mem_cons.1 hd with rfl | hd
    · exact ⟨by decide, by decide, by decide⟩
    · obtain rfl := List.mem_singleton.1 hd
      exact ⟨by decide, by decide, by decide⟩
  refine ⟨hds, scan_exact hds source, ?_⟩
  decide +kernel

end Stencil
