import Stencil.Proofs.Scan.Tiling

/-! Lines are scanned apart from each other. A text that ends a line is scanned the same whatever
follows it, and what follows is scanned as it would be alone, only further down. Plain text alone
runs on over the end of a line. -/

namespace Stencil

/-- The text is empty or ends with a newline. -/
def EndsLine (cs : List Char) : Prop := ∀ c ∈ cs.getLast?, c = '\n'

namespace EndsLine

variable {c : Char} {cs : List Char}

theorem of_cons (h : EndsLine (c :: cs)) : EndsLine cs := by
  cases cs with
  | nil => simp [EndsLine]
  | cons d cs => simpa [EndsLine, List.getLast?_cons_cons] using h

theorem eq_append_newline (h : EndsLine cs) (hne : cs ≠ []) : ∃ before, cs = before ++ ['\n'] := by
  refine ⟨cs.dropLast, ?_⟩
  have hlast : cs.getLast hne = '\n' := h _ (List.getLast?_eq_some_getLast hne)
  rw [← hlast, List.dropLast_append_getLast]

theorem newline_mem (h : EndsLine cs) (hne : cs ≠ []) : '\n' ∈ cs := by
  obtain ⟨before, rfl⟩ := h.eq_append_newline hne
  simp

theorem column (h : EndsLine cs) : columnAfter cs = 1 := by
  by_cases hne : cs = []
  · rw [hne]
    rfl
  · obtain ⟨before, rfl⟩ := h.eq_append_newline hne
    simp [columnAfter]

end EndsLine

/-! Places further down. -/

/-- The place once `above` stands over the text. -/
def Position.below (above : List Char) (p : Position) : Position :=
  ⟨p.offset + bytes above, p.line + above.count '\n', p.column⟩

def Span.below (above : List Char) (s : Span) : Span :=
  ⟨s.start + bytes above, s.stop + bytes above, s.line + above.count '\n', s.column⟩

def Piece.below (above : List Char) (p : Piece) : Piece :=
  ⟨p.delimiter, p.text, p.span.below above⟩

variable {above : List Char}

theorem Position.start_below (h : EndsLine above) :
    Position.start.advance above = Position.start.below above := by
  rw [start_advance, h.column, lineAfter]
  simp [below, start]

theorem Position.next_below (above : List Char) (p : Position) (c : Char) :
    (p.below above).next c = (p.next c).below above := by
  unfold next below
  split
  · simp only [Position.mk.injEq, and_true]
    omega
  · simp only [Position.mk.injEq, and_true]
    omega

theorem Position.advance_below (above : List Char) (p : Position) (cs : List Char) :
    (p.below above).advance cs = (p.advance cs).below above := by
  induction cs generalizing p with
  | nil => rfl
  | cons c cs ih =>
    show ((p.below above).next c).advance cs = ((p.next c).advance cs).below above
    rw [next_below, ih]

namespace Scan

variable {ds : List Delimiter} {cs : List Char}

/-! Markers. -/

/-- Text behind the end of the line does not matter to a marker on the line. -/
theorem marker?_append (hds : ∀ d ∈ ds, d.OneLine) (h : '\n' ∈ cs) (more : List Char) :
    marker? ds (cs ++ more) = marker? ds cs := by
  cases hm : marker? ds (cs ++ more) with
  | none => exact (marker?_eq_none_of_append hds hm).symm
  | some found =>
    obtain ⟨d, n⟩ := found
    have hn : n ≤ cs.length := by
      refine Nat.le_of_not_lt fun hlong => marker?_line hds hm ?_
      rw [List.take_append, List.take_of_length_le (Nat.le_of_lt hlong)]
      exact List.mem_append_left _ h
    exact (marker?_of_append hds hm hn).symm

/-! Runs. -/

/-- The runs of two texts put together: plain text at the end of the one and at the start of the
other becomes one run. -/
def join : List Run → List Run → List Run
  | [], rs => rs
  | [⟨none, as⟩], ⟨none, bs⟩ :: rs => ⟨none, as ++ bs⟩ :: rs
  | l :: ls, rs => l :: join ls rs

variable {ls rs : List Run}

theorem join_cons_cons (l l' : Run) (ls rs : List Run) :
    join (l :: l' :: ls) rs = l :: join (l' :: ls) rs := by
  rw [join]
  simp

theorem join_marker {l : Run} (h : l.delimiter.isSome) (ls rs : List Run) :
    join (l :: ls) rs = l :: join ls rs := by
  obtain ⟨_ | d, cs⟩ := l
  · cases h
  · rw [join]
    simp

theorem join_cases (ls rs : List Run) :
    join ls rs = ls ++ rs ∨ ∃ left as bs right, ls = left ++ [⟨none, as⟩] ∧
      rs = ⟨none, bs⟩ :: right ∧ join ls rs = left ++ ⟨none, as ++ bs⟩ :: right := by
  fun_induction join ls rs with
  | case1 => exact .inl rfl
  | case2 as bs rs => exact .inr ⟨[], as, bs, rs, rfl, rfl, rfl⟩
  | case3 l ls rs hno ih =>
    rcases ih with ih | ⟨left, as, bs, right, rfl, rfl, ih⟩
    · exact .inl (by rw [ih, List.cons_append])
    · exact .inr ⟨l :: left, as, bs, right, rfl, rfl, by rw [ih, List.cons_append]⟩

/-- A character in front of the first text stays in front of the whole. -/
theorem glue_join (c : Char) (ls rs : List Run) : glue c (join ls rs) = join (glue c ls) rs := by
  fun_cases join ls rs with
  | case1 =>
    cases rs with
    | nil => rfl
    | cons r rs => obtain ⟨_ | d, cs⟩ := r <;> simp [glue, join]
  | case2 as bs rs => rfl
  | case3 l ls rs hno =>
    obtain ⟨_ | d, cs⟩ := l
    · cases ls with
      | nil =>
        cases rs with
        | nil => rfl
        | cons r rs =>
          obtain ⟨_ | d, ds⟩ := r
          · exact absurd rfl (hno cs ds rs rfl rfl)
          · rfl
      | cons l ls => rw [glue, glue, join_cons_cons]
    · rfl

theorem runsFrom_append (hds : ∀ d ∈ ds, d.OneLine) (skip : Nat) {as : List Char}
    (h : EndsLine as) (hskip : skip ≤ as.length) (bs : List Char) :
    runsFrom ds skip (as ++ bs) = join (runsFrom ds skip as) (runs ds bs) := by
  fun_induction runsFrom ds skip as with
  | case1 skip =>
    obtain rfl : skip = 0 := by simpa using hskip
    rfl
  | case2 n c cs ih => exact ih h.of_cons (by simpa using hskip)
  | case3 c cs d n hm ih =>
    have hn : n + 1 ≤ (c :: cs).length := (marker?_moves hds hm).2
    have happ : marker? ds (c :: cs ++ bs) = some (d, n + 1) := by
      rw [marker?_append hds (h.newline_mem (List.cons_ne_nil c cs)), hm]
    rw [List.cons_append] at happ
    have htake : (c :: (cs ++ bs)).take (n + 1) = (c :: cs).take (n + 1) :=
      List.take_append_of_le_length hn
    rw [List.cons_append, runsFrom, happ, join_marker rfl, ← htake,
      ← ih h.of_cons (Nat.le_of_succ_le_succ hn)]
  | case4 c cs hno ih =>
    have happ : marker? ds (c :: cs ++ bs) = marker? ds (c :: cs) :=
      marker?_append hds (h.newline_mem (List.cons_ne_nil c cs)) bs
    rw [List.cons_append] at happ
    rw [List.cons_append, runsFrom, happ, ← glue_join, ← ih h.of_cons (Nat.zero_le _)]
    split
    · next d n hm => exact absurd hm (hno d n)
    · rfl

theorem runs_append (hds : ∀ d ∈ ds, d.OneLine) {as : List Char} (h : EndsLine as)
    (bs : List Char) : runs ds (as ++ bs) = join (runs ds as) (runs ds bs) :=
  runsFrom_append hds 0 h (Nat.zero_le _) bs

/-! Pieces. -/

theorem place_append (p : Position) (ls rs : List Run) :
    place p (ls ++ rs) = place p ls ++ place (p.advance (text ls)) rs := by
  induction ls generalizing p with
  | nil => rfl
  | cons l ls ih =>
    rw [text_cons, Position.advance_append, List.cons_append, place, place, List.cons_append, ih]

theorem place_below (above : List Char) (p : Position) (rs : List Run) :
    place (p.below above) rs = (place p rs).map (·.below above) := by
  induction rs generalizing p with
  | nil => rfl
  | cons r rs ih =>
    rw [place, place, List.map_cons, Position.advance_below, ih]
    rfl

end Scan

/-- The piece of plain text that two pieces of plain text are when they stand side by side. -/
def Piece.extend (p q : Piece) : Piece :=
  ⟨none, p.text ++ q.text, ⟨p.span.start, q.span.stop, p.span.line, p.span.column⟩⟩

/-- The pieces of a text that ends a line, and then those of the text that follows. -/
theorem scan_append {ds : List Delimiter} (hds : ∀ d ∈ ds, d.OneLine) {s : String}
    (h : EndsLine s.toList) (t : String) :
    scan ds (s ++ t) = scan ds s ++ (scan ds t).map (·.below s.toList) ∨
      ∃ left p q right, scan ds s = left ++ [p] ∧ scan ds t = q :: right ∧ p.delimiter = none ∧
        q.delimiter = none ∧ scan ds (s ++ t) =
          left ++ p.extend (q.below s.toList) :: right.map (·.below s.toList) := by
  have hruns : Scan.runs ds (s ++ t).toList =
      Scan.join (Scan.runs ds s.toList) (Scan.runs ds t.toList) := by
    rw [String.toList_append]
    exact Scan.runs_append hds h t.toList
  have htext : Scan.text (Scan.runs ds s.toList) = s.toList := Scan.text_runs ds s.toList
  rcases Scan.join_cases (Scan.runs ds s.toList) (Scan.runs ds t.toList) with
    hjoin | ⟨left, as, bs, right, hleft, hright, hjoin⟩
  · left
    unfold scan
    rw [hruns, hjoin, Scan.place_append, htext, Position.start_below h, Scan.place_below]
  · right
    rw [hleft] at htext
    have hsplit : s.toList = Scan.text left ++ as := by
      rw [← htext, Scan.text_append, Scan.text_cons]
      simp [Scan.text]
    have hplace : (Position.start.advance (Scan.text left)).advance (as ++ bs) =
        (Position.start.advance bs).below s.toList := by
      rw [← Position.advance_below, ← Position.start_below h, hsplit, Position.advance_append,
        Position.advance_append]
    refine ⟨Scan.place .start left, Scan.pieceAt (Scan.text left) ⟨none, as⟩,
      Scan.pieceAt [] ⟨none, bs⟩, Scan.place (Position.start.advance bs) right, ?_, ?_, rfl, rfl, ?_⟩
    · rw [scan, hleft, Scan.place_append]
      rfl
    · rw [scan, hright]
      rfl
    · rw [scan, hruns, hjoin, Scan.place_append, Scan.place, hplace, Scan.place_below]
      simp [Piece.extend, Scan.pieceAt, Piece.below, Span.below, Position.below, Position.advance]

end Stencil
