import Stencil.Proofs.Scan.Lines

/-! What a scan finds does not hang on what is around. The markers of a text that ends a line and of
the text below it are found apart from each other, and every piece is found again when its text is
scanned alone. -/

namespace Stencil

namespace Scan

variable {ds : List Delimiter} {d : Delimiter} {cs rest : List Char} {n : Nat} {r : Run}

/-! Runs. -/

theorem Run.Found.alone (hds : ∀ d ∈ ds, d.OneLine) (h : Run.Found ds r rest) :
    Run.Found ds r [] := by
  obtain ⟨_ | d, cs⟩ := r
  · intro before behind hcs hne
    rw [List.append_nil]
    exact marker?_eq_none_of_append hds (h before behind hcs hne)
  · show marker? ds (cs ++ []) = some (d, cs.length)
    rw [List.append_nil]
    exact marker?_of_append hds h (Nat.le_refl _)

theorem runs_plain_cons {c : Char} (h : marker? ds (c :: rest) = none) :
    runs ds (c :: rest) = glue c (runs ds rest) := by
  rw [runs, runsFrom, h]
  rfl

/-- Text in which no marker is found anywhere is one run. -/
theorem runs_plain (hne : cs ≠ [])
    (h : ∀ before behind, cs = before ++ behind → behind ≠ [] → marker? ds behind = none) :
    runs ds cs = [⟨none, cs⟩] := by
  induction cs with
  | nil => exact absurd rfl hne
  | cons c cs ih =>
    rw [runs_plain_cons (h [] (c :: cs) rfl hne)]
    by_cases hcs : cs = []
    · rw [hcs]
      rfl
    · have hrest := ih hcs fun before behind hsplit => h (c :: before) behind (by rw [hsplit]; rfl)
      rw [hrest]
      rfl

/-- A marker at the front is the first run. -/
theorem runs_marker (hne : cs ≠ []) (h : marker? ds (cs ++ rest) = some (d, cs.length)) :
    runs ds (cs ++ rest) = ⟨some d, cs⟩ :: runs ds rest := by
  cases cs with
  | nil => exact absurd rfl hne
  | cons c cs =>
    have hmarker : marker? ds (c :: (cs ++ rest)) = some (d, cs.length + 1) := h
    have htake : (c :: (cs ++ rest)).take (cs.length + 1) = c :: cs := by simp
    rw [List.cons_append, runs, runsFrom_marker hmarker, htake, List.drop_left]
    rfl

/-- Alone a run is the only one of its text. -/
theorem runs_alone (hds : ∀ d ∈ ds, d.OneLine) {source : String} {left right : List Run}
    (h : runs ds source.toList = left ++ r :: right) : runs ds r.chars = [r] := by
  have hfound := (found_run hds h).alone hds
  have hne : r.chars ≠ [] := by
    apply (parted_runsFrom ds 0 source.toList).nonempty r
    show r ∈ runs ds source.toList
    simp [h]
  obtain ⟨_ | d, cs⟩ := r
  · refine runs_plain hne fun before behind hcs hbehind => ?_
    rw [← hfound.no_marker rfl hcs hbehind, List.append_nil]
  · have hone := runs_marker hne (hfound.marker rfl)
    rw [List.append_nil] at hone
    exact hone

/-! Pieces. -/

/-- The pieces that are markers. -/
def markers (ps : List Piece) : List Piece := ps.filter (·.delimiter.isSome)

theorem markers_append (ps qs : List Piece) : markers (ps ++ qs) = markers ps ++ markers qs :=
  List.filter_append ps qs

theorem markers_plain {p : Piece} (h : p.delimiter = none) (ps : List Piece) :
    markers (p :: ps) = markers ps := by
  simp [markers, h]

theorem markers_below (above : List Char) (ps : List Piece) :
    markers (ps.map (·.below above)) = (markers ps).map (·.below above) :=
  List.filter_map

/-- Only plain text runs on over the end of a line. -/
theorem markers_scan_append (hds : ∀ d ∈ ds, d.OneLine) {s : String} (h : EndsLine s.toList)
    (t : String) : markers (scan ds (s ++ t)) =
      markers (scan ds s) ++ (markers (scan ds t)).map (·.below s.toList) := by
  rcases scan_append hds h t with hscan | ⟨left, p, q, right, hs, ht, hp, hq, hscan⟩
  · rw [hscan, markers_append, markers_below]
  · have hextend : (p.extend (q.below s.toList)).delimiter = none := rfl
    rw [hscan, hs, ht, markers_append, markers_append, markers_plain hextend, markers_plain hp,
      markers_plain hq, markers_below, show markers [] = [] from rfl, List.append_nil]

end Scan

/-- The piece with nothing before it. -/
def Piece.alone (p : Piece) : Piece :=
  ⟨p.delimiter, p.text, ⟨0, p.text.utf8ByteSize, 1, 1⟩⟩

theorem Scan.scan_text (hds : ∀ d ∈ ds, d.OneLine) {source : String} {p : Piece}
    (hp : p ∈ scan ds source) : scan ds p.text = [p.alone] := by
  obtain ⟨left, r, right, hruns, rfl⟩ := mem_scan.1 hp
  have htext : (pieceAt (Scan.text left) r).text.toList = r.chars := String.toList_ofList
  have hstop : (Position.start.advance r.chars).offset = (String.ofList r.chars).utf8ByteSize :=
    stop_pieceAt [] r
  have hpiece : pieceAt [] r = ⟨r.delimiter, String.ofList r.chars,
    ⟨0, (Position.start.advance r.chars).offset, 1, 1⟩⟩ := rfl
  calc scan ds (pieceAt (Scan.text left) r).text = [pieceAt [] r] := by
        rw [scan, htext, runs_alone hds hruns]
        rfl
    _ = [(pieceAt (Scan.text left) r).alone] := by
        rw [hpiece, hstop]
        rfl

/-- Lines are scanned apart from each other, and so are pieces. -/
theorem scan_apart {ds : List Delimiter} (hds : ∀ d ∈ ds, d.OneLine) (source : String) :
    (EndsLine source.toList → ∀ more, Scan.markers (scan ds (source ++ more)) =
      Scan.markers (scan ds source) ++
        (Scan.markers (scan ds more)).map (·.below source.toList)) ∧
      ∀ p ∈ scan ds source, scan ds p.text = [p.alone] :=
  ⟨fun h => Scan.markers_scan_append hds h, fun _ => Scan.scan_text hds⟩

/-- The closing text on the second line does not close what the first line left open, and an empty
closing text needs no room. -/
theorem scan_apart_unclosed :
    let ds : List Delimiter := [⟨"\x7b\x7b", "\x7d\x7d"⟩, ⟨"#", ""⟩]
    let source := "é#\x7b\x7ba\n"
    let more := "\x7d\x7d#\x7b\x7bb\x7d\x7d"
    (∀ d ∈ ds, d.OneLine) ∧ EndsLine source.toList ∧
      Scan.markers (scan ds (source ++ more)) = Scan.markers (scan ds source) ++
        (Scan.markers (scan ds more)).map (·.below source.toList) ∧
      (∀ p ∈ scan ds more, scan ds p.text = [p.alone]) ∧
      (Scan.markers (scan ds (source ++ more))).map (fun p => (p.text, p.span)) =
        [("#", ⟨2, 3, 1, 2⟩), ("#", ⟨9, 10, 2, 3⟩), ("\x7b\x7bb\x7d\x7d", ⟨10, 15, 2, 4⟩)] := by
  intro ds source more
  have hds : ∀ d ∈ ds, d.OneLine := by decide
  have hends : EndsLine source.toList := by
    intro c hc
    have hlast : source.toList.getLast? = some '\n' := by decide
    exact Option.some.inj (hc.symm.trans hlast)
  refine ⟨hds, hends, (scan_apart hds source).1 hends more, (scan_apart hds more).2, ?_⟩
  decide +kernel

end Stencil
