import Mathlib.Data.List.Chain
import Stencil.Proofs.Scan.Exact

/-! The pieces of a text stand side by side: nothing of the text is lost or read twice, plain text
is never cut in two, and every piece has the line and column at which it starts. -/

namespace Stencil

/-- The line of the place that this text leads up to. -/
def lineAfter (before : List Char) : Nat := 1 + before.count '\n'

def columnAfter (before : List Char) : Nat := 1 + (before.reverse.takeWhile (· != '\n')).length

theorem columnAfter_append {before mid : List Char} (h : '\n' ∉ mid) :
    columnAfter (before ++ mid) = columnAfter before + mid.length := by
  have hall : ∀ c ∈ mid.reverse, (c != '\n') = true := by
    intro c hc
    exact bne_iff_ne.2 fun heq => h (heq ▸ List.mem_reverse.1 hc)
  rw [columnAfter, columnAfter, List.reverse_append, List.takeWhile_append_of_pos hall,
    List.length_append, List.length_reverse]
  omega

theorem Position.start_advance (before : List Char) :
    Position.start.advance before = ⟨bytes before, lineAfter before, columnAfter before⟩ := by
  -- from the end, because a place follows from the one a character earlier
  obtain ⟨rev, rfl⟩ : ∃ rev : List Char, before = rev.reverse := ⟨before.reverse, by simp⟩
  induction rev with
  | nil => rfl
  | cons c rev ih =>
    have hstep : Position.start.advance (c :: rev).reverse =
        (Position.start.advance rev.reverse).next c := by
      rw [List.reverse_cons, advance_append]
      rfl
    have hbytes : bytes (c :: rev).reverse = bytes rev.reverse + c.utf8Size := by
      rw [List.reverse_cons, bytes_append, bytes_cons]
      rfl
    rw [hstep, ih, Position.next, hbytes]
    split
    · next h =>
      subst h
      simp [lineAfter, columnAfter]
      omega
    · next h => simp [lineAfter, columnAfter, h, Nat.add_assoc]

/-- The line and the column tell places of a text apart. -/
theorem place_unique {before rest before' rest' : List Char}
    (h : before ++ rest = before' ++ rest') (hline : lineAfter before = lineAfter before')
    (hcolumn : columnAfter before = columnAfter before') : before = before' := by
  have hsame {mid : List Char} (before : List Char)
      (hline : lineAfter before = lineAfter (before ++ mid))
      (hcolumn : columnAfter before = columnAfter (before ++ mid)) : mid = [] := by
    rw [lineAfter, lineAfter, List.count_append] at hline
    have hmid : '\n' ∉ mid := List.count_eq_zero.1 (by omega)
    rw [columnAfter_append hmid] at hcolumn
    exact List.eq_nil_of_length_eq_zero (by omega)
  rcases List.append_eq_append_iff.1 h with ⟨mid, rfl, -⟩ | ⟨mid, rfl, -⟩
  · rw [hsame before hline hcolumn, List.append_nil]
  · rw [hsame before' hline.symm hcolumn.symm, List.append_nil]

namespace Scan

variable {ds : List Delimiter} {before : List Char} {r : Run} {rs : List Run}

theorem line_pieceAt (before : List Char) (r : Run) :
    (pieceAt before r).span.line = lineAfter before := by
  show (Position.start.advance before).line = _
  rw [Position.start_advance]

theorem column_pieceAt (before : List Char) (r : Run) :
    (pieceAt before r).span.column = columnAfter before := by
  show (Position.start.advance before).column = _
  rw [Position.start_advance]

/-! Runs. -/

/-- No run is empty, and of two runs side by side one is a marker. -/
structure Parted (rs : List Run) : Prop where
  nonempty : ∀ r ∈ rs, r.chars ≠ []
  apart : rs.IsChain fun r r' => r.delimiter.isSome ∨ r'.delimiter.isSome

theorem Parted.nil : Parted [] := ⟨by simp, .nil⟩

theorem Parted.cons_marker (hd : r.delimiter.isSome) (hr : r.chars ≠ []) (h : Parted rs) :
    Parted (r :: rs) where
  nonempty := by
    intro r' hr'
    rcases List.mem_cons.1 hr' with rfl | hr'
    · exact hr
    · exact h.nonempty r' hr'
  apart := by
    apply List.isChain_cons.2
    exact ⟨fun _ _ => .inl hd, h.apart⟩

theorem Parted.glue (c : Char) (h : Parted rs) : Parted (glue c rs) := by
  unfold Scan.glue
  split
  · next cs rs =>
    -- the first run stays one of plain text, so it is as far from the others as before
    obtain ⟨hfirst, hrest⟩ := List.isChain_cons.1 h.apart
    refine ⟨?_, List.isChain_cons.2 ⟨hfirst, hrest⟩⟩
    intro r hr
    rcases List.mem_cons.1 hr with rfl | hr
    · exact List.cons_ne_nil c cs
    · exact h.nonempty r (List.mem_cons_of_mem _ hr)
  · next rs hno =>
    refine ⟨?_, List.isChain_cons.2 ⟨?_, h.apart⟩⟩
    · intro r hr
      rcases List.mem_cons.1 hr with rfl | hr
      · exact List.cons_ne_nil c []
      · exact h.nonempty r hr
    · intro r hr
      obtain ⟨rest, rfl⟩ := List.head?_eq_some_iff.1 hr
      obtain ⟨_ | d, cs⟩ := r
      · exact absurd rfl (hno cs rest)
      · exact .inr rfl

theorem parted_runsFrom (ds : List Delimiter) (skip : Nat) (cs : List Char) :
    Parted (runsFrom ds skip cs) := by
  fun_induction runsFrom ds skip cs with
  | case1 => exact Parted.nil
  | case2 n c cs ih => exact ih
  | case3 c cs d n hm ih =>
    apply Parted.cons_marker rfl _ ih
    simp
  | case4 c cs hno ih => exact ih.glue c

/-- A marker that the search finds takes some of the text, so that a scan goes on behind it. -/
theorem marker?_moves (hds : ∀ d ∈ ds, d.OneLine) {rest : List Char} {d : Delimiter} {n : Nat}
    (h : marker? ds rest = some (d, n)) : 0 < n ∧ n ≤ rest.length := by
  obtain ⟨hfirst, inner, hshort, rfl⟩ := marker?_eq_some hds h
  exact ⟨(hds d hfirst.mem).length_write_pos inner, hshort.1.1.length_le⟩

/-- A marker lies on one line. -/
theorem marker?_line (hds : ∀ d ∈ ds, d.OneLine) {rest : List Char} {d : Delimiter} {n : Nat}
    (h : marker? ds rest = some (d, n)) : '\n' ∉ rest.take n := by
  obtain ⟨hfirst, inner, hshort, rfl⟩ := marker?_eq_some hds h
  have hd := hds d hfirst.mem
  rw [← List.prefix_iff_eq_take.1 hshort.1.1, Delimiter.write]
  simp [hd.opening_line, hd.closing_line, hshort.1.2]

/-! Pieces. -/

/-- Each piece starts where the one before ends, the first at `start` and the last up to `stop`. -/
def Tiles (start : Nat) : List Piece → (stop : Nat) → Prop
  | [], stop => start = stop
  | p :: ps, stop => p.span.start = start ∧ Tiles p.span.stop ps stop

theorem tiles_place (p : Position) (rs : List Run) :
    Tiles p.offset (place p rs) (p.advance (text rs)).offset := by
  induction rs generalizing p with
  | nil => rfl
  | cons r rs ih =>
    refine ⟨rfl, ?_⟩
    rw [text_cons, Position.advance_append]
    exact ih (p.advance r.chars)

theorem delimiter_place (p : Position) (rs : List Run) :
    (place p rs).map (·.delimiter) = rs.map (·.delimiter) := by
  induction rs generalizing p with
  | nil => rfl
  | cons r rs ih => simp [place, ih]

/-- What stands between two byte offsets of a text. -/
theorem extract_bytes (before cs after : List Char) :
    (String.ofList (before ++ (cs ++ after))).toByteArray.extract (bytes before)
        (bytes (before ++ cs)) = (String.ofList cs).toByteArray := by
  have hsize : bytes before = (String.ofList before).toByteArray.size := rfl
  have hstop : bytes (before ++ cs) =
      (String.ofList before).toByteArray.size + (String.ofList cs).toByteArray.size :=
    bytes_append before cs
  rw [String.ofList_append, String.ofList_append, String.toByteArray_append,
    String.toByteArray_append, hstop, hsize]
  rw [← Nat.add_zero (String.ofList before).toByteArray.size, Nat.add_assoc, Nat.zero_add,
    ByteArray.extract_append_size_add]
  exact ByteArray.extract_append_eq_left rfl

/-- Pieces that are a text cut into markers and the plain text between them, with nothing left out,
each with its offsets in bytes and the line and column of its first character. -/
structure Tiling (source : String) (pieces : List Piece) : Prop where
  nonempty : ∀ p ∈ pieces, p.text ≠ ""
  apart : pieces.IsChain fun p q => p.delimiter.isSome ∨ q.delimiter.isSome
  joined : String.join (pieces.map (·.text)) = source
  tiled : Tiles 0 pieces source.utf8ByteSize
  read : ∀ p ∈ pieces,
    source.toByteArray.extract p.span.start p.span.stop = p.text.toByteArray
  placed : ∀ p ∈ pieces, ∃ before after, source.toList = before ++ (p.text.toList ++ after) ∧
    p.span.start = bytes before ∧ p.span.line = lineAfter before ∧
      p.span.column = columnAfter before

section

variable {source : String} {p : Piece}

theorem text_ne_of_mem_scan (h : p ∈ scan ds source) : p.text ≠ "" := by
  obtain ⟨left, r, right, hruns, rfl⟩ := mem_scan.1 h
  have hr : r ∈ runs ds source.toList := by simp [hruns]
  intro htext
  apply (parted_runsFrom ds 0 source.toList).nonempty r hr
  exact String.ofList_eq_empty_iff.1 htext

theorem isChain_scan (ds : List Delimiter) (source : String) :
    (scan ds source).IsChain fun p q => p.delimiter.isSome ∨ q.delimiter.isSome := by
  have h := (parted_runsFrom ds 0 source.toList).apart
  have hmap := delimiter_place .start (runs ds source.toList)
  rw [← List.isChain_map (R := fun d e : Option Delimiter => d.isSome ∨ e.isSome)] at h ⊢
  exact hmap ▸ h

theorem join_scan (ds : List Delimiter) (source : String) :
    String.join ((scan ds source).map (·.text)) = source := by
  apply String.toList_injective
  rw [String.toList_join, List.flatMap_map]
  exact text_scan ds source

theorem tiles_scan (ds : List Delimiter) (source : String) :
    Tiles 0 (scan ds source) source.utf8ByteSize := by
  have h := tiles_place .start (runs ds source.toList)
  rw [text_runs, Position.start_advance] at h
  exact bytes_toList source ▸ h

theorem placed_scan (h : p ∈ scan ds source) : ∃ before after,
    source.toList = before ++ (p.text.toList ++ after) ∧ p.span.start = bytes before ∧
      p.span.stop = bytes (before ++ p.text.toList) ∧ p.span.line = lineAfter before ∧
        p.span.column = columnAfter before := by
  obtain ⟨left, r, right, hruns, rfl⟩ := mem_scan.1 h
  have htext : (pieceAt (text left) r).text.toList = r.chars := String.toList_ofList
  refine ⟨text left, text right, ?_, start_pieceAt _ _, ?_, line_pieceAt _ _, column_pieceAt _ _⟩
  · rw [htext]
    exact source_eq hruns
  · rw [htext]
    exact stop_pieceAt _ _

theorem read_scan (h : p ∈ scan ds source) :
    source.toByteArray.extract p.span.start p.span.stop = p.text.toByteArray := by
  obtain ⟨before, after, hsource, hstart, hstop, -⟩ := placed_scan h
  have hlist : source = String.ofList (before ++ (p.text.toList ++ after)) := by
    rw [← hsource, String.ofList_toList]
  rw [hstart, hstop, hlist, extract_bytes, String.ofList_toList]

end

end Scan

/-- Every marker found moves the scan on, and the pieces it ends with lose nothing of the text and
stand where they say. -/
theorem scan_tiling {ds : List Delimiter} (hds : ∀ d ∈ ds, d.OneLine) (source : String) :
    (∀ rest d n, Scan.marker? ds rest = some (d, n) → 0 < n ∧ n ≤ rest.length) ∧
      Scan.Tiling source (scan ds source) := by
  refine ⟨fun _ _ _ => Scan.marker?_moves hds, ?_⟩
  constructor
  · intro p hp
    exact Scan.text_ne_of_mem_scan hp
  · exact Scan.isChain_scan ds source
  · exact Scan.join_scan ds source
  · exact Scan.tiles_scan ds source
  · intro p hp
    exact Scan.read_scan hp
  · intro p hp
    obtain ⟨before, after, hsource, hstart, -, hline, hcolumn⟩ := Scan.placed_scan hp
    exact ⟨before, after, hsource, hstart, hline, hcolumn⟩

/-- Offsets count bytes and columns characters, and an opening text without a closing one on its
line is part of the plain text around it. -/
theorem scan_tiling_multibyte :
    let ds : List Delimiter := [⟨"\x7b\x7b", "\x7d\x7d"⟩]
    let source := "é\x7b\x7b\né\x7b\x7bé\x7d\x7dé\x7b\x7b\x7d\x7d"
    (∀ d ∈ ds, d.OneLine) ∧
      (∀ rest d n, Scan.marker? ds rest = some (d, n) → 0 < n ∧ n ≤ rest.length) ∧
      Scan.Tiling source (scan ds source) ∧
      (scan ds source).map (fun p => (p.text, p.span)) =
        [("é\x7b\x7b\né", ⟨0, 7, 1, 1⟩), ("\x7b\x7bé\x7d\x7d", ⟨7, 13, 2, 2⟩),
          ("é", ⟨13, 15, 2, 7⟩), ("\x7b\x7b\x7d\x7d", ⟨15, 19, 2, 8⟩)] := by
  intro ds source
  have hds : ∀ d ∈ ds, d.OneLine := by
    intro d hd
    obtain rfl := List.mem_singleton.1 hd
    exact ⟨by decide, by decide, by decide⟩
  obtain ⟨hmoves, htiling⟩ := scan_tiling hds source
  refine ⟨hds, hmoves, htiling, ?_⟩
  decide +kernel

end Stencil
