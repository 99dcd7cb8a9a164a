import Stencil.Proofs.Scan.Seam
import Stencil.Proofs.Template.Kinds

/-! Fragments and the text behind them. What follows a text takes a marker away from it only where
it completes another one that starts before that marker, on the same line. -/

namespace Stencil.Fragment

variable {source head tail other : String} {before : List Fragment} {f g m : Fragment} {p : Piece}

theorem markers_prefixFree : Delimiter.PrefixFree [variableMarker, blockMarker] := by decide

theorem kind_ofPiece_ne_text (hp : p ∈ scan [variableMarker, blockMarker] source) :
    (ofPiece p).kind ≠ .text ↔ p.delimiter.isSome := by
  rw [Ne, (shows_of_mem_scan hp).isText, Option.isSome_iff_ne_none]

/-- The fragments up to a marker hang on text further on only where it completes a marker that
starts before that one. -/
theorem ofSource_kept (h : before ++ [f] <+: ofSource (head ++ tail)) (hk : f.kind ≠ .text)
    (hstop : f.span.stop ≤ head.utf8ByteSize) (other : String) :
    before ++ [f] <+: ofSource (head ++ other) ∨ ∃ m ∈ ofSource (head ++ other),
      m.kind ≠ .text ∧ m.span.start < f.span.start ∧ head.utf8ByteSize < m.span.stop := by
  obtain ⟨ps, hps, hmap⟩ := List.prefix_map_iff.1 h
  obtain ⟨ps, last, rfl, rfl, hlast⟩ := List.map_eq_append_iff.1 hmap.symm
  obtain ⟨p, rfl, rfl⟩ := List.map_eq_singleton_iff.1 hlast
  have hp := (kind_ofPiece_ne_text (hps.subset (by simp))).1 hk
  rw [span_ofPiece] at hstop ⊢
  have hds := variableMarker_oneLine.pair blockMarker_oneLine
  rcases Scan.scan_kept hds markers_prefixFree hps hp hstop other with
    hkept | ⟨m, hm, hd, hstart, hover⟩
  · left
    have hmapped := hkept.map ofPiece
    rwa [List.map_append] at hmapped
  · right
    refine ⟨ofPiece m, List.mem_map_of_mem hm, (kind_ofPiece_ne_text hm).2 hd, ?_⟩
    rw [span_ofPiece]
    exact ⟨hstart, hover⟩

/-- No fragment starts inside another one. -/
theorem start_not_inside (hg : g ∈ ofSource source) (hm : m ∈ ofSource source) :
    ¬(m.span.start < g.span.start ∧ g.span.start < m.span.stop) := by
  obtain ⟨q, hq, rfl⟩ := List.mem_map.1 hg
  obtain ⟨p, hp, rfl⟩ := List.mem_map.1 hm
  rw [span_ofPiece, span_ofPiece]
  exact Scan.start_not_inside hq hp

theorem start_le_stop (hf : f ∈ ofSource source) : f.span.start ≤ f.span.stop := by
  obtain ⟨above, behind, -, hstart, hstop, -⟩ := placed_ofSource hf
  rw [hstart, hstop, bytes_append]
  exact Nat.le_add_right _ _

/-- The text above a fragment of a head is the same whatever follows the head. -/
theorem exists_above_head (hf : f ∈ ofSource (head ++ tail))
    (hstop : f.span.stop ≤ head.utf8ByteSize) : ∃ above mid, head.toList = above ++ mid ∧
      f.span.start = bytes above ∧ f.span.line = lineAfter above ∧
        f.span.column = columnAfter above := by
  obtain ⟨above, behind, hsource, hstart, -, hline, hcolumn⟩ := placed_ofSource hf
  have hle := start_le_stop hf
  rw [String.toList_append] at hsource
  rw [← bytes_toList] at hstop
  obtain ⟨mid, hhead, -⟩ := exists_between hsource.symm (by omega)
  exact ⟨above, mid, hhead, hstart, hline, hcolumn⟩

/-- At one line and column of two sources the fragments start at one offset, if the sources agree
up to the end of one of them. -/
theorem start_eq_of_place (hf : f ∈ ofSource (head ++ tail))
    (hstop : f.span.stop ≤ head.utf8ByteSize) (hg : g ∈ ofSource (head ++ other))
    (hline : g.span.line = f.span.line) (hcolumn : g.span.column = f.span.column) :
    g.span.start = f.span.start := by
  obtain ⟨above, mid, hhead, hstart, hline', hcolumn'⟩ := exists_above_head hf hstop
  obtain ⟨above', behind, hsource, hstart', -, hline'', hcolumn''⟩ := placed_ofSource hg
  rw [String.toList_append, hhead, List.append_assoc] at hsource
  have hsame : above = above' := by
    refine place_unique hsource ?_ ?_
    · rw [← hline', ← hline'', hline]
    · rw [← hcolumn', ← hcolumn'', hcolumn]
  rw [hstart, hstart', hsame]

/-- All places in a marker are on its line. -/
theorem line_of_inside (hm : m ∈ ofSource source) (hk : m.kind ≠ .text) {above behind : List Char}
    (hsource : source.toList = above ++ behind) (hstart : m.span.start ≤ bytes above)
    (hstop : bytes above ≤ m.span.stop) : lineAfter above = m.span.line := by
  obtain ⟨p, hp, rfl⟩ := List.mem_map.1 hm
  rw [span_ofPiece] at hstart hstop ⊢
  have hds := variableMarker_oneLine.pair blockMarker_oneLine
  exact Scan.line_of_inside hds hp ((kind_ofPiece_ne_text hp).1 hk) hsource hstart hstop

/-- A marker on a line that ends in the head lies in the head. -/
theorem stop_le_of_line (hf : f ∈ ofSource (head ++ tail)) (hk : f.kind ≠ .text)
    (hline : f.span.line ≤ head.toList.count '\n') : f.span.stop ≤ head.utf8ByteSize := by
  refine Nat.le_of_not_lt fun hlong => ?_
  have hsource : (head ++ tail).toList = head.toList ++ tail.toList := String.toList_append
  rw [← bytes_toList] at hlong
  by_cases hstart : f.span.start ≤ bytes head.toList
  · have hhead := line_of_inside hf hk hsource hstart (by omega)
    rw [lineAfter] at hhead
    omega
  · obtain ⟨above, behind, habove, hstart', -, hline', -⟩ := placed_ofSource hf
    obtain ⟨mid, rfl, -⟩ := exists_between (hsource.symm.trans habove) (by omega)
    rw [lineAfter, List.count_append] at hline'
    omega

/-- A marker from before `f` that reaches over the end of the head lies on the line of `f`, which
the head does not end. -/
theorem line_of_over (hf : f ∈ ofSource (head ++ tail)) (hstop : f.span.stop ≤ head.utf8ByteSize)
    (hm : m ∈ ofSource (head ++ other)) (hk : m.kind ≠ .text)
    (hstart : m.span.start < f.span.start) (hover : head.utf8ByteSize < m.span.stop) :
    f.span.line = lineAfter head.toList := by
  obtain ⟨above, mid, hhead, hstart', hline, -⟩ := exists_above_head hf hstop
  have hsource : (head ++ other).toList = head.toList ++ other.toList := String.toList_append
  have hsize : bytes head.toList = bytes above + bytes mid := by rw [hhead, bytes_append]
  rw [← bytes_toList] at hover
  have hend := line_of_inside hm hk hsource (by omega) (by omega)
  rw [hhead, List.append_assoc] at hsource
  have hbegin := line_of_inside hm hk hsource (by omega) (by omega)
  rw [hline, hbegin, hend]

end Stencil.Fragment
