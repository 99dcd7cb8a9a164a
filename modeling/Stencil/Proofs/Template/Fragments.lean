import Stencil.Fragment
import Stencil.Proofs.Scan.Lines

/-! The fragments of a source: where each of them stands, and what becomes of them when lines are
put above or below. -/

namespace Stencil

namespace Fragment

/-- The fragment once `above` stands over the source. -/
def below (above : List Char) (f : Fragment) : Fragment :=
  ⟨f.kind, f.raw, f.clean, f.span.below above⟩

section

variable (above : List Char) (f : Fragment)

@[simp] theorem kind_below : (f.below above).kind = f.kind := rfl

@[simp] theorem clean_below : (f.below above).clean = f.clean := rfl

@[simp] theorem words_below : (f.below above).words = f.words := rfl

@[simp] theorem keyword?_below : (f.below above).keyword? = f.keyword? := rfl

end

/-- The kind and the inside of a fragment do not hang on its place. -/
theorem ofPiece_eq (d : Option Delimiter) (text : String) :
    ∃ kind clean, ∀ span, ofPiece ⟨d, text, span⟩ = ⟨kind, text, clean, span⟩ := by
  cases d with
  | none => exact ⟨.text, text, fun _ => rfl⟩
  | some d =>
    simp only [ofPiece, ofRaw, Option.isSome_some, if_true]
    cases variableMarker.strip text.toList with
    | some inner => exact ⟨_, _, fun _ => rfl⟩
    | none =>
      cases blockMarker.strip text.toList with
      | some inner => exact ⟨_, _, fun _ => rfl⟩
      | none => exact ⟨.text, text, fun _ => rfl⟩

theorem raw_ofPiece (p : Piece) : (ofPiece p).raw = p.text := by
  obtain ⟨kind, clean, h⟩ := ofPiece_eq p.delimiter p.text
  exact congrArg raw (h p.span)

theorem span_ofPiece (p : Piece) : (ofPiece p).span = p.span := by
  obtain ⟨kind, clean, h⟩ := ofPiece_eq p.delimiter p.text
  exact congrArg span (h p.span)

theorem ofPiece_plain {p : Piece} (h : p.delimiter = none) : ofPiece p = ofText p.text p.span := by
  simp [ofPiece, h]

theorem ofPiece_below (above : List Char) (p : Piece) :
    ofPiece (p.below above) = (ofPiece p).below above := by
  obtain ⟨kind, clean, h⟩ := ofPiece_eq p.delimiter p.text
  calc ofPiece (p.below above) = ⟨kind, p.text, clean, p.span.below above⟩ := h _
    _ = (ofPiece p).below above := (congrArg (below above) (h p.span)).symm

theorem map_ofPiece_below (above : List Char) (ps : List Piece) :
    (ps.map (·.below above)).map ofPiece = (ps.map ofPiece).map (·.below above) := by
  rw [List.map_map, List.map_map]
  apply List.map_congr_left
  intro p _
  exact ofPiece_below above p

variable {source : String} {f : Fragment}

/-- A fragment stands in the source where its span says. -/
theorem placed_ofSource (h : f ∈ ofSource source) : ∃ before after,
    source.toList = before ++ (f.raw.toList ++ after) ∧ f.span.start = bytes before ∧
      f.span.stop = bytes (before ++ f.raw.toList) ∧ f.span.line = lineAfter before ∧
        f.span.column = columnAfter before := by
  obtain ⟨p, hp, rfl⟩ := List.mem_map.1 h
  rw [raw_ofPiece, span_ofPiece]
  exact Scan.placed_scan hp

theorem ofSource_append {s : String} (h : EndsLine s.toList) (t : String) :
    ofSource (s ++ t) = ofSource s ++ (ofSource t).map (·.below s.toList) ∨
      ∃ left a b right span span' span'', ofSource s = left ++ [ofText a span] ∧
        ofSource t = ofText b span' :: right ∧
        ofSource (s ++ t) = left ++ ofText (a ++ b) span'' :: right.map (·.below s.toList) := by
  unfold ofSource
  have hds := variableMarker_oneLine.pair blockMarker_oneLine
  rcases scan_append hds h t with hscan | ⟨left, p, q, right, hs, ht, hp, hq, hscan⟩
  · left
    rw [hscan, List.map_append, map_ofPiece_below]
  · right
    refine ⟨left.map ofPiece, p.text, q.text, right.map ofPiece, p.span, q.span,
      (p.extend (q.below s.toList)).span, ?_, ?_, ?_⟩
    · rw [hs, List.map_append, List.map_singleton, ofPiece_plain hp]
    · rw [ht, List.map_cons, ofPiece_plain hq]
    · rw [hscan, List.map_append, List.map_cons, map_ofPiece_below]
      rfl

end Fragment

end Stencil
