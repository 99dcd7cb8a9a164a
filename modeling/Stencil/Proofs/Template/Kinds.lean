import Mathlib.Data.List.Forall2
import Stencil.Proofs.Template.Fragments

/-! The kind of a fragment is read off its text a second time, behind the scan. It is the one of the
delimiters that the scan matched: the opening texts of the two pairs tell markers apart, and plain
text is not read again, whatever it looks like. -/

namespace Stencil.Fragment

variable {p : Piece} {inner : List Char} {source : String}

/-- The fragment says what the scan found. -/
structure Shows (p : Piece) (f : Fragment) : Prop where
  raw : f.raw = p.text
  span : f.span = p.span
  isVariable : f.kind = .variable ↔ p.delimiter = some variableMarker
  isBlock : (f.kind = .opening ∨ f.kind = .closing) ↔ p.delimiter = some blockMarker
  isClosing : f.kind = .closing ↔ p.delimiter = some blockMarker ∧
    ∃ inner, f.raw.toList = blockMarker.write inner ∧ closeWord.toList <+: Text.trim inner
  isText : f.kind = .text ↔ p.delimiter = none
  clean : ∀ d, p.delimiter = some d → ∃ inner, f.raw.toList = d.write inner ∧
    f.clean = String.ofList (Text.trim inner)
  /-- The text of a marker alone gives the same fragment. -/
  again : f.kind ≠ .text → ofRaw f.raw f.span = f
  verbatim : f.kind = .text → f.clean = f.raw

theorem write_inj {d : Delimiter} {inner' : List Char} (h : d.write inner = d.write inner') :
    inner = inner' :=
  List.append_cancel_left (List.append_cancel_right h)

/-! The text of a marker. -/

theorem ofRaw_variable (inner : List Char) (span : Span) :
    ofRaw (String.ofList (variableMarker.write inner)) span =
      ⟨.variable, String.ofList (variableMarker.write inner), String.ofList (Text.trim inner),
        span⟩ := by
  rw [ofRaw, String.toList_ofList, Delimiter.strip_write]

/-- The second characters of the two opening texts differ. -/
theorem strip_block (inner : List Char) : variableMarker.strip (blockMarker.write inner) = none :=
  rfl

theorem ofRaw_block (inner : List Char) (span : Span) :
    ofRaw (String.ofList (blockMarker.write inner)) span =
      ⟨if closeWord.toList.isPrefixOf (Text.trim inner) then .closing else .opening,
        String.ofList (blockMarker.write inner), String.ofList (Text.trim inner), span⟩ := by
  rw [ofRaw, String.toList_ofList, strip_block, Delimiter.strip_write]

/-! Pieces. -/

theorem shows_plain (h : p.delimiter = none) : Shows p (ofPiece p) := by
  rw [ofPiece_plain h]
  constructor <;> simp [ofText, h]

/-- A marker is shown by what its text reads as, if its kind fits the pair. -/
theorem shows_marker {d : Delimiter} {kind : Kind} (hd : p.delimiter = some d)
    (htext : p.text = String.ofList (d.write inner))
    (hraw : ofRaw p.text p.span = ⟨kind, p.text, String.ofList (Text.trim inner), p.span⟩)
    (hmarker : kind ≠ .text) (hvariable : kind = .variable ↔ d = variableMarker)
    (hblock : (kind = .opening ∨ kind = .closing) ↔ d = blockMarker)
    (hclosing : kind = .closing ↔ d = blockMarker ∧ closeWord.toList <+: Text.trim inner) :
    Shows p (ofPiece p) := by
  have hpiece : ofPiece p = ofRaw p.text p.span := by
    rw [ofPiece, hd]
    rfl
  have hlist : p.text.toList = d.write inner := by rw [htext, String.toList_ofList]
  rw [hpiece, hraw]
  constructor
  · rfl
  · rfl
  · simpa [hd] using hvariable
  · simpa [hd] using hblock
  · constructor
    · intro hkind
      obtain ⟨rfl, hword⟩ := hclosing.1 hkind
      exact ⟨hd, inner, hlist, hword⟩
    · rintro ⟨hd', inner', hlist', hword⟩
      obtain rfl := Option.some.inj (hd.symm.trans hd')
      obtain rfl := write_inj (hlist.symm.trans hlist')
      exact hclosing.2 ⟨rfl, hword⟩
  · simp [hd, hmarker]
  · intro d' hd'
    obtain rfl := Option.some.inj (hd.symm.trans hd')
    exact ⟨inner, hlist, rfl⟩
  · exact fun _ => hraw
  · exact fun htext => absurd htext hmarker

theorem shows_variable (hd : p.delimiter = some variableMarker)
    (htext : p.text = String.ofList (variableMarker.write inner)) : Shows p (ofPiece p) := by
  have hne : variableMarker ≠ blockMarker := by decide
  have hraw := ofRaw_variable inner p.span
  rw [← htext] at hraw
  refine shows_marker hd htext hraw ?_ ?_ ?_ ?_ <;> simp [hne]

theorem shows_block (hd : p.delimiter = some blockMarker)
    (htext : p.text = String.ofList (blockMarker.write inner)) : Shows p (ofPiece p) := by
  have hne : blockMarker ≠ variableMarker := by decide
  have hraw := ofRaw_block inner p.span
  rw [← htext] at hraw
  by_cases hword : closeWord.toList <+: Text.trim inner
  · rw [if_pos (List.isPrefixOf_iff_prefix.2 hword)] at hraw
    refine shows_marker hd htext hraw ?_ ?_ ?_ ?_ <;> simp [hne, hword]
  · rw [if_neg fun h => hword (List.isPrefixOf_iff_prefix.1 h)] at hraw
    refine shows_marker hd htext hraw ?_ ?_ ?_ ?_ <;> simp [hne, hword]

theorem shows_of_mem_scan (hp : p ∈ scan [variableMarker, blockMarker] source) :
    Shows p (ofPiece p) := by
  cases hd : p.delimiter with
  | none => exact shows_plain hd
  | some d =>
    have hds := variableMarker_oneLine.pair blockMarker_oneLine
    obtain ⟨_, inner, _, -, -, -, htext, -⟩ := Scan.exact_ends hds hp hd
    have hmem := Scan.delimiter_mem hds hp hd
    rcases List.mem_cons.1 hmem with rfl | hmem
    · exact shows_variable hd htext
    · obtain rfl := List.mem_singleton.1 hmem
      exact shows_block hd htext

/-- The fragments of a source tell, one for each piece, what the scan found. -/
theorem ofSource_shows (source : String) :
    List.Forall₂ Shows (scan [variableMarker, blockMarker] source) (ofSource source) := by
  rw [ofSource, List.forall₂_map_right_iff, List.forall₂_same]
  exact fun p hp => shows_of_mem_scan hp

-- text that looks like a marker across lines is not read again
example : (ofSource "\x7b\x7ba\nb\x7d\x7d").map (·.kind) = [.text] ∧
    (ofRaw "\x7b\x7ba\nb\x7d\x7d" ⟨0, 7, 1, 1⟩).kind = .variable := by decide +kernel

end Stencil.Fragment
