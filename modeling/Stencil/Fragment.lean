import Stencil.Scan

/-! Template fragments: the pieces of a template, told apart as variables, block openers, block
closers and text. A marker's kind follows from its delimiters and the start of its inside. Plain
text is never taken for a marker, whatever it holds. -/

namespace Stencil

namespace Fragment

inductive Kind where
  | variable
  | opening
  | closing
  | text
deriving DecidableEq

end Fragment

/-- `raw` is the text as written; `clean` is the trimmed inside of a marker, and `raw` for text. -/
structure Fragment where
  kind : Fragment.Kind
  raw : String
  clean : String
  span : Span
deriving DecidableEq

namespace Fragment

def variableMarker : Delimiter := ⟨"\x7b\x7b", "\x7d\x7d"⟩

theorem variableMarker_oneLine : variableMarker.OneLine := by decide

def blockMarker : Delimiter := ⟨"\x7b%", "%\x7d"⟩

theorem blockMarker_oneLine : blockMarker.OneLine := by decide

/-- A block marker whose inside starts with this text closes a block. -/
def closeWord : String := "end"

def ofText (raw : String) (span : Span) : Fragment := ⟨.text, raw, raw, span⟩

def ofRaw (raw : String) (span : Span) : Fragment :=
  match variableMarker.strip raw.toList with
  | some inner => ⟨.variable, raw, String.ofList inner, span⟩
  | none =>
    match blockMarker.strip raw.toList with
    | some inner =>
      let kind := if closeWord.toList.isPrefixOf inner then Kind.closing else Kind.opening
      ⟨kind, raw, String.ofList inner, span⟩
    | none => ofText raw span

def ofPiece (p : Piece) : Fragment :=
  if p.delimiter.isSome then ofRaw p.text p.span else ofText p.text p.span

/-- The fragments of a template in order. -/
def ofSource (source : String) : List Fragment :=
  (scan [variableMarker, blockMarker] source).map ofPiece

def words (f : Fragment) : List String :=
  (Text.words f.clean.toList).map String.ofList

def keyword? (f : Fragment) : Option String := f.words.head?

end Fragment

end Stencil
