import Stencil.Fragment

/-! Syntax errors of templates and pages: what is wrong, the marker it is wrong with, and where
that marker stands. -/

namespace Stencil

namespace SyntaxError

inductive Cause where
  | unmatchedClose
  | unknownKeyword (word : String)
  | missingItems
  | severalItems
  | malformedCondition
  | unknownOperator (symbol : String)
  | unmatchedEndblock
  | namelessBlock
deriving DecidableEq

def Cause.message : Cause → String
  | unmatchedClose => "Unmatched close marker"
  | unknownKeyword word => "Unknown block keyword '" ++ word ++ "'"
  | missingItems => "Expected 'array <expression>'"
  | severalItems => "Expected a single expression after 'array'"
  | malformedCondition => "Expected 'if <expr>' or 'if <expr> <op> <expr>'"
  | unknownOperator symbol => "Unknown comparison operator '" ++ symbol ++ "'"
  | unmatchedEndblock => "Unmatched endblock"
  | namelessBlock => "Expected a block name"

end SyntaxError

structure SyntaxError where
  cause : SyntaxError.Cause
  marker : String
  line : Nat
  column : Nat
deriving DecidableEq

namespace SyntaxError

def ofMarker (marker : String) (span : Span) (cause : Cause) : SyntaxError :=
  ⟨cause, marker, span.line, span.column⟩

def atFragment (f : Fragment) (cause : Cause) : SyntaxError := .ofMarker f.raw f.span cause

def message (e : SyntaxError) : String :=
  "Syntax error at line " ++ toString e.line ++ ", column " ++ toString e.column ++ ": " ++
    e.cause.message ++ " in `" ++ e.marker ++ "`"

end SyntaxError

end Stencil
