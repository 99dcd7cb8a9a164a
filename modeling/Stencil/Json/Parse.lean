import Stencil.Json.Token

/-! Reading JSON texts as values. One pass over the tokens keeps the arrays and objects that are
still open on a stack, of at most 127. Of entries with one key the last one counts. -/

namespace Stencil.Json

/-- An array or object still open around the value being read, its parts so far in reverse. -/
inductive Frame where
  | items (done : List Value)
  | entries (done : List (String × Value)) (key : String)

/-- What has to come next. -/
inductive State where
  | value (closable : Bool)
  | key (closable : Bool) (done : List (String × Value))
  | colon (done : List (String × Value)) (key : String)
  | complete (v : Value)

def maxDepth : Nat := 127

abbrev Step := Option (State × List Frame)

def openValue (stack : List Frame) : Token → Step
  | .scalar v => some (.complete v, stack)
  | .openBracket => if stack.length < maxDepth then some (.value true, .items [] :: stack) else none
  | .openBrace => if stack.length < maxDepth then some (.key true [], stack) else none
  | _ => none

def closeObject (done : List (String × Value)) : Value := Value.ofEntries done.reverse

/-- What a token does behind a complete value. -/
def continueValue (v : Value) : List Frame → Token → Step
  | .items done :: stack, .comma => some (.value false, .items (v :: done) :: stack)
  | .items done :: stack, .closeBracket => some (.complete (.list (v :: done).reverse), stack)
  | .entries done key :: stack, .comma => some (.key false ((key, v) :: done), stack)
  | .entries done key :: stack, .closeBrace =>
    some (.complete (closeObject ((key, v) :: done)), stack)
  | _, _ => none

def step : State × List Frame → Token → Step
  | (.value true, .items [] :: stack), .closeBracket => some (.complete (.list []), stack)
  | (.value _, stack), token => openValue stack token
  | (.key true done, stack), .closeBrace => some (.complete (closeObject done), stack)
  | (.key _ done, stack), .scalar (.str key) => some (.colon done key, stack)
  | (.colon done key, stack), .colon => some (.value false, .entries done key :: stack)
  | (.complete v, stack), token => continueValue v stack token
  | _, _ => none

def parse? (source : String) : Option Value := do
  let tokens ← tokensFrom? 0 source.toList
  match ← tokens.foldlM step (.value false, []) with
  | (.complete v, []) => some v
  | _ => none

end Stencil.Json
