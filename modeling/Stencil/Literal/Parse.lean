import Stencil.Literal.Token
import Stencil.Value.Basic

/-! Reading literals. Brackets and parentheses enclose lists and braces maps, each with commas
between the parts and an optional one behind the last; one value alone in parentheses is that
value. -/

namespace Stencil

namespace Literal

/-- Tokens still to be read; the last one is `stop` and is never used up. -/
abbrev Input := List (Token × Nat)

namespace Input

def peek : Input → Token
  | [] => .stop
  | (token, _) :: _ => token

def position : Input → Nat
  | [] => 0
  | (_, n) :: _ => n

def next : Input → Input
  | _ :: second :: rest => second :: rest
  | input => input

def fail (input : Input) (fault : Fault) : Except Error α := .error ⟨fault, input.position⟩

end Input

def expect (token : Token) (input : Input) : Except Error Input :=
  if input.peek = token then .ok input.next
  else input.fail (.expectedToken token input.peek)

def skipComma (input : Input) : Option Input :=
  if input.peek = .comma then some input.next else none

/-- The value that a token writes by itself. -/
def Token.value? : Token → Option Value
  | int n => some (.int n)
  | float x => some (.float x)
  | str s => some (.str s)
  | bool b => some (.bool b)
  | null => some .none
  | _ => none

mutual

/-- One value. The fuel is spent on nesting and on the length of lists and maps. -/
def value : (fuel : Nat) → Input → Except Error (Value × Input)
  | 0, input => input.fail (.expectedValue input.peek)
  | fuel + 1, input =>
    let rest := input.next
    match input.peek with
    | .openBracket => do
      let (items, rest) ← items .closeBracket fuel rest
      return (.list items, rest)
    | .openParen => parenthesized fuel rest
    | .openBrace => do
      let (entries, rest) ← entries fuel rest
      return (Value.ofEntries entries, rest)
    | token =>
      match token.value? with
      | some v => .ok (v, rest)
      | none => rest.fail (.expectedValue token)

/-- The items of a list and its closing token. -/
def items (close : Token) : (fuel : Nat) → Input → Except Error (List Value × Input)
  | 0, input => input.fail (.expectedValue input.peek)
  | fuel + 1, input =>
    if input.peek = close then .ok ([], input.next)
    else do
      let (first, rest) ← value fuel input
      match skipComma rest with
      | some rest =>
        let (others, rest) ← items close fuel rest
        return (first :: others, rest)
      | none => return ([first], ← expect close rest)

/-- What follows an opening parenthesis. -/
def parenthesized : (fuel : Nat) → Input → Except Error (Value × Input)
  | 0, input => input.fail (.expectedValue input.peek)
  | fuel + 1, input =>
    if input.peek = .closeParen then .ok (.list [], input.next)
    else do
      let (first, rest) ← value fuel input
      if rest.peek = .closeParen then return (first, rest.next)
      let rest ← expect .comma rest
      let (others, rest) ← items .closeParen fuel rest
      return (.list (first :: others), rest)

/-- The entries of a map, in the order written, and its closing brace. -/
def entries : (fuel : Nat) → Input → Except Error (List (String × Value) × Input)
  | 0, input => input.fail (.expectedValue input.peek)
  | fuel + 1, input =>
    if input.peek = .closeBrace then .ok ([], input.next)
    else match input.peek with
      | .str key => do
        let rest ← expect .colon input.next
        let (v, rest) ← value fuel rest
        match skipComma rest with
        | some rest =>
          let (others, rest) ← entries fuel rest
          return ((key, v) :: others, rest)
        | none => return ([(key, v)], ← expect .closeBrace rest)
      | token => input.fail (.keyNotText token)

end

/-- The value that a text writes from its start to its end. -/
def parse (source : String) : Except Error Value := do
  let input ← tokens source.toList
  let (v, rest) ← value (2 * input.length + 2) input
  match rest.peek with
  | .stop => return v
  | token => rest.fail (.trailing token)

end Literal

end Stencil
