import Stencil.Number.Shortest
import Stencil.Text.Blank
import Stencil.Text.Letters
import Stencil.Text.Quoted

/-! The tokens of literals. Blanks separate tokens and mean nothing else. A token stands with the
position of its first character, and the end of the text is a token too. -/

namespace Stencil.Literal

inductive Token where
  | int (n : Int64)
  | float (x : Double)
  | str (s : String)
  | bool (b : Bool)
  | null
  | openBracket
  | closeBracket
  | openParen
  | closeParen
  | openBrace
  | closeBrace
  | comma
  | colon
  | stop
deriving DecidableEq

/-- Why a text is not a literal. -/
inductive Fault where
  | unexpectedCharacter (c : Char)
  | invalidNumber (text : String)
  | unterminatedEscape
  | unterminatedText
  | word (text : String)
  | expectedValue (found : Token)
  | expectedToken (wanted found : Token)
  | keyNotText (found : Token)
  | trailing (found : Token)
deriving DecidableEq

/-- A fault and where it shows, in characters from the start of the text. -/
structure Error where
  fault : Fault
  position : Nat
deriving DecidableEq

namespace Token

def describe : Token → String
  | int n => "Int(" ++ toString n.toInt ++ ")"
  | float x => "Float(" ++ x.compact ++ ")"
  | str s => "Str(" ++ Text.quote s ++ ")"
  | bool b => "Bool(" ++ toString b ++ ")"
  | null => "Null"
  | openBracket => "LBracket"
  | closeBracket => "RBracket"
  | openParen => "LParen"
  | closeParen => "RParen"
  | openBrace => "LBrace"
  | closeBrace => "RBrace"
  | comma => "Comma"
  | colon => "Colon"
  | stop => "Eof"

end Token

def Fault.message : Fault → String
  | unexpectedCharacter c => "Unexpected character: '" ++ c.toString ++ "'"
  | invalidNumber text => "Invalid number: '" ++ text ++ "'"
  | unterminatedEscape => "Unterminated escape sequence"
  | unterminatedText => "Unterminated string"
  | word text => "'" ++ text ++ "' is a name"
  | expectedValue found => "Expected a value, found " ++ found.describe
  | expectedToken wanted found => "Expected " ++ wanted.describe ++ ", found " ++ found.describe
  | keyNotText found => "Mapping keys must be strings, found " ++ found.describe
  | trailing found => "Unexpected trailing " ++ found.describe

def Error.message (e : Error) : String :=
  "Not a literal at position " ++ toString e.position ++ ": " ++ e.fault.message

/-! Reading one token. A reader gives the token and the number of its characters, or a fault and
how far behind the first character it shows. -/

abbrev Read := Except Error (Token × Nat)

/-- The characters that can go on a number: digits, points, exponent letters, and a sign right
behind such a letter. -/
def numberRun : (afterLetter : Bool) → List Char → List Char
  | _, [] => []
  | afterLetter, c :: cs =>
    if c.isDigit || c == '.' then c :: numberRun false cs
    else if c == 'e' || c == 'E' then c :: numberRun true cs
    else if afterLetter && (c == '+' || c == '-') then c :: numberRun false cs
    else []

def numberText : List Char → List Char
  | '-' :: cs => '-' :: numberRun false cs
  | cs => numberRun false cs

/-- The whole number that `cs` writes, if 64 bits hold it. -/
def int64? (cs : List Char) : Option Int64 :=
  (Decimal.int? cs).bind fun n =>
    if Int64.minValue.toInt ≤ n && n ≤ Int64.maxValue.toInt then some (Int64.ofInt n) else none

/-- A number with a point or an exponent letter is a floating-point number. -/
def number? (text : List Char) : Option Token :=
  if text.any fun c => c == '.' || c == 'e' || c == 'E' then (Double.ofChars? text).map .float
  else (int64? text).map .int

def readNumber (cs : List Char) : Read :=
  let text := numberText cs
  match number? text with
  | some token => .ok (token, text.length)
  | none => .error ⟨.invalidNumber (String.ofList text), 0⟩

/-- What a backslash and `c` stand for: an unknown escape stands for itself. -/
def unescape (c : Char) : List Char :=
  if c = 'n' then ['\n']
  else if c = 't' then ['\t']
  else if c = 'r' then ['\r']
  else if c = '\\' || c = '\'' || c = '"' then [c]
  else ['\\', c]

/-- The text up to the closing quote and how many characters it takes, that quote included; `read`
counts the characters before it. -/
def textBody (quote : Char) (read : Nat) : List Char → Except Error (List Char × Nat)
  | [] => .error ⟨.unterminatedText, read⟩
  | c :: cs =>
    if c = quote then .ok ([], read + 1)
    else if c = '\\' then
      match cs with
      | [] => .error ⟨.unterminatedEscape, read + 1⟩
      | d :: rest => do
        let (body, n) ← textBody quote (read + 2) rest
        return (unescape d ++ body, n)
    else do
      let (body, n) ← textBody quote (read + 1) cs
      return (c :: body, n)

def readText (quote : Char) (cs : List Char) : Read := do
  let (body, n) ← textBody quote 1 cs
  return (.str (String.ofList body), n)

def isWordStart (c : Char) : Bool := Text.isAlphabetic c || c == '_'

def isWordPart (c : Char) : Bool := Text.isAlphanumeric c || c == '_'

def constants : List (String × Token) :=
  [("true", .bool true), ("True", .bool true), ("false", .bool false), ("False", .bool false),
   ("null", .null), ("None", .null)]

/-- A word that is not the name of a constant makes the text a name. -/
def readWord (cs : List Char) : Read :=
  let word := String.ofList (cs.takeWhile isWordPart)
  match constants.lookup word with
  | some token => .ok (token, word.length)
  | none => .error ⟨.word word, 0⟩

def punctuation : List (Char × Token) :=
  [('[', .openBracket), (']', .closeBracket), ('(', .openParen), (')', .closeParen),
   ('\x7b', .openBrace), ('\x7d', .closeBrace), (',', .comma), (':', .colon)]

/-- A minus sign starts a number only in front of a digit or a point. -/
def startsNumber : List Char → Bool
  | '-' :: c :: _ => c.isDigit || c == '.'
  | c :: _ => c.isDigit || c == '.'
  | [] => false

/-- The token that starts with `c`. -/
def readToken (c : Char) (cs : List Char) : Read :=
  if startsNumber (c :: cs) then readNumber (c :: cs)
  else if c = '\'' || c = '"' then readText c cs
  else if isWordStart c then readWord (c :: cs)
  else match punctuation.lookup c with
    | some token => .ok (token, 1)
    | none => .error ⟨.unexpectedCharacter c, 0⟩

/-- The tokens of a text that stands at `position`, of which the first `skip` characters belong
to a token already read. -/
def tokensFrom : (skip position : Nat) → List Char → Except Error (List (Token × Nat))
  | _, position, [] => .ok [(.stop, position)]
  | n + 1, position, _ :: cs => tokensFrom n (position + 1) cs
  | 0, position, c :: cs =>
    if Text.isBlank c then tokensFrom 0 (position + 1) cs
    else match readToken c cs with
      | .ok (token, n) => do
        let rest ← tokensFrom (n - 1) (position + 1) cs
        return (token, position) :: rest
      | .error e => .error ⟨e.fault, position + e.position⟩

def tokens (cs : List Char) : Except Error (List (Token × Nat)) := tokensFrom 0 0 cs

end Stencil.Literal
