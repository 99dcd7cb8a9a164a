import Stencil.Json.Number

/-! The tokens of JSON texts. Only space, tab, newline and carriage return may stand between
them. -/

namespace Stencil.Json

inductive Token where
  | scalar (v : Value)
  | openBracket
  | closeBracket
  | openBrace
  | closeBrace
  | comma
  | colon

def isSpace (c : Char) : Bool := c == ' ' || c == '\t' || c == '\n' || c == '\r'

def hexValue? (c : Char) : Option Nat :=
  if c.isDigit then some (c.toNat - '0'.toNat)
  else if 'a' ≤ c && c ≤ 'f' then some (c.toNat - 'a'.toNat + 10)
  else if 'A' ≤ c && c ≤ 'F' then some (c.toNat - 'A'.toNat + 10)
  else none

/-- The number that four hexadecimal digits write. -/
def unit? (a b c d : Char) : Option Nat := do
  return (((← hexValue? a) * 16 + (← hexValue? b)) * 16 + (← hexValue? c)) * 16 + (← hexValue? d)

def shortEscapes : List (Char × Char) :=
  [('"', '"'), ('\\', '\\'), ('/', '/'), ('b', '\x08'), ('f', '\x0c'), ('n', '\n'), ('r', '\r'),
   ('t', '\t')]

/-- The character of one unit that is no half of a pair. -/
def single? (n : Nat) : Option Char :=
  if 0xD800 ≤ n && n < 0xE000 then none else some (Char.ofNat n)

/-- The character of a pair of units, the high one first. -/
def pair? (high low : Nat) : Option Char :=
  if 0xD800 ≤ high && high < 0xDC00 && 0xDC00 ≤ low && low < 0xE000 then
    some (Char.ofNat (0x10000 + (high - 0xD800) * 0x400 + (low - 0xDC00)))
  else none

/-- The text up to the closing quote, and the number of characters it takes with that quote. -/
def textBody? : List Char → Option (List Char × Nat)
  | [] => none
  | '"' :: _ => some ([], 1)
  | '\\' :: 'u' :: a :: b :: c :: d :: cs => do
    let n ← unit? a b c d
    match single? n with
    | some ch =>
      let (body, k) ← textBody? cs
      return (ch :: body, k + 6)
    | none =>
      match cs with
      | '\\' :: 'u' :: a :: b :: c :: d :: cs =>
        let ch ← pair? n (← unit? a b c d)
        let (body, k) ← textBody? cs
        return (ch :: body, k + 12)
      | _ => none
  | '\\' :: c :: cs => do
    let ch ← shortEscapes.lookup c
    let (body, k) ← textBody? cs
    return (ch :: body, k + 2)
  | c :: cs =>
    if c.toNat < 0x20 then none
    else do
      let (body, k) ← textBody? cs
      return (c :: body, k + 1)

def punctuation : List (Char × Token) :=
  [('[', .openBracket), (']', .closeBracket), ('\x7b', .openBrace), ('\x7d', .closeBrace),
   (',', .comma), (':', .colon)]

def words : List (String × Value) :=
  [("null", .none), ("true", .bool true), ("false", .bool false)]

/-- A constant at the front of a text. -/
def word? (cs : List Char) : Option (Value × Nat) :=
  words.findSome? fun (name, v) =>
    if name.toList.isPrefixOf cs then some (v, name.length) else none

def number? (cs : List Char) : Option (Value × Nat) := do
  let (parts, rest) ← parts? cs
  return (← parts.value?, cs.length - rest.length)

/-- The token that starts with `c`, and the number of its characters. -/
def token? (c : Char) (cs : List Char) : Option (Token × Nat) :=
  match punctuation.lookup c with
  | some token => some (token, 1)
  | none =>
    if c = '"' then (textBody? cs).map fun (body, k) => (.scalar (.str (String.ofList body)), k + 1)
    else if c.isDigit || c == '-' then (number? (c :: cs)).map fun (v, k) => (.scalar v, k)
    else (word? (c :: cs)).map fun (v, k) => (.scalar v, k)

/-- The tokens of a text of which the first `skip` characters belong to a token already read. -/
def tokensFrom? : (skip : Nat) → List Char → Option (List Token)
  | _, [] => some []
  | n + 1, _ :: cs => tokensFrom? n cs
  | 0, c :: cs =>
    if isSpace c then tokensFrom? 0 cs
    else match token? c cs with
      | some (token, n) => (tokensFrom? (n - 1) cs).map (token :: ·)
      | none => none

end Stencil.Json
