import Stencil.Proofs.Bounds.Lexer
import Stencil.Proofs.Literal.Grammar

/-! Literals read by positions in the list of their tokens. A position behind the last token means
that token, which takes one less than their number, so there has to be one. The lexer ends its list
with `stop`, which no reader takes for its own; so no access fails, no reader runs out of fuel, and
what is read is what the readers of the model read. -/

namespace Stencil.Literal.Checked

section

variable (tokens : List (Token × Nat))

/-- The position of the last token. -/
def last? : Option Nat := if tokens.length = 0 then none else some (tokens.length - 1)

/-- The token at a position, or the last one. -/
def current (pos : Nat) : Checked Error (Token × Nat) := do
  let last ← Checked.access (last? tokens)
  Checked.access tokens[min pos last]?

def peek (pos : Nat) : Checked Error Token := do
  return (← current tokens pos).1

/-- The next position; the last token is never passed. -/
def next (pos : Nat) : Checked Error Nat := do
  let last ← Checked.access (last? tokens)
  return if pos < last then pos + 1 else pos

def fail {α : Type} (pos : Nat) (fault : Fault) : Checked Error α := do
  throw ⟨fault, (← current tokens pos).2⟩

def expect (token : Token) (pos : Nat) : Checked Error Nat := do
  if (← peek tokens pos) = token then next tokens pos
  else fail tokens pos (.expectedToken token (← peek tokens pos))

def skipComma (pos : Nat) : Checked Error (Option Nat) := do
  if (← peek tokens pos) = .comma then return some (← next tokens pos) else return none

mutual

def value : (fuel pos : Nat) → Checked Error (Value × Nat)
  | 0, _ => Checked.access none
  | fuel + 1, pos => do
    let token ← peek tokens pos
    let rest ← next tokens pos
    match token with
    | .openBracket => do
      let (items, rest) ← items .closeBracket fuel rest
      return (.list items, rest)
    | .openParen => parenthesized fuel rest
    | .openBrace => do
      let (entries, rest) ← entries fuel rest
      return (Value.ofEntries entries, rest)
    | token =>
      match token.value? with
      | some v => return (v, rest)
      | none => fail tokens rest (.expectedValue token)

def items (close : Token) : (fuel pos : Nat) → Checked Error (List Value × Nat)
  | 0, _ => Checked.access none
  | fuel + 1, pos => do
    if (← peek tokens pos) = close then return ([], ← next tokens pos)
    else
      let (first, rest) ← value fuel pos
      match ← skipComma tokens rest with
      | some rest =>
        let (others, rest) ← items close fuel rest
        return (first :: others, rest)
      | none => return ([first], ← expect tokens close rest)

def parenthesized : (fuel pos : Nat) → Checked Error (Value × Nat)
  | 0, _ => Checked.access none
  | fuel + 1, pos => do
    if (← peek tokens pos) = .closeParen then return (.list [], ← next tokens pos)
    else
      let (first, rest) ← value fuel pos
      if (← peek tokens rest) = .closeParen then return (first, ← next tokens rest)
      else
        let rest ← expect tokens .comma rest
        let (others, rest) ← items .closeParen fuel rest
        return (.list (first :: others), rest)

def entries : (fuel pos : Nat) → Checked Error (List (String × Value) × Nat)
  | 0, _ => Checked.access none
  | fuel + 1, pos => do
    if (← peek tokens pos) = .closeBrace then return ([], ← next tokens pos)
    else match ← peek tokens pos with
      | .str key => do
        let rest ← next tokens pos
        let rest ← expect tokens .colon rest
        let (v, rest) ← value fuel rest
        match ← skipComma tokens rest with
        | some rest =>
          let (others, rest) ← entries fuel rest
          return ((key, v) :: others, rest)
        | none => return ([(key, v)], ← expect tokens .closeBrace rest)
      | token => fail tokens pos (.keyNotText token)

end

end

/-- The value that a text writes; two units of fuel for each token are enough. -/
def parse (source : String) : Checked Error Value := do
  let tokens ← tokens source.toList
  let (v, rest) ← value tokens (2 * tokens.length + 2) 0
  match ← peek tokens rest with
  | .stop => return v
  | token => fail tokens rest (.trailing token)

/-- The list of tokens ends with `stop`. -/
def Ends (tokens : List (Token × Nat)) : Prop :=
  ∃ front position, tokens = front ++ [(.stop, position)]

section

variable {tokens : List (Token × Nat)} {pos low : Nat} {fault : Fault} {token : Token} {α β : Type}

/-- What the readers of the model do with the tokens from a position on is done by positions, and
ends at `low` or behind it. -/
def Follows (tokens : List (Token × Nat)) (low : Nat) (x : Checked Error (α × Nat)) :
    Except Error (α × Input) → Prop
  | .ok (a, rest) => ∃ pos, x = Checked.of (.ok (a, pos)) ∧ tokens.drop pos = rest ∧
      low ≤ pos ∧ pos < tokens.length
  | .error e => x = Checked.of (.error e)

theorem Follows.bind {x : Checked Error (α × Nat)} {y : Except Error (α × Input)}
    {f : α × Nat → Checked Error (β × Nat)} {g : α × Input → Except Error (β × Input)}
    {low' : Nat} (h : Follows tokens low x y)
    (hf : ∀ a pos, low ≤ pos → pos < tokens.length →
      Follows tokens low' (f (a, pos)) (g (a, tokens.drop pos))) :
    Follows tokens low' (x >>= f) (y >>= g) := by
  cases y with
  | error e =>
    rw [show x = Checked.of (.error e) from h]
    rfl
  | ok found =>
    obtain ⟨a, rest⟩ := found
    obtain ⟨pos, rfl, rfl, hlow, hpos⟩ := h
    exact hf a pos hlow hpos

theorem Follows.result {a : α} (hlow : low ≤ pos) (hpos : pos < tokens.length) :
    Follows tokens low (pure (a, pos)) (.ok (a, tokens.drop pos)) :=
  ⟨pos, rfl, rfl, hlow, hpos⟩

/-! Looking and going on. -/

theorem current_eq (hpos : pos < tokens.length) :
    current tokens pos = Checked.access tokens[pos]? := by
  have hmin : min pos (tokens.length - 1) = pos := by omega
  rw [current, last?, if_neg (by omega), Checked.access_some_bind, hmin]

theorem peek_eq (hpos : pos < tokens.length) :
    peek tokens pos = Checked.of (.ok (Input.peek (tokens.drop pos))) := by
  rw [peek, current_eq hpos, List.drop_eq_getElem_cons hpos, List.getElem?_eq_getElem hpos]
  rfl

theorem fail_eq (hpos : pos < tokens.length) :
    (fail tokens pos fault : Checked Error α) =
      Checked.of (Input.fail (tokens.drop pos) fault) := by
  rw [fail, current_eq hpos, List.drop_eq_getElem_cons hpos, List.getElem?_eq_getElem hpos]
  rfl

theorem Follows.fail (hpos : pos < tokens.length) :
    Follows tokens low (fail tokens pos fault : Checked Error (α × Nat))
      (Input.fail (tokens.drop pos) fault) := fail_eq hpos

/-- The position behind this one, or this one if it is the last. -/
def behind (tokens : List (Token × Nat)) (pos : Nat) : Nat :=
  if pos < tokens.length - 1 then pos + 1 else pos

theorem next_eq (hpos : pos < tokens.length) :
    next tokens pos = Checked.of (.ok (behind tokens pos)) := by
  rw [next, last?, if_neg (by omega), Checked.access_some_bind]
  rfl

theorem drop_behind (hpos : pos < tokens.length) :
    tokens.drop (behind tokens pos) = Input.next (tokens.drop pos) := by
  rw [behind]
  split
  · next hmore =>
    have hnext : pos + 1 < tokens.length := by omega
    rw [List.drop_eq_getElem_cons hpos, List.drop_eq_getElem_cons hnext]
    rfl
  · next hlast =>
    have hnone : tokens.drop (pos + 1) = [] := List.drop_eq_nil_iff.2 (by omega)
    rw [List.drop_eq_getElem_cons hpos, hnone]
    rfl

theorem behind_lt (hpos : pos < tokens.length) : behind tokens pos < tokens.length := by
  rw [behind]
  split <;> omega

theorem le_behind (tokens : List (Token × Nat)) (pos : Nat) : pos ≤ behind tokens pos := by
  rw [behind]
  split <;> omega

/-- Only `stop` is the last token. -/
theorem behind_eq (h : Ends tokens) (hpos : pos < tokens.length)
    (hpeek : Input.peek (tokens.drop pos) = token) (htoken : token ≠ .stop) :
    behind tokens pos = pos + 1 := by
  obtain ⟨front, position, rfl⟩ := h
  rw [behind]
  split
  · rfl
  · next hlast =>
    obtain rfl : pos = front.length := by
      rw [List.length_append, List.length_singleton] at hlast hpos
      omega
    rw [List.drop_left] at hpeek
    exact absurd hpeek.symm htoken

theorem skipComma_eq (hpos : pos < tokens.length) : skipComma tokens pos = Checked.of (.ok
    (if Input.peek (tokens.drop pos) = .comma then some (behind tokens pos) else none)) := by
  rw [skipComma, peek_eq hpos, Checked.of_ok_bind]
  split
  · rw [next_eq hpos]
    rfl
  · rfl

/-- A token that is expected is used up, and it is not the last one. -/
theorem Follows.expect {f : Nat → Checked Error (β × Nat)} {g : Input → Except Error (β × Input)}
    (h : Ends tokens) (token : Token) (hpos : pos < tokens.length) (htoken : token ≠ .stop)
    (hf : pos + 1 < tokens.length → Follows tokens low (f (pos + 1)) (g (tokens.drop (pos + 1)))) :
    Follows tokens low (Checked.expect tokens token pos >>= f)
      (Literal.expect token (tokens.drop pos) >>= g) := by
  rw [Checked.expect, Literal.expect, peek_eq hpos, Checked.of_ok_bind]
  by_cases hpeek : Input.peek (tokens.drop pos) = token
  · have hbehind := behind_eq h hpos hpeek htoken
    have hlt := behind_lt hpos
    rw [if_pos hpeek, if_pos hpeek, next_eq hpos, Checked.of_ok_bind, ← drop_behind hpos, ok_bind]
    rw [hbehind] at hlt ⊢
    exact hf hlt
  · rw [if_neg hpeek, if_neg hpeek, Checked.of_ok_bind, fail_eq hpos]
    rfl

/-- A token that is no bracket is a value by itself or a fault. -/
theorem single_follows (h : Ends tokens) (hpos : pos < tokens.length)
    (hpeek : Input.peek (tokens.drop pos) = token) : Follows tokens (pos + 1)
      (match token.value? with
        | some v => return (v, behind tokens pos)
        | none => fail tokens (behind tokens pos) (.expectedValue token))
      (match token.value? with
        | some v => .ok (v, tokens.drop (behind tokens pos))
        | none => Input.fail (tokens.drop (behind tokens pos)) (.expectedValue token)) := by
  have hlt := behind_lt hpos
  cases hvalue : token.value? with
  | some v =>
    have hbehind := behind_eq h hpos hpeek (Token.ne_stop_of_value? hvalue)
    exact .result (Nat.le_of_eq hbehind.symm) hlt
  | none => exact .fail hlt

/-! The readers, on their fuel. It is enough as long as it is twice the number of tokens to read,
and one more behind an opening token. -/

mutual

theorem value_follows (h : Ends tokens) : (fuel pos : Nat) → pos < tokens.length →
    2 * (tokens.length - pos) ≤ fuel →
      Follows tokens (pos + 1) (value tokens fuel pos) (Literal.value fuel (tokens.drop pos))
  | 0, pos, hpos, hfuel => by omega
  | fuel + 1, pos, hpos, hfuel => by
    rw [value, Literal.value, peek_eq hpos, Checked.of_ok_bind, next_eq hpos, Checked.of_ok_bind]
    dsimp only
    rw [← drop_behind hpos]
    have hlt := behind_lt hpos
    cases hpeek : Input.peek (tokens.drop pos) with
    | openBracket =>
      rw [behind_eq h hpos hpeek nofun] at hlt ⊢
      refine (items_follows h .closeBracket nofun fuel (pos + 1) hlt (by omega)).bind
        fun items rest hlow hrest => ?_
      exact .result hlow hrest
    | openParen =>
      rw [behind_eq h hpos hpeek nofun] at hlt ⊢
      exact parenthesized_follows h fuel (pos + 1) hlt (by omega)
    | openBrace =>
      rw [behind_eq h hpos hpeek nofun] at hlt ⊢
      refine (entries_follows h fuel (pos + 1) hlt (by omega)).bind fun entries rest hlow hrest => ?_
      exact .result hlow hrest
    | _ => exact single_follows h hpos hpeek

theorem items_follows (h : Ends tokens) (close : Token) (hclose : close ≠ .stop) :
    (fuel pos : Nat) → pos < tokens.length → 2 * (tokens.length - pos) + 1 ≤ fuel →
      Follows tokens pos (items tokens close fuel pos)
        (Literal.items close fuel (tokens.drop pos))
  | 0, pos, hpos, hfuel => by omega
  | fuel + 1, pos, hpos, hfuel => by
    rw [items, Literal.items, peek_eq hpos, Checked.of_ok_bind]
    split
    · rw [next_eq hpos, Checked.of_ok_bind, ← drop_behind hpos]
      exact .result (le_behind tokens pos) (behind_lt hpos)
    · refine (value_follows h fuel pos hpos (by omega)).bind fun first rest hlow hrest => ?_
      dsimp only
      rw [skipComma_eq hrest, Checked.of_ok_bind, Literal.skipComma]
      by_cases hcomma : Input.peek (tokens.drop rest) = .comma
      · have hlt := behind_lt hrest
        rw [if_pos hcomma, if_pos hcomma, ← drop_behind hrest]
        rw [behind_eq h hrest hcomma nofun] at hlt ⊢
        dsimp only
        refine (items_follows h close hclose fuel (rest + 1) hlt (by omega)).bind
          fun others last hlow' hlast => ?_
        exact .result (by omega) hlast
      · rw [if_neg hcomma, if_neg hcomma]
        exact .expect h close hrest hclose fun hlt => .result (by omega) hlt

theorem parenthesized_follows (h : Ends tokens) : (fuel pos : Nat) → pos < tokens.length →
    2 * (tokens.length - pos) + 1 ≤ fuel →
      Follows tokens pos (parenthesized tokens fuel pos)
        (Literal.parenthesized fuel (tokens.drop pos))
  | 0, pos, hpos, hfuel => by omega
  | fuel + 1, pos, hpos, hfuel => by
    rw [parenthesized, Literal.parenthesized, peek_eq hpos, Checked.of_ok_bind]
    split
    · rw [next_eq hpos, Checked.of_ok_bind, ← drop_behind hpos]
      exact .result (le_behind tokens pos) (behind_lt hpos)
    · refine (value_follows h fuel pos hpos (by omega)).bind fun first rest hlow hrest => ?_
      dsimp only
      rw [peek_eq hrest, Checked.of_ok_bind]
      split
      · rw [next_eq hrest, Checked.of_ok_bind, ← drop_behind hrest]
        exact .result (by have := le_behind tokens rest; omega) (behind_lt hrest)
      · refine .expect h .comma hrest nofun fun hlt => ?_
        refine (items_follows h .closeParen nofun fuel (rest + 1) hlt (by omega)).bind
          fun others last hlow' hlast => ?_
        exact .result (by omega) hlast

theorem entries_follows (h : Ends tokens) : (fuel pos : Nat) → pos < tokens.length →
    2 * (tokens.length - pos) + 1 ≤ fuel →
      Follows tokens pos (entries tokens fuel pos) (Literal.entries fuel (tokens.drop pos))
  | 0, pos, hpos, hfuel => by omega
  | fuel + 1, pos, hpos, hfuel => by
    rw [entries, Literal.entries, peek_eq hpos, Checked.of_ok_bind]
    split
    · rw [next_eq hpos, Checked.of_ok_bind, ← drop_behind hpos]
      exact .result (le_behind tokens pos) (behind_lt hpos)
    · rw [Checked.of_ok_bind]
      cases hpeek : Input.peek (tokens.drop pos) with
      | str key =>
        have hlt := behind_lt hpos
        dsimp only
        rw [next_eq hpos, Checked.of_ok_bind, ← drop_behind hpos]
        rw [behind_eq h hpos hpeek nofun] at hlt ⊢
        refine .expect h .colon hlt nofun fun hcolon => ?_
        refine (value_follows h fuel (pos + 1 + 1) hcolon (by omega)).bind
          fun v rest hlow hrest => ?_
        dsimp only
        rw [skipComma_eq hrest, Checked.of_ok_bind, Literal.skipComma]
        by_cases hcomma : Input.peek (tokens.drop rest) = .comma
        · have hmore := behind_lt hrest
          rw [if_pos hcomma, if_pos hcomma, ← drop_behind hrest]
          rw [behind_eq h hrest hcomma nofun] at hmore ⊢
          dsimp only
          refine (entries_follows h fuel (rest + 1) hmore (by omega)).bind
            fun others last hlow' hlast => ?_
          exact .result (by omega) hlast
        · rw [if_neg hcomma, if_neg hcomma]
          exact .expect h .closeBrace hrest nofun fun hclose =>
            .result (by omega) hclose
      | _ => exact .fail hpos

end

theorem ends_of_tokens {cs : List Char} (h : Literal.tokens cs = .ok tokens) : Ends tokens := by
  obtain ⟨ts, -, hmap⟩ := lexes_of_tokens h
  obtain ⟨front, last, rfl, -, hlast⟩ := List.map_eq_append_iff.1 hmap
  obtain ⟨⟨token, position⟩, rfl, rfl⟩ := List.map_eq_singleton_iff.1 hlast
  exact ⟨front, position, rfl⟩

theorem parse_eq (source : String) : parse source = Checked.of (Literal.parse source) := by
  rw [parse, tokens_eq, Literal.parse]
  cases htokens : Literal.tokens source.toList with
  | error e => rfl
  | ok tokens =>
    have hends := ends_of_tokens htokens
    have hpos : 0 < tokens.length := by
      obtain ⟨front, position, rfl⟩ := hends
      simp
    have hvalue := value_follows hends (2 * tokens.length + 2) 0 hpos (by omega)
    rw [Checked.of_ok_bind, ok_bind]
    rw [List.drop_zero] at hvalue
    cases hread : Literal.value (2 * tokens.length + 2) tokens with
    | error e =>
      rw [hread] at hvalue
      rw [show value tokens (2 * tokens.length + 2) 0 = Checked.of (.error e) from hvalue]
      rfl
    | ok found =>
      obtain ⟨v, rest⟩ := found
      rw [hread] at hvalue
      obtain ⟨pos, hchecked, rfl, -, hlast⟩ := hvalue
      rw [hchecked, Checked.of_ok_bind, ok_bind]
      dsimp only
      rw [peek_eq hlast, Checked.of_ok_bind]
      cases Input.peek (tokens.drop pos) with
      | stop => rfl
      | _ => exact fail_eq hlast

end

end Stencil.Literal.Checked
