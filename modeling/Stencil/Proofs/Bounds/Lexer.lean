import Stencil.Proofs.Bounds.Slices
import Stencil.Proofs.Literal.Lexing

/-! The tokens of literals by positions. Each reader looks at the characters one by one and cuts the
text of a number or of a word out of them. No access fails, and the tokens and faults are those of
the reading that goes down the text. -/

namespace Stencil.Literal

/-- A fault that shows so many characters further on. -/
def Error.behind (pos : Nat) (e : Error) : Error := ⟨e.fault, pos + e.position⟩

/-- What is read at a position, with the position behind it. -/
def Read.behind (pos : Nat) (read : Read) : Except Error (Token × Nat) :=
  (read.map fun found => (found.1, pos + found.2)).mapError (Error.behind pos)

namespace Checked

section

variable (chars : List Char)

/-- The first position from `pos` on at which `p` fails. -/
def skipWhile (p : Char → Bool) : (fuel pos : Nat) → Option Nat
  | 0, _ => none
  | fuel + 1, pos =>
    if chars.length ≤ pos then some pos
    else do
      let c ← chars[pos]?
      if p c then skipWhile p fuel (pos + 1) else return pos

/-- The position behind the characters that can go on a number. -/
def skipNumber : (fuel pos : Nat) → Option Nat
  | 0, _ => none
  | fuel + 1, pos =>
    if chars.length ≤ pos then some pos
    else do
      let c ← chars[pos]?
      if c.isDigit || c == '.' then skipNumber fuel (pos + 1)
      else if c == 'e' || c == 'E' then
        if chars.length ≤ pos + 1 then skipNumber fuel (pos + 1)
        else
          let sign ← chars[pos + 1]?
          skipNumber fuel (if sign == '+' || sign == '-' then pos + 2 else pos + 1)
      else return pos

def readNumber (pos : Nat) : Checked Error (Token × Nat) := do
  let first ← Checked.access chars[pos]?
  let stop ← Checked.access
    (skipNumber chars (chars.length + 1) (if first = '-' then pos + 1 else pos))
  let text ← Checked.access (slice? chars pos stop)
  match number? text with
  | some token => return (token, stop)
  | none => throw ⟨.invalidNumber (String.ofList text), pos⟩

/-- The text up to the closing quote behind what is read of it, and the position behind that. -/
def textFrom (quote : Char) : (fuel pos : Nat) → (read : List Char) →
    Checked Error (List Char × Nat)
  | 0, _, _ => Checked.access none
  | fuel + 1, pos, read =>
    if chars.length ≤ pos then throw ⟨.unterminatedText, pos⟩
    else do
      let c ← Checked.access chars[pos]?
      if c = quote then return (read, pos + 1)
      else if c = '\\' then
        if chars.length ≤ pos + 1 then throw ⟨.unterminatedEscape, pos + 1⟩
        else
          let escaped ← Checked.access chars[pos + 1]?
          textFrom quote fuel (pos + 2) (read ++ unescape escaped)
      else textFrom quote fuel (pos + 1) (read ++ [c])

def readText (pos : Nat) : Checked Error (Token × Nat) := do
  let quote ← Checked.access chars[pos]?
  let (text, stop) ← textFrom chars quote (chars.length + 1) (pos + 1) []
  return (.str (String.ofList text), stop)

def readWord (pos : Nat) : Checked Error (Token × Nat) := do
  let stop ← Checked.access (skipWhile chars isWordPart (chars.length + 1) pos)
  let text ← Checked.access (slice? chars pos stop)
  match constants.lookup (String.ofList text) with
  | some token => return (token, stop)
  | none => throw ⟨.word (String.ofList text), pos⟩

/-- Whether a number starts at a position where `c` stands; the character behind may be missing. -/
def startsNumber (c : Char) (pos : Nat) : Bool :=
  c.isDigit || c == '.' || c == '-' && chars[pos + 1]?.any fun d => d.isDigit || d == '.'

/-- The token at a position; behind the last character there is the end. -/
def readToken (pos : Nat) : Checked Error (Token × Nat) :=
  if chars.length ≤ pos then return (.stop, pos)
  else do
    let c ← Checked.access chars[pos]?
    if startsNumber chars c pos then readNumber chars pos
    else if c = '\'' || c = '"' then readText chars pos
    else if isWordStart c then readWord chars pos
    else match punctuation.lookup c with
      | some token => return (token, pos + 1)
      | none => throw ⟨.unexpectedCharacter c, pos⟩

/-- The tokens from a position on behind those that are read. -/
def tokensFrom : (fuel pos : Nat) → (read : List (Token × Nat)) →
    Checked Error (List (Token × Nat))
  | 0, _, _ => Checked.access none
  | fuel + 1, pos, read => do
    let start ← Checked.access (skipWhile chars Text.isBlank (chars.length + 1) pos)
    let (token, stop) ← readToken chars start
    let read := read ++ [(token, start)]
    if token = .stop then return read else tokensFrom fuel stop read

def tokens : Checked Error (List (Token × Nat)) := tokensFrom chars (chars.length + 1) 0 []

end

variable {chars rest : List Char} {pos fuel : Nat} {c : Char}

theorem skipWhile_eq {p : Char → Bool} (h : chars.drop pos = rest) (hfuel : rest.length < fuel) :
    skipWhile chars p fuel pos = some (pos + (rest.takeWhile p).length) := by
  induction fuel generalizing pos rest with
  | zero => exact absurd hfuel (Nat.not_lt_zero _)
  | succ fuel ih =>
    rw [skipWhile]
    cases rest with
    | nil => rw [if_pos (List.drop_eq_nil_iff.1 h)]; rfl
    | cons c rest =>
      rw [if_neg (Nat.not_le.2 (lt_of_drop h)), getElem?_of_drop h, Option.bind_eq_bind,
        Option.bind_some, List.takeWhile_cons]
      split
      · rw [ih (drop_succ h) (Nat.lt_of_succ_lt_succ hfuel), List.length_cons]
        congr 1
        omega
      · rfl

/-- Behind an exponent letter only a sign makes a difference. -/
theorem numberRun_sign (c : Char) (rest : List Char) : numberRun true (c :: rest) =
    if c == '+' || c == '-' then c :: numberRun false rest else numberRun false (c :: rest) := by
  split
  · next hsign =>
    have hother : (c.isDigit || c == '.') = false ∧ (c == 'e' || c == 'E') = false := by
      rcases Bool.or_eq_true_iff.1 hsign with h | h <;> rw [beq_iff_eq.1 h] <;> decide
    rw [numberRun, hother.1, hother.2, hsign]
    rfl
  · next hsign =>
    rw [numberRun, numberRun, Bool.eq_false_iff.2 hsign]
    rfl

theorem skipNumber_eq (h : chars.drop pos = rest) (hfuel : rest.length < fuel) :
    skipNumber chars fuel pos = some (pos + (numberRun false rest).length) := by
  induction fuel generalizing pos rest with
  | zero => exact absurd hfuel (Nat.not_lt_zero _)
  | succ fuel ih =>
    rw [skipNumber]
    cases rest with
    | nil => rw [if_pos (List.drop_eq_nil_iff.1 h)]; rfl
    | cons c rest =>
      have hnext := drop_succ h
      have hshort := Nat.lt_of_succ_lt_succ hfuel
      rw [if_neg (Nat.not_le.2 (lt_of_drop h)), getElem?_of_drop h, Option.bind_eq_bind,
        Option.bind_some, numberRun]
      split
      · rw [ih hnext hshort, List.length_cons]
        congr 1
        omega
      · split
        · cases rest with
          | nil =>
            rw [if_pos (List.drop_eq_nil_iff.1 hnext), ih hnext hshort]
            rfl
          | cons sign rest =>
            rw [if_neg (Nat.not_le.2 (lt_of_drop hnext)), getElem?_of_drop hnext,
              Option.bind_some, numberRun_sign]
            split
            · rw [ih (drop_succ hnext) (Nat.lt_of_succ_lt hshort), List.length_cons,
                List.length_cons]
              congr 1
              omega
            · rw [ih hnext hshort, List.length_cons]
              congr 1
              omega
        · rfl

theorem length_lt_of_drop (h : chars.drop pos = rest) : rest.length < chars.length + 1 := by
  rw [← h, List.length_drop]
  omega

theorem numberText_prefix (cs : List Char) : numberText cs <+: cs := by
  have hrun (cs : List Char) : numberRun false cs <+: cs := by
    obtain ⟨behind, hcs, -⟩ := numberRun_spec '0' cs
    exact ⟨behind, hcs.symm⟩
  unfold numberText
  split
  · exact List.cons_prefix_cons.2 ⟨rfl, hrun _⟩
  · exact hrun _

theorem readNumber_eq (h : chars.drop pos = c :: rest) :
    readNumber chars pos = Checked.of ((Literal.readNumber (c :: rest)).behind pos) := by
  have hstop : skipNumber chars (chars.length + 1) (if c = '-' then pos + 1 else pos) =
      some (pos + (numberText (c :: rest)).length) := by
    by_cases hminus : c = '-'
    · subst hminus
      have hnext := drop_succ h
      rw [if_pos rfl, skipNumber_eq hnext (length_lt_of_drop hnext), numberText, List.length_cons]
      congr 1
      omega
    · have htext : numberText (c :: rest) = numberRun false (c :: rest) := by
        unfold numberText
        split
        · next heq => exact absurd (List.cons.inj heq).1 hminus
        · rfl
      rw [if_neg hminus, skipNumber_eq h (length_lt_of_drop h), htext]
  have hslice := slice?_of_prefix (Nat.le_of_lt (lt_of_drop h))
    (h ▸ numberText_prefix (c :: rest) : numberText (c :: rest) <+: chars.drop pos)
  rw [readNumber, getElem?_of_drop h, Checked.access_some_bind, hstop, Checked.access_some_bind,
    hslice, Checked.access_some_bind, Literal.readNumber]
  cases number? (numberText (c :: rest)) <;> rfl

theorem textFrom_eq {quote : Char} {start : Nat} (skipped : Nat) (read : List Char)
    (hpos : pos = start + skipped) (h : chars.drop pos = rest) (hfuel : rest.length < fuel) :
    textFrom chars quote fuel pos read =
      Checked.of (((textBody quote skipped rest).map fun found =>
        (read ++ found.1, start + found.2)).mapError (Error.behind start)) := by
  induction fuel generalizing pos rest skipped read with
  | zero => exact absurd hfuel (Nat.not_lt_zero _)
  | succ fuel ih =>
    rw [textFrom]
    cases rest with
    | nil =>
      rw [if_pos (List.drop_eq_nil_iff.1 h), textBody, hpos]
      rfl
    | cons c rest =>
      have hnext := drop_succ h
      have hshort := Nat.lt_of_succ_lt_succ hfuel
      rw [if_neg (Nat.not_le.2 (lt_of_drop h)), getElem?_of_drop h, Checked.access_some_bind,
        textBody.eq_def]
      dsimp only
      split
      · subst hpos
        show Checked.of (.ok (read, start + skipped + 1)) = Checked.of (.ok (read ++ [], _))
        rw [List.append_nil, Nat.add_assoc]
      · split
        · cases rest with
          | nil =>
            rw [if_pos (List.drop_eq_nil_iff.1 hnext), hpos]
            rfl
          | cons escaped rest =>
            rw [if_neg (Nat.not_le.2 (lt_of_drop hnext)), getElem?_of_drop hnext,
              Checked.access_some_bind, ih (skipped + 2) _ (by omega) (drop_succ hnext)
                (Nat.lt_of_succ_lt hshort)]
            dsimp only
            cases textBody quote (skipped + 2) rest with
            | error e => rfl
            | ok found =>
              show Checked.of (.ok (read ++ unescape escaped ++ found.1, _)) =
                Checked.of (.ok (read ++ (unescape escaped ++ found.1), _))
              rw [List.append_assoc]
        · rw [ih (skipped + 1) _ (by omega) hnext hshort]
          cases textBody quote (skipped + 1) rest with
          | error e => rfl
          | ok found =>
            show Checked.of (.ok (read ++ [c] ++ found.1, _)) =
              Checked.of (.ok (read ++ (c :: found.1), _))
            rw [List.append_assoc, List.singleton_append]

theorem readText_eq (h : chars.drop pos = c :: rest) :
    readText chars pos = Checked.of ((Literal.readText c rest).behind pos) := by
  have hnext := drop_succ h
  rw [readText, getElem?_of_drop h, Checked.access_some_bind,
    textFrom_eq 1 [] rfl hnext (length_lt_of_drop hnext), Literal.readText]
  cases textBody c 1 rest with
  | error e => rfl
  | ok found => rfl

theorem readWord_eq (h : chars.drop pos = rest) (hpos : pos ≤ chars.length) :
    readWord chars pos = Checked.of ((Literal.readWord rest).behind pos) := by
  have hslice := slice?_of_prefix hpos
    (h ▸ List.takeWhile_prefix isWordPart : rest.takeWhile isWordPart <+: chars.drop pos)
  rw [readWord, skipWhile_eq h (length_lt_of_drop h), Checked.access_some_bind, hslice,
    Checked.access_some_bind, Literal.readWord, String.length_ofList]
  cases constants.lookup (String.ofList (rest.takeWhile isWordPart)) <;> rfl

theorem startsNumber_eq (h : chars.drop pos = c :: rest) :
    startsNumber chars c pos = Literal.startsNumber (c :: rest) := by
  rw [startsNumber]
  by_cases hminus : c = '-'
  · subst hminus
    have hnext := drop_succ h
    cases rest with
    | nil =>
      rw [List.getElem?_eq_none (List.drop_eq_nil_iff.1 hnext)]
      rfl
    | cons d rest =>
      rw [getElem?_of_drop hnext]
      rfl
  · rw [startsNumber_cons hminus, beq_false_of_ne hminus, Bool.false_and, Bool.or_false]

theorem readToken_eq (h : chars.drop pos = c :: rest) :
    readToken chars pos = Checked.of ((Literal.readToken c rest).behind pos) := by
  rw [readToken, if_neg (Nat.not_le.2 (lt_of_drop h)), getElem?_of_drop h,
    Checked.access_some_bind, startsNumber_eq h, Literal.readToken]
  split
  · exact readNumber_eq h
  · split
    · exact readText_eq h
    · split
      · exact readWord_eq h (Nat.le_of_lt (lt_of_drop h))
      · cases punctuation.lookup c <;> rfl

/-- Blanks only move the position on. -/
theorem tokensFrom_blanks (cs : List Char) (pos : Nat) : Literal.tokensFrom 0 pos cs =
    Literal.tokensFrom 0 (pos + (cs.takeWhile Text.isBlank).length)
      (cs.dropWhile Text.isBlank) := by
  induction cs generalizing pos with
  | nil => rfl
  | cons c cs ih =>
    by_cases hblank : Text.isBlank c
    · rw [Literal.tokensFrom, if_pos hblank, List.takeWhile_cons_of_pos hblank,
        List.dropWhile_cons_of_pos hblank, ih, List.length_cons]
      congr 1
      omega
    · rw [List.takeWhile_cons_of_neg hblank, List.dropWhile_cons_of_neg hblank]
      rfl

theorem drop_blanks (h : chars.drop pos = rest) :
    chars.drop (pos + (rest.takeWhile Text.isBlank).length) = rest.dropWhile Text.isBlank := by
  have hsplit := List.takeWhile_append_dropWhile (p := Text.isBlank) (l := rest)
  have hleft : (rest.takeWhile Text.isBlank ++ rest.dropWhile Text.isBlank).drop
      (rest.takeWhile Text.isBlank).length = rest.dropWhile Text.isBlank := List.drop_left
  rwa [hsplit, ← h, List.drop_drop, h] at hleft

/-- A token that is read takes characters away, and it is not the last one. -/
theorem readToken_shape {cs : List Char} {token : Token} {n : Nat}
    (h : Literal.readToken c cs = .ok (token, n)) :
    token ≠ .stop ∧ ∃ text behind, n = text.length + 1 ∧ cs = text ++ behind := by
  obtain ⟨text, behind, htext, rfl, hspells⟩ := spells_of_readToken h
  obtain ⟨d, text, rfl⟩ := List.exists_cons_of_ne_nil hspells.ne_nil
  exact ⟨hspells.ne_stop, text, behind, rfl, (List.cons.inj htext).2⟩

theorem tokensFrom_eq (read : List (Token × Nat)) (h : chars.drop pos = rest)
    (hfuel : rest.length < fuel) : tokensFrom chars fuel pos read =
      Checked.of ((Literal.tokensFrom 0 pos rest).map (read ++ ·)) := by
  induction fuel generalizing pos rest read with
  | zero => exact absurd hfuel (Nat.not_lt_zero _)
  | succ fuel ih =>
    have hstart := drop_blanks h
    have hle : (rest.dropWhile Text.isBlank).length ≤ rest.length :=
      (List.dropWhile_suffix _).length_le
    have hvisible (c : Char) (hc : c ∈ (rest.dropWhile Text.isBlank).head?) :
        ¬Text.isBlank c := by
      have hhead := List.head?_dropWhile_not Text.isBlank rest
      rw [Option.mem_def.1 hc] at hhead
      exact Bool.eq_false_iff.1 hhead
    rw [tokensFrom, skipWhile_eq h (length_lt_of_drop h), Checked.access_some_bind,
      tokensFrom_blanks]
    generalize pos + (rest.takeWhile Text.isBlank).length = start at hstart ⊢
    generalize rest.dropWhile Text.isBlank = behind at hstart hle hvisible ⊢
    cases behind with
    | nil =>
      rw [readToken, if_pos (List.drop_eq_nil_iff.1 hstart)]
      rfl
    | cons c cs =>
      rw [readToken_eq hstart, Literal.tokensFrom, if_neg (hvisible c rfl)]
      cases hread : Literal.readToken c cs with
      | error e => rfl
      | ok found =>
        obtain ⟨token, n⟩ := found
        obtain ⟨hstop, text, behind, rfl, rfl⟩ := readToken_shape hread
        have hbehind : chars.drop (start + (text.length + 1)) = behind := by
          rw [← List.drop_drop, hstart, List.drop_succ_cons, List.drop_left]
        have hshort : behind.length < fuel := by
          rw [List.length_cons, List.length_append] at hle
          omega
        show (if token = .stop then _ else tokensFrom chars fuel (start + (text.length + 1))
          (read ++ [(token, start)])) = _
        rw [if_neg hstop, ih _ hbehind hshort]
        dsimp only
        rw [Nat.add_sub_cancel, tokensFrom_append, Nat.add_right_comm start 1,
          Nat.add_assoc start]
        cases Literal.tokensFrom 0 (start + (text.length + 1)) behind with
        | error e => rfl
        | ok others =>
          show Checked.of (.ok (read ++ [(token, start)] ++ others)) =
            Checked.of (.ok (read ++ ((token, start) :: others)))
          rw [List.append_assoc, List.singleton_append]

theorem tokens_eq (chars : List Char) : tokens chars = Checked.of (Literal.tokens chars) := by
  rw [tokens, tokensFrom_eq [] List.drop_zero (Nat.lt_succ_self _), Literal.tokens]
  cases Literal.tokensFrom 0 0 chars <;> rfl

end Checked

end Stencil.Literal
