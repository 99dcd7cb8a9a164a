import Stencil.Proofs.Bounds.Parser
import Stencil.Proofs.Literal.Halting

/-! Texts that lex and are no literals. They are refused at the first token that no literal goes on
with, and the error names this token. It shows where the token starts, but where a value is expected
the reader has gone past the token by then, so the error shows where the one behind it starts. -/

namespace Stencil.Literal

open Input (Pending)

variable {L L' Item : List Token → Prop} {close token found : Token} {ts : List Token}
  {input rest front : Input} {e : Error} {fault : Fault} {α : Type}

/-! What an error says about the input. -/

/-- The token that a reader of values quotes as found. -/
def Fault.found? : Fault → Option Token
  | expectedValue found | expectedToken _ found | keyNotText found | trailing found => some found
  | _ => none

theorem Error.message_of_found? {e : Error} (h : e.fault.found? = some found) :
    ∃ words, e.message = words ++ found.describe := by
  obtain ⟨fault, position⟩ := e
  have hfault : ∃ words, fault.message = words ++ found.describe := by
    cases fault with
    | expectedValue t => exact ⟨"Expected a value, found ", Option.some.inj h ▸ rfl⟩
    | expectedToken wanted t =>
      exact ⟨"Expected " ++ wanted.describe ++ ", found ", Option.some.inj h ▸ rfl⟩
    | keyNotText t => exact ⟨"Mapping keys must be strings, found ", Option.some.inj h ▸ rfl⟩
    | trailing t => exact ⟨"Unexpected trailing ", Option.some.inj h ▸ rfl⟩
    | _ => cases h
  obtain ⟨words, hwords⟩ := hfault
  refine ⟨"Not a literal at position " ++ toString position ++ ": " ++ words, ?_⟩
  unfold Error.message
  simp only [hwords, String.append_assoc]

/-- An error about the token `found` that starts at `start` with `left` behind it. Where a value is
expected it shows at the first token of `left`, if there is one. -/
structure Error.About (e : Error) (found : Token) (start : Nat) (left : Input) : Prop where
  found? : e.fault.found? = some found
  position : e.position =
    if e.fault = .expectedValue found then left.head?.elim start (·.2) else start

/-- The input is refused at the first token that nothing of `L` goes on with. -/
def Refuses (L : List Token → Prop) (input : Input) (e : Error) : Prop :=
  ∃ front found start left, input = front ++ (found, start) :: left ∧
    Halts L (front.map (·.1)) found ∧ e.About found start left

theorem Refuses.lift (h : Refuses L' rest e) (hinput : input = front ++ rest)
    (hhalts : ∀ {used found}, Halts L' used found → Halts L (front.map (·.1) ++ used) found) :
    Refuses L input e := by
  obtain ⟨front', found, start, left, rfl, hfront, habout⟩ := h
  refine ⟨front ++ front', found, start, left, ?_, ?_, habout⟩
  · rw [hinput, List.append_assoc]
  · rw [List.map_append]
    exact hhalts hfront

theorem Refuses.of_fail (h : (rest.fail fault : Except Error α) = .error e) (hp : Pending rest ts)
    (hinput : input = front ++ rest) (hfound : fault.found? = some rest.peek)
    (hvalue : fault ≠ .expectedValue rest.peek) (hhalts : Halts L (front.map (·.1)) rest.peek) :
    Refuses L input e := by
  cases rest with
  | nil => exact absurd hp.map_fst (by simp)
  | cons first left =>
    obtain ⟨found, start⟩ := first
    obtain rfl := Except.error.inj h
    exact ⟨front, found, start, left, hinput, hhalts, hfound, (if_neg hvalue).symm⟩

theorem Refuses.of_fail_value
    (h : (input.next.fail (.expectedValue input.peek) : Except Error α) = .error e)
    (hp : Pending input ts) (hhalts : Halts L [] input.peek) : Refuses L input e := by
  cases input with
  | nil => exact absurd hp.map_fst (by simp)
  | cons first left =>
    obtain ⟨found, start⟩ := first
    obtain rfl := Except.error.inj h
    refine ⟨[], found, start, left, rfl, hhalts, rfl, ?_⟩
    dsimp only
    rw [if_pos (by rfl)]
    cases left <;> rfl

theorem Refuses.of_expect (h : expect token rest = .error e) (hp : Pending rest ts)
    (hinput : input = front ++ rest)
    (hhalts : rest.peek ≠ token → Halts L (front.map (·.1)) rest.peek) : Refuses L input e := by
  unfold expect at h
  split at h
  · cases h
  · next hpeek => exact .of_fail h hp hinput rfl (by simp) (hhalts hpeek)

theorem Refuses.first_item (h : Refuses Item input e) (sep : Separable Item close)
    (hpeek : input.peek ≠ close) : Refuses (Rows Item close) input e := by
  obtain ⟨front, found, start, left, rfl, hhalts, habout⟩ := h
  refine ⟨front, found, start, left, rfl, hhalts.first_item sep fun hfront => ?_, habout⟩
  rwa [List.map_eq_nil_iff.1 hfront] at hpeek

theorem Refuses.behind_comma {start : Nat} (h : Refuses (Rows Item close) rest e)
    (sep : Separable Item close) (item : Item (front.map (·.1)))
    (hinput : input = front ++ ([(.comma, start)] ++ rest)) :
    Refuses (Rows Item close) input e := by
  rw [← List.append_assoc] at hinput
  refine h.lift hinput fun hhalts => ?_
  rw [List.map_append, List.append_assoc]
  exact hhalts.behind_comma sep item

/-! What the readers of one token leave. -/

theorem expect_eq_ok (h : expect token input = .ok rest) :
    input.peek = token ∧ rest = input.next := by
  unfold expect at h
  split at h
  · next hpeek => exact ⟨hpeek, (Except.ok.inj h).symm⟩
  · cases h

theorem skipComma_eq_some (h : skipComma input = some rest) :
    input.peek = .comma ∧ rest = input.next := by
  unfold skipComma at h
  split at h
  · next hpeek => exact ⟨hpeek, (Option.some.inj h).symm⟩
  · cases h

theorem skipComma_eq_none (h : skipComma input = none) : input.peek ≠ .comma := by
  unfold skipComma at h
  split at h
  · cases h
  · assumption

theorem Input.Pending.uncons (hp : Pending input ts) (hpeek : input.peek = token)
    (htoken : token ≠ .stop) : ∃ start left, ts = token :: left ∧
      input = [(token, start)] ++ input.next ∧ Pending input.next left := by
  obtain ⟨left, rfl, hleft⟩ := hp.of_peek hpeek htoken
  cases input with
  | nil => exact absurd hp.map_fst (by simp)
  | cons first rest =>
    obtain ⟨t, start⟩ := first
    obtain rfl : t = token := hpeek
    cases rest with
    | nil => exact absurd (congrArg List.length hp.map_fst) (by simp)
    | cons second rest => exact ⟨start, left, rfl, rfl, hleft⟩

/-- What a value takes stands in front of what it leaves. -/
theorem value_reads {fuel : Nat} {v : Value} (h : value fuel input = .ok (v, rest))
    (hp : Pending input ts) (hfuel : 2 * ts.length + 2 ≤ fuel) :
    ∃ front left, input = front ++ rest ∧ IsLiteral (front.map (·.1)) ∧ Pending rest left ∧
      left.length ≤ ts.length := by
  obtain ⟨used, left, rfl, hused, hleft⟩ := value_sound fuel h hp
  -- The grammar knows of tokens only. That the rest is a rest of the input, positions and all, is
  -- what the reader by positions says.
  have hends : Checked.Ends input := by
    obtain ⟨front, last, rfl, -, hlast⟩ := List.map_eq_append_iff.1 hp.map_fst
    obtain ⟨⟨t, start⟩, rfl, rfl⟩ := List.map_eq_singleton_iff.1 hlast
    exact ⟨front, start, rfl⟩
  have hlength := congrArg List.length hp.map_fst
  rw [List.length_map, List.length_append, List.length_singleton] at hlength
  have hfollows := Checked.value_follows hends fuel 0 (by omega) (by omega)
  rw [List.drop_zero, h] at hfollows
  obtain ⟨pos, -, rfl, -, -⟩ := hfollows
  refine ⟨input.take pos, left, (List.take_append_drop pos input).symm, ⟨v, ?_⟩, hleft, by simp⟩
  have hmap := hp.map_fst
  rw [← List.take_append_drop pos input, List.map_append, hleft.map_fst, List.append_assoc] at hmap
  rwa [List.append_cancel_right hmap]

/-- Behind a part a reader asks for a comma, with more rows behind it, or for what closes them. -/
theorem Refuses.behind_item (sep : Separable Item close) (item : Item (front.map (·.1)))
    (hinput : input = front ++ rest) (hp : Pending rest ts)
    (hmore : ∀ {us : List Token}, us.length < ts.length → Pending rest.next us →
      skipComma rest = some rest.next → Refuses (Rows Item close) rest.next e)
    (hlast : skipComma rest = none → expect close rest = .error e) :
    Refuses (Rows Item close) input e := by
  cases hcomma : skipComma rest with
  | some after =>
    obtain ⟨hpeek, rfl⟩ := skipComma_eq_some hcomma
    obtain ⟨start, left, rfl, hrest, hleft⟩ := hp.uncons hpeek (by decide)
    exact (hmore (Nat.lt_succ_self _) hleft hcomma).behind_comma sep item
      (hinput.trans (congrArg (front ++ ·) hrest))
  | none =>
    exact .of_expect (hlast hcomma) hp hinput
      (.behind_item sep item (skipComma_eq_none hcomma))

/-! The readers, on their fuel. It is enough for what they read as long as it is twice the number of
tokens and two more, or three behind an opening token. -/

mutual

theorem value_refuses : (fuel : Nat) → {input : Input} → {ts : List Token} → {e : Error} →
    value fuel input = .error e → Pending input ts → 2 * ts.length + 2 ≤ fuel →
      Refuses IsLiteral input e
  | 0, _, _, _, _, _, hfuel => absurd hfuel (by omega)
  | fuel + 1, input, ts, e, h, hp, hfuel => by
    rw [value] at h
    dsimp only at h
    split at h
    · next hpeek =>
      obtain ⟨start, left, rfl, hinput, hleft⟩ := hp.uncons hpeek (by decide)
      rw [List.length_cons] at hfuel
      rcases bind_eq_error h with hitems | ⟨_, _, hrest⟩
      · exact (items_refuses fuel hitems hleft (by omega) (.inl rfl)).lift hinput
          (Halts.literal .openBracket)
      · cases hrest
    · next hpeek =>
      obtain ⟨start, left, rfl, hinput, hleft⟩ := hp.uncons hpeek (by decide)
      rw [List.length_cons] at hfuel
      exact (parenthesized_refuses fuel h hleft (by omega)).lift hinput
        (Halts.literal .openParen)
    · next hpeek =>
      obtain ⟨start, left, rfl, hinput, hleft⟩ := hp.uncons hpeek (by decide)
      rw [List.length_cons] at hfuel
      rcases bind_eq_error h with hentries | ⟨_, _, hrest⟩
      · exact (entries_refuses fuel hentries hleft (by omega)).lift hinput
          (Halts.literal .openBrace)
      · cases hrest
    · next hbracket hparen hbrace =>
      split at h
      · cases h
      · next hvalue =>
        exact .of_fail_value h hp (.no_value fun _ => not_behind hvalue hbracket hparen hbrace)

theorem items_refuses : (fuel : Nat) → {close : Token} → {input : Input} → {ts : List Token} →
    {e : Error} → items close fuel input = .error e → Pending input ts →
      2 * ts.length + 3 ≤ fuel → close = .closeBracket ∨ close = .closeParen →
        Refuses (Rows IsLiteral close) input e
  | 0, _, _, _, _, _, _, hfuel, _ => absurd hfuel (by omega)
  | fuel + 1, close, input, ts, e, h, hp, hfuel, hclose => by
    have hsep := separable_isLiteral hclose
    rw [items] at h
    split at h
    · cases h
    · next hpeek =>
      rcases bind_eq_error h with hvalue | ⟨⟨v, rest⟩, hvalue, htail⟩
      · exact (value_refuses fuel hvalue hp (by omega)).first_item hsep hpeek
      · obtain ⟨front, left, rfl, hitem, hleft, hlength⟩ := value_reads hvalue hp (by omega)
        refine .behind_item hsep hitem rfl hleft (fun hlt hafter hcomma => ?_) fun hcomma => ?_
        · dsimp only at htail
          rw [hcomma] at htail
          rcases bind_eq_error htail with hothers | ⟨_, _, hdone⟩
          · exact items_refuses fuel hothers hafter (by omega) hclose
          · cases hdone
        · dsimp only at htail
          rw [hcomma] at htail
          rcases bind_eq_error htail with hexpect | ⟨_, _, hdone⟩
          · exact hexpect
          · cases hdone

theorem parenthesized_refuses : (fuel : Nat) → {input : Input} → {ts : List Token} →
    {e : Error} → parenthesized fuel input = .error e → Pending input ts →
      2 * ts.length + 3 ≤ fuel → Refuses (Rows IsLiteral .closeParen) input e
  | 0, _, _, _, _, _, hfuel => absurd hfuel (by omega)
  | fuel + 1, input, ts, e, h, hp, hfuel => by
    have hsep : Separable IsLiteral .closeParen := separable_isLiteral (.inr rfl)
    rw [parenthesized] at h
    split at h
    · cases h
    · next hpeek =>
      rcases bind_eq_error h with hvalue | ⟨⟨v, rest⟩, hvalue, htail⟩
      · exact (value_refuses fuel hvalue hp (by omega)).first_item hsep hpeek
      · obtain ⟨front, left, rfl, hitem, hleft, hlength⟩ := value_reads hvalue hp (by omega)
        dsimp only at htail
        split at htail
        · cases htail
        · next hclose =>
          rcases bind_eq_error htail with hexpect | ⟨after, hexpect, htail⟩
          · exact .of_expect hexpect hleft rfl fun hcomma =>
              .behind_item hsep hitem hcomma hclose
          · obtain ⟨hpeek, rfl⟩ := expect_eq_ok hexpect
            obtain ⟨start, left, rfl, hrest, hafter⟩ := hleft.uncons hpeek (by decide)
            rw [List.length_cons] at hlength
            rcases bind_eq_error htail with hothers | ⟨_, _, hdone⟩
            · exact (items_refuses fuel hothers hafter (by omega) (.inr rfl)).behind_comma hsep
                hitem (congrArg (front ++ ·) hrest)
            · cases hdone

theorem entries_refuses : (fuel : Nat) → {input : Input} → {ts : List Token} → {e : Error} →
    entries fuel input = .error e → Pending input ts → 2 * ts.length + 3 ≤ fuel →
      Refuses (Rows IsEntry .closeBrace) input e
  | 0, _, _, _, _, _, hfuel => absurd hfuel (by omega)
  | fuel + 1, input, ts, e, h, hp, hfuel => by
    rw [entries] at h
    split at h
    · cases h
    · next hclose =>
      split at h
      · next key hkey =>
        obtain ⟨keyStart, left, rfl, hinput, hleft⟩ := hp.uncons hkey (by simp)
        rw [List.length_cons] at hfuel
        rcases bind_eq_error h with hexpect | ⟨after, hexpect, h⟩
        · have hentry : Refuses IsEntry input e :=
            .of_expect hexpect hleft hinput .no_colon
          exact hentry.first_item separable_isEntry hclose
        · obtain ⟨hpeek, rfl⟩ := expect_eq_ok hexpect
          obtain ⟨colonStart, left, rfl, hcolon, hleft⟩ := hleft.uncons hpeek (by decide)
          rw [List.length_cons] at hfuel
          -- From here on the key and the colon are in front of all that is read.
          have hinput : input = [(.str key, keyStart), (.colon, colonStart)] ++ input.next.next :=
            hinput.trans (congrArg (_ :: ·) hcolon)
          rcases bind_eq_error h with hvalue | ⟨⟨v, rest⟩, hvalue, htail⟩
          · have hentry : Refuses IsEntry input e :=
              (value_refuses fuel hvalue hleft (by omega)).lift hinput .entry
            exact hentry.first_item separable_isEntry hclose
          · obtain ⟨front, left, hnext, hitem, hleft, hlength⟩ :=
              value_reads hvalue hleft (by omega)
            rw [hnext, ← List.append_assoc] at hinput
            have hitem : IsEntry (([(Token.str key, keyStart), (Token.colon, colonStart)] ++
                front).map (·.1)) := ⟨key, front.map (·.1), rfl, hitem⟩
            refine .behind_item separable_isEntry hitem hinput hleft
              (fun hlt hafter hcomma => ?_) fun hcomma => ?_
            · dsimp only at htail
              rw [hcomma] at htail
              rcases bind_eq_error htail with hothers | ⟨_, _, hdone⟩
              · exact entries_refuses fuel hothers hafter (by omega)
              · cases hdone
            · dsimp only at htail
              rw [hcomma] at htail
              rcases bind_eq_error htail with hexpect | ⟨_, _, hdone⟩
              · exact hexpect
              · cases hdone
      · next hkey =>
        have hentry : Refuses IsEntry input e :=
          .of_fail h hp (List.nil_append input).symm rfl (by simp) (.no_key hkey)
        exact hentry.first_item separable_isEntry hclose

end

/-! Whole texts. -/

theorem parse_refuses_complete {source : String} (hinput : tokens source.toList = .ok input)
    (h : parse source = .error e) : Refuses Complete input e := by
  obtain ⟨ts, hlexes, hmap⟩ := lexes_of_tokens hinput
  have hp : Pending input ts := ⟨hmap, hlexes.stop_notMem⟩
  have hlength := congrArg List.length hmap
  rw [List.length_map, List.length_append, List.length_singleton] at hlength
  rw [parse, hinput, ok_bind] at h
  rcases bind_eq_error h with hvalue | ⟨⟨v, rest⟩, hvalue, htail⟩
  · exact (value_refuses _ hvalue hp (by omega)).lift (List.nil_append input).symm .complete
  · obtain ⟨front, left, rfl, hliteral, hleft, -⟩ := value_reads hvalue hp (by omega)
    dsimp only at htail
    split at htail
    · cases htail
    · next hstop => exact .of_fail htail hleft rfl rfl (by simp) (.trailing hliteral hstop)

/-- The token stands in the text from the character `start` on, `stop` where the text ends. -/
def StartsAt (source : String) (start : Nat) (token : Token) : Prop :=
  start ≤ source.toList.length ∧ Opens (source.toList.drop start) token

theorem startsAt_of_mem {source : String} {start : Nat} (hinput : tokens source.toList = .ok input)
    (hmem : (token, start) ∈ input) : StartsAt source start token := by
  obtain ⟨n, hn, rfl, hopens⟩ := opens_of_tokensFrom hinput hmem
  rw [Nat.zero_add]
  exact ⟨hn, hopens⟩

/-- Only `stop` has no token behind it, and each token starts behind the one in front of it. -/
theorem left_spec {cs : List Char} {start : Nat} {left : Input}
    (hinput : tokens cs = .ok (front ++ (found, start) :: left)) :
    (left = [] ↔ found = .stop) ∧ ∀ next ∈ left.head?, start < next.2 := by
  obtain ⟨ts, hlexes, hmap⟩ := lexes_of_tokens hinput
  have hpairs := (pairwise_of_tokensFrom hinput).1
  rw [List.map_append, List.map_cons] at hmap
  refine ⟨⟨?_, ?_⟩, fun next hnext => ?_⟩
  · rintro rfl
    exact (List.append_singleton_inj.1 hmap).2
  · rintro rfl
    rcases List.eq_nil_or_concat left with hleft | ⟨middle, last, rfl⟩
    · exact hleft
    · -- With a token behind it, `stop` would be one of the tokens that are spelled.
      rw [List.concat_eq_append, List.map_append, ← List.cons_append,
        ← List.append_assoc] at hmap
      have hts := (List.append_singleton_inj.1 hmap).1
      exact absurd (hts ▸ by simp) hlexes.stop_notMem
  · exact (List.pairwise_cons.1 (List.pairwise_append.1 hpairs).2.1).1 next
      (List.mem_of_mem_head? hnext)

/-- A text that lexes and is no literal is refused at the first token that no literal goes on with,
and the error names that token. The error shows where the token starts, unless a value is expected
there: then it shows where the next token starts, which is right for the end of the text only. -/
theorem parse_refuses {source : String} {input : Input} {e : Error}
    (hinput : tokens source.toList = .ok input) (h : parse source = .error e) :
    ∃ front found start left, input = front ++ (found, start) :: left ∧
      StartsAt source start found ∧ Halts Complete (front.map (·.1)) found ∧
      e.fault.found? = some found ∧ (∃ words, e.message = words ++ found.describe) ∧
      e.position =
        (if e.fault = .expectedValue found then left.head?.elim start (·.2) else start) ∧
      (e.position = start ↔ (e.fault = .expectedValue found → found = .stop)) := by
  obtain ⟨front, found, start, left, rfl, hhalts, hfound, hposition⟩ :=
    parse_refuses_complete hinput h
  obtain ⟨hstop, hnext⟩ := left_spec hinput
  refine ⟨front, found, start, left, rfl, startsAt_of_mem hinput (by simp), hhalts, hfound,
    Error.message_of_found? hfound, hposition, ?_⟩
  rw [hposition]
  split
  · next hvalue =>
    cases left with
    | nil => exact ⟨fun _ _ => hstop.1 rfl, fun _ => rfl⟩
    | cons next left =>
      have hlt := hnext next rfl
      refine ⟨fun hshown => absurd hshown (Nat.ne_of_gt hlt), fun hfound => ?_⟩
      cases hstop.2 (hfound hvalue)
  · next hvalue => exact ⟨fun _ hshown => absurd hshown hvalue, fun _ => rfl⟩

/-- The tokens of a list with a comma too many. -/
def twoCommas : Input :=
  [(.openBracket, 0), (.int 1, 1), (.comma, 3), (.comma, 4), (.int 2, 6), (.closeBracket, 7),
    (.stop, 8)]

theorem parse_refuses_twoCommas :
    tokens "[1 ,, 2]".toList = .ok twoCommas ∧
      parse "[1 ,, 2]" = .error ⟨.expectedValue .comma, 6⟩ ∧
      ∃ front start left, twoCommas = front ++ (.comma, start) :: left ∧ start ≠ 6 ∧
        Halts Complete (front.map (·.1)) .comma ∧ left.head?.elim start (·.2) = 6 := by
  have hinput : tokens "[1 ,, 2]".toList = .ok twoCommas := by decide +kernel
  have hparse : parse "[1 ,, 2]" = .error ⟨.expectedValue .comma, 6⟩ := by
    rw [parse, hinput]
    rfl
  obtain ⟨front, found, start, left, hsplit, -, hhalts, hfound, -, hposition, hstart⟩ :=
    parse_refuses hinput hparse
  obtain rfl := Option.some.inj hfound
  rw [if_pos rfl] at hposition
  have hne : start ≠ 6 := by
    intro h
    cases hstart.1 h.symm rfl
  exact ⟨hinput, hparse, front, start, left, hsplit, hne, hhalts, hposition.symm⟩

theorem not_position_of_found :
    ¬ ∀ (source : String) (input : Input) (e : Error) (found : Token),
      tokens source.toList = .ok input → parse source = .error e → e.fault.found? = some found →
        (found, e.position) ∈ input := by
  intro h
  have hinput : tokens "]".toList = .ok [(.closeBracket, 0), (.stop, 1)] := by decide +kernel
  have hparse : parse "]" = .error ⟨.expectedValue .closeBracket, 1⟩ := by
    rw [parse, hinput]
    rfl
  exact absurd (h _ _ _ .closeBracket hinput hparse rfl) (by decide)

end Stencil.Literal
