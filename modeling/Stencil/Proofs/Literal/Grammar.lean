import Stencil.Literal.Parse
import Stencil.Proofs.Literal.Lexing

/-! The grammar of literals. A text is read as a value if and only if its tokens, all of them,
derive that value. -/

namespace Stencil

/-- A table with the entries of a list, of which the last one counts for each key. -/
structure Table.Holds {α : Type} (t : Table α) (entries : List (String × α)) : Prop where
  sorted : t.Sorted
  get? : ∀ key, t.get? key = entries.reverse.lookup key

theorem Table.holds_ofEntries {α : Type} (entries : List (String × α)) :
    (Table.ofEntries entries).Holds entries :=
  ⟨sorted_ofEntries entries, get?_ofEntries entries⟩

theorem Table.Holds.eq_ofEntries {α : Type} {t : Table α} {entries : List (String × α)}
    (h : t.Holds entries) : t = Table.ofEntries entries :=
  h.sorted.ext (sorted_ofEntries entries) fun key => (h.get? key).trans (get?_ofEntries ..).symm

namespace Literal

mutual

/-- Tokens that derive a value. One value alone in parentheses is that value. -/
inductive Derives : List Token → Value → Prop where
  | int (n : Int64) : Derives [.int n] (.int n)
  | float (x : Double) : Derives [.float x] (.float x)
  | str (s : String) : Derives [.str s] (.str s)
  | bool (b : Bool) : Derives [.bool b] (.bool b)
  | null : Derives [.null] .none
  | list {ts : List Token} {vs : List Value} (items : DerivesItems ts vs) :
    Derives (.openBracket :: ts ++ [.closeBracket]) (.list vs)
  | unit : Derives [.openParen, .closeParen] (.list [])
  | group {ts : List Token} {v : Value} (inner : Derives ts v) :
    Derives (.openParen :: ts ++ [.closeParen]) v
  | tuple {ts us : List Token} {v : Value} {vs : List Value} (first : Derives ts v)
    (others : DerivesItems us vs) :
    Derives (.openParen :: ts ++ .comma :: us ++ [.closeParen]) (.list (v :: vs))
  | map {ts : List Token} {es : List (String × Value)} {t : Table Value}
    (pairs : DerivesPairs ts es) (holds : t.Holds es) :
    Derives (.openBrace :: ts ++ [.closeBrace]) (.map t)

/-- Values with commas between them, if any, and an optional comma behind the last. -/
inductive DerivesItems : List Token → List Value → Prop where
  | none : DerivesItems [] []
  | last {ts : List Token} {v : Value} (item : Derives ts v) : DerivesItems ts [v]
  | more {ts us : List Token} {v : Value} {vs : List Value} (item : Derives ts v)
    (others : DerivesItems us vs) : DerivesItems (ts ++ .comma :: us) (v :: vs)

/-- Keys with their values and commas between, if any, and an optional comma behind the last. -/
inductive DerivesPairs : List Token → List (String × Value) → Prop where
  | none : DerivesPairs [] []
  | last {key : String} {ts : List Token} {v : Value} (item : Derives ts v) :
    DerivesPairs (.str key :: .colon :: ts) [(key, v)]
  | more {key : String} {ts us : List Token} {v : Value} {es : List (String × Value)}
    (item : Derives ts v) (others : DerivesPairs us es) :
    DerivesPairs (.str key :: .colon :: ts ++ .comma :: us) ((key, v) :: es)

end

/-! What is still to be read, as a list of tokens. -/

/-- These tokens are to be read, and then the text ends. -/
structure Input.Pending (input : Input) (ts : List Token) : Prop where
  map_fst : input.map (·.1) = ts ++ [.stop]
  stop_notMem : .stop ∉ ts

section

variable {input rest : Input} {ts : List Token} {token : Token}

namespace Input.Pending

theorem peek_nil (h : Pending input []) : input.peek = .stop := by
  cases input with
  | nil => exact nomatch h.map_fst
  | cons first input => exact (List.cons.inj h.map_fst).1

theorem peek_cons (h : Pending input (token :: ts)) : input.peek = token := by
  cases input with
  | nil => exact nomatch h.map_fst
  | cons first input => exact (List.cons.inj h.map_fst).1

theorem next_cons (h : Pending input (token :: ts)) : Pending input.next ts := by
  refine ⟨?_, fun hmem => h.stop_notMem (List.mem_cons_of_mem token hmem)⟩
  cases input with
  | nil => exact nomatch h.map_fst
  | cons first input =>
    have hrest := (List.cons.inj h.map_fst).2
    cases input with
    | nil => exact absurd (congrArg List.length hrest) (by simp)
    | cons second input => exact hrest

theorem of_peek (h : Pending input ts) (hpeek : input.peek = token) (htoken : token ≠ .stop) :
    ∃ left, ts = token :: left ∧ Pending input.next left := by
  cases ts with
  | nil => exact absurd (hpeek.symm.trans h.peek_nil) htoken
  | cons t left =>
    obtain rfl : t = token := h.peek_cons.symm.trans hpeek
    exact ⟨left, rfl, h.next_cons⟩

theorem of_expect (h : Pending input ts) (hexpect : expect token input = .ok rest)
    (htoken : token ≠ .stop) : ∃ left, ts = token :: left ∧ Pending rest left := by
  unfold expect at hexpect
  split at hexpect
  · next hpeek =>
    obtain rfl := Except.ok.inj hexpect
    exact h.of_peek hpeek htoken
  · exact nomatch hexpect

theorem of_skipComma (h : Pending input ts) (hskip : skipComma input = some rest) :
    ∃ left, ts = .comma :: left ∧ Pending rest left := by
  unfold skipComma at hskip
  split at hskip
  · next hpeek =>
    obtain rfl := Option.some.inj hskip
    exact h.of_peek hpeek nofun
  · exact nomatch hskip

theorem expect_cons (h : Pending input (token :: ts)) : expect token input = .ok input.next := by
  rw [expect, if_pos h.peek_cons]

theorem skipComma_comma (h : Pending input (.comma :: ts)) : skipComma input = some input.next := by
  rw [skipComma, if_pos h.peek_cons]

theorem skipComma_cons (h : Pending input (token :: ts)) (htoken : token ≠ .comma) :
    skipComma input = none := by
  rw [skipComma, if_neg (h.peek_cons ▸ htoken)]

end Input.Pending

end

open Input (Pending)

theorem Derives.of_value? {token : Token} {v : Value} (h : token.value? = some v) :
    Derives [token] v := by
  cases token with
  | int n => exact Option.some.inj h ▸ .int n
  | float x => exact Option.some.inj h ▸ .float x
  | str s => exact Option.some.inj h ▸ .str s
  | bool b => exact Option.some.inj h ▸ .bool b
  | null => exact Option.some.inj h ▸ .null
  | _ => exact nomatch h

theorem Token.ne_stop_of_value? {token : Token} {v : Value} (h : token.value? = some v) :
    token ≠ .stop := by
  rintro rfl
  exact nomatch h

/-! Soundness: the tokens that a reader uses up derive what it reads. The recursion is that of the
readers, on their fuel; what one reader leaves is pending for the next. -/

mutual

theorem value_sound : (fuel : Nat) → {input rest : Input} → {ts : List Token} → {v : Value} →
    value fuel input = .ok (v, rest) → Pending input ts →
      ∃ used left, ts = used ++ left ∧ Derives used v ∧ Pending rest left
  | 0, _, _, _, _, h, _ => nomatch h
  | fuel + 1, input, rest, ts, v, h, hp => by
    rw [value] at h
    dsimp only at h
    split at h
    · next hpeek =>
      obtain ⟨⟨vs, after⟩, hitems, hrest⟩ := bind_eq_ok h
      obtain ⟨rfl, rfl⟩ := Prod.mk.inj (Except.ok.inj hrest)
      obtain ⟨left, rfl, hleft⟩ := hp.of_peek hpeek nofun
      obtain ⟨used, behind, rfl, hused, hbehind⟩ := items_sound fuel hitems hleft nofun
      exact ⟨.openBracket :: used ++ [.closeBracket], behind, by simp, .list hused, hbehind⟩
    · next hpeek =>
      obtain ⟨left, rfl, hleft⟩ := hp.of_peek hpeek nofun
      obtain ⟨used, behind, rfl, hused, hbehind⟩ := parenthesized_sound fuel h hleft
      exact ⟨.openParen :: used ++ [.closeParen], behind, by simp, hused, hbehind⟩
    · next hpeek =>
      obtain ⟨⟨es, after⟩, hentries, hrest⟩ := bind_eq_ok h
      obtain ⟨rfl, rfl⟩ := Prod.mk.inj (Except.ok.inj hrest)
      obtain ⟨left, rfl, hleft⟩ := hp.of_peek hpeek nofun
      obtain ⟨used, behind, rfl, hused, hbehind⟩ := entries_sound fuel hentries hleft
      exact ⟨.openBrace :: used ++ [.closeBrace], behind, by simp,
        .map hused (Table.holds_ofEntries es), hbehind⟩
    · split at h
      · next v' hvalue =>
        obtain ⟨rfl, rfl⟩ := Prod.mk.inj (Except.ok.inj h)
        obtain ⟨left, rfl, hleft⟩ := hp.of_peek rfl (Token.ne_stop_of_value? hvalue)
        exact ⟨[input.peek], left, rfl, .of_value? hvalue, hleft⟩
      · exact nomatch h

theorem items_sound : (fuel : Nat) → {close : Token} → {input rest : Input} →
    {ts : List Token} → {vs : List Value} →
    items close fuel input = .ok (vs, rest) → Pending input ts → close ≠ .stop →
      ∃ used left, ts = used ++ close :: left ∧ DerivesItems used vs ∧ Pending rest left
  | 0, _, _, _, _, _, h, _, _ => nomatch h
  | fuel + 1, close, input, rest, ts, vs, h, hp, hclose => by
    rw [items] at h
    split at h
    · next hpeek =>
      obtain ⟨rfl, rfl⟩ := Prod.mk.inj (Except.ok.inj h)
      obtain ⟨left, rfl, hleft⟩ := hp.of_peek hpeek hclose
      exact ⟨[], left, rfl, .none, hleft⟩
    · obtain ⟨⟨v, after⟩, hvalue, h⟩ := bind_eq_ok h
      obtain ⟨first, left, rfl, hfirst, hleft⟩ := value_sound fuel hvalue hp
      dsimp only at h
      split at h
      · next comma hcomma =>
        obtain ⟨⟨others, last⟩, hothers, hrest⟩ := bind_eq_ok h
        obtain ⟨rfl, rfl⟩ := Prod.mk.inj (Except.ok.inj hrest)
        obtain ⟨after, rfl, hafter⟩ := hleft.of_skipComma hcomma
        obtain ⟨used, behind, rfl, hused, hbehind⟩ := items_sound fuel hothers hafter hclose
        exact ⟨first ++ .comma :: used, behind, by simp, .more hfirst hused, hbehind⟩
      · obtain ⟨last, hexpect, hrest⟩ := bind_eq_ok h
        obtain ⟨rfl, rfl⟩ := Prod.mk.inj (Except.ok.inj hrest)
        obtain ⟨behind, rfl, hbehind⟩ := hleft.of_expect hexpect hclose
        exact ⟨first, behind, rfl, .last hfirst, hbehind⟩

theorem parenthesized_sound : (fuel : Nat) → {input rest : Input} → {ts : List Token} →
    {v : Value} → parenthesized fuel input = .ok (v, rest) → Pending input ts →
      ∃ used left, ts = used ++ .closeParen :: left ∧
        Derives (.openParen :: used ++ [.closeParen]) v ∧ Pending rest left
  | 0, _, _, _, _, h, _ => nomatch h
  | fuel + 1, input, rest, ts, v, h, hp => by
    rw [parenthesized] at h
    split at h
    · next hpeek =>
      obtain ⟨rfl, rfl⟩ := Prod.mk.inj (Except.ok.inj h)
      obtain ⟨left, rfl, hleft⟩ := hp.of_peek hpeek nofun
      exact ⟨[], left, rfl, .unit, hleft⟩
    · obtain ⟨⟨first, after⟩, hvalue, h⟩ := bind_eq_ok h
      obtain ⟨used, left, rfl, hused, hleft⟩ := value_sound fuel hvalue hp
      dsimp only at h
      split at h
      · next hpeek =>
        obtain ⟨rfl, rfl⟩ := Prod.mk.inj (Except.ok.inj h)
        obtain ⟨behind, rfl, hbehind⟩ := hleft.of_peek hpeek nofun
        exact ⟨used, behind, rfl, .group hused, hbehind⟩
      · obtain ⟨comma, hexpect, h⟩ := bind_eq_ok h
        obtain ⟨⟨others, last⟩, hothers, hrest⟩ := bind_eq_ok h
        obtain ⟨rfl, rfl⟩ := Prod.mk.inj (Except.ok.inj hrest)
        obtain ⟨after, rfl, hafter⟩ := hleft.of_expect hexpect nofun
        obtain ⟨more, behind, rfl, hmore, hbehind⟩ := items_sound fuel hothers hafter nofun
        exact ⟨used ++ .comma :: more, behind, by simp, .tuple hused hmore, hbehind⟩

theorem entries_sound : (fuel : Nat) → {input rest : Input} → {ts : List Token} →
    {es : List (String × Value)} → entries fuel input = .ok (es, rest) → Pending input ts →
      ∃ used left, ts = used ++ .closeBrace :: left ∧ DerivesPairs used es ∧ Pending rest left
  | 0, _, _, _, _, h, _ => nomatch h
  | fuel + 1, input, rest, ts, es, h, hp => by
    rw [entries] at h
    split at h
    · next hpeek =>
      obtain ⟨rfl, rfl⟩ := Prod.mk.inj (Except.ok.inj h)
      obtain ⟨left, rfl, hleft⟩ := hp.of_peek hpeek nofun
      exact ⟨[], left, rfl, .none, hleft⟩
    · split at h
      · next key hpeek =>
        obtain ⟨left, rfl, hleft⟩ := hp.of_peek hpeek nofun
        obtain ⟨colon, hexpect, h⟩ := bind_eq_ok h
        obtain ⟨written, rfl, hwritten⟩ := hleft.of_expect hexpect nofun
        obtain ⟨⟨v, after⟩, hvalue, h⟩ := bind_eq_ok h
        obtain ⟨first, left, rfl, hfirst, hleft⟩ := value_sound fuel hvalue hwritten
        dsimp only at h
        split at h
        · next comma hcomma =>
          obtain ⟨⟨others, last⟩, hothers, hrest⟩ := bind_eq_ok h
          obtain ⟨rfl, rfl⟩ := Prod.mk.inj (Except.ok.inj hrest)
          obtain ⟨after, rfl, hafter⟩ := hleft.of_skipComma hcomma
          obtain ⟨used, behind, rfl, hused, hbehind⟩ := entries_sound fuel hothers hafter
          exact ⟨.str key :: .colon :: first ++ .comma :: used, behind, by simp,
            .more hfirst hused, hbehind⟩
        · obtain ⟨last, hexpect, hrest⟩ := bind_eq_ok h
          obtain ⟨rfl, rfl⟩ := Prod.mk.inj (Except.ok.inj hrest)
          obtain ⟨behind, rfl, hbehind⟩ := hleft.of_expect hexpect nofun
          exact ⟨.str key :: .colon :: first, behind, rfl, .last hfirst, hbehind⟩
      · exact nomatch h

end

/-! Completeness: what some tokens derive is read from them, with two units of fuel for each token,
whatever stands behind them. The recursion is on the derivation. -/

theorem Derives.head_ne {used : List Token} {v : Value} {close : Token} (h : Derives used v)
    (hclose : close = .closeBracket ∨ close = .closeParen) :
    ∃ token ts, used = token :: ts ∧ token ≠ close := by
  rcases hclose with rfl | rfl <;> cases h <;> exact ⟨_, _, rfl, nofun⟩

section

variable {input : Input} {used left : List Token} {close : Token} {v : Value}

theorem token_complete {token : Token} {fuel : Nat} (h : token.value? = some v) (hfuel : 2 ≤ fuel)
    (hp : Pending input (token :: left)) :
    ∃ rest, value fuel input = .ok (v, rest) ∧ Pending rest left := by
  obtain ⟨fuel, rfl⟩ := Nat.exists_eq_add_of_le' hfuel
  refine ⟨input.next, ?_, hp.next_cons⟩
  rw [value, hp.peek_cons]
  dsimp only
  split
  · exact nomatch h
  · exact nomatch h
  · exact nomatch h
  · rw [h]

theorem Derives.peek_ne (h : Derives used v) (hp : Pending input (used ++ left))
    (hclose : close = .closeBracket ∨ close = .closeParen) : input.peek ≠ close := by
  obtain ⟨token, ts, rfl, htoken⟩ := h.head_ne hclose
  exact hp.peek_cons ▸ htoken

end

mutual

theorem value_complete : {used : List Token} → {v : Value} → Derives used v →
    ∀ (fuel : Nat) {input : Input} {left : List Token}, 2 * used.length ≤ fuel →
      Pending input (used ++ left) → ∃ rest, value fuel input = .ok (v, rest) ∧ Pending rest left
  | _, _, .int n, _, _, _, hfuel, hp => token_complete rfl hfuel hp
  | _, _, .float x, _, _, _, hfuel, hp => token_complete rfl hfuel hp
  | _, _, .str s, _, _, _, hfuel, hp => token_complete rfl hfuel hp
  | _, _, .bool b, _, _, _, hfuel, hp => token_complete rfl hfuel hp
  | _, _, .null, _, _, _, hfuel, hp => token_complete rfl hfuel hp
  | _, _, @Derives.list ts vs hitems, fuel, input, left, hfuel, hp => by
    simp only [List.length_append, List.length_cons, List.length_nil] at hfuel
    obtain ⟨fuel, rfl⟩ : ∃ m, fuel = m + 1 := ⟨fuel - 1, by omega⟩
    have hp : Pending input (.openBracket :: (ts ++ .closeBracket :: left)) := by simpa using hp
    obtain ⟨rest, hread, hrest⟩ := items_complete hitems fuel (by omega) hp.next_cons (.inl rfl)
    refine ⟨rest, ?_, hrest⟩
    rw [value, hp.peek_cons]
    dsimp only
    rw [hread, ok_bind]
    rfl
  | _, _, .unit, fuel, input, left, hfuel, hp => by
    obtain ⟨fuel, rfl⟩ := Nat.exists_eq_add_of_le' (m := 4) hfuel
    have hclose := hp.next_cons
    refine ⟨input.next.next, ?_, hclose.next_cons⟩
    rw [value, hp.peek_cons]
    dsimp only
    rw [parenthesized, if_pos hclose.peek_cons]
  | _, _, @Derives.group ts v hinner, fuel, input, left, hfuel, hp => by
    simp only [List.length_append, List.length_cons, List.length_nil] at hfuel
    obtain ⟨fuel, rfl⟩ : ∃ m, fuel = m + 2 := ⟨fuel - 2, by omega⟩
    have hp : Pending input (.openParen :: (ts ++ .closeParen :: left)) := by simpa using hp
    obtain ⟨rest, hread, hrest⟩ := value_complete hinner fuel (by omega) hp.next_cons
    refine ⟨rest.next, ?_, hrest.next_cons⟩
    rw [value, hp.peek_cons]
    dsimp only
    rw [parenthesized, if_neg (hinner.peek_ne hp.next_cons (.inr rfl)), hread, ok_bind]
    dsimp only
    rw [if_pos hrest.peek_cons]
    rfl
  | _, _, @Derives.tuple ts us v vs hfirst hothers, fuel, input, left, hfuel, hp => by
    simp only [List.length_append, List.length_cons, List.length_nil] at hfuel
    obtain ⟨fuel, rfl⟩ : ∃ m, fuel = m + 2 := ⟨fuel - 2, by omega⟩
    have hp : Pending input (.openParen :: (ts ++ .comma :: (us ++ .closeParen :: left))) := by
      simpa using hp
    obtain ⟨comma, hread, hcomma⟩ := value_complete hfirst fuel (by omega) hp.next_cons
    obtain ⟨rest, hitems, hrest⟩ :=
      items_complete hothers fuel (by omega) hcomma.next_cons (.inr rfl)
    refine ⟨rest, ?_, hrest⟩
    rw [value, hp.peek_cons]
    dsimp only
    rw [parenthesized, if_neg (hfirst.peek_ne hp.next_cons (.inr rfl)), hread, ok_bind]
    dsimp only
    rw [if_neg (hcomma.peek_cons ▸ nofun), hcomma.expect_cons, ok_bind, hitems, ok_bind]
    rfl
  | _, _, @Derives.map ts es t hpairs holds, fuel, input, left, hfuel, hp => by
    simp only [List.length_append, List.length_cons, List.length_nil] at hfuel
    obtain ⟨fuel, rfl⟩ : ∃ m, fuel = m + 1 := ⟨fuel - 1, by omega⟩
    have hp : Pending input (.openBrace :: (ts ++ .closeBrace :: left)) := by simpa using hp
    obtain ⟨rest, hread, hrest⟩ := entries_complete hpairs fuel (by omega) hp.next_cons
    refine ⟨rest, ?_, hrest⟩
    rw [value, hp.peek_cons]
    dsimp only
    rw [hread, ok_bind, holds.eq_ofEntries]
    rfl

theorem items_complete : {used : List Token} → {vs : List Value} → DerivesItems used vs →
    ∀ (fuel : Nat) {close : Token} {input : Input} {left : List Token},
      2 * used.length + 1 ≤ fuel → Pending input (used ++ close :: left) →
        close = .closeBracket ∨ close = .closeParen →
          ∃ rest, items close fuel input = .ok (vs, rest) ∧ Pending rest left
  | _, _, .none, fuel, close, input, left, hfuel, hp, _ => by
    obtain ⟨fuel, rfl⟩ := Nat.exists_eq_add_of_le' (m := 1) hfuel
    exact ⟨input.next, by rw [items, if_pos hp.peek_cons], hp.next_cons⟩
  | _, _, .last hitem, fuel, close, input, left, hfuel, hp, hclose => by
    obtain ⟨fuel, rfl⟩ : ∃ m, fuel = m + 1 := ⟨fuel - 1, by omega⟩
    have hcomma : close ≠ .comma := by rcases hclose with rfl | rfl <;> exact nofun
    obtain ⟨rest, hread, hrest⟩ := value_complete hitem fuel (by omega) hp
    refine ⟨rest.next, ?_, hrest.next_cons⟩
    rw [items, if_neg (hitem.peek_ne hp hclose), hread, ok_bind]
    dsimp only
    rw [hrest.skipComma_cons hcomma]
    dsimp only
    rw [hrest.expect_cons, ok_bind]
    rfl
  | _, _, @DerivesItems.more ts us v vs hitem hothers, fuel, close, input, left, hfuel, hp,
      hclose => by
    simp only [List.length_append, List.length_cons] at hfuel
    obtain ⟨fuel, rfl⟩ : ∃ m, fuel = m + 1 := ⟨fuel - 1, by omega⟩
    have hp : Pending input (ts ++ .comma :: (us ++ close :: left)) := by simpa using hp
    obtain ⟨comma, hread, hcomma⟩ := value_complete hitem fuel (by omega) hp
    obtain ⟨rest, hitems, hrest⟩ :=
      items_complete hothers fuel (by omega) hcomma.next_cons hclose
    refine ⟨rest, ?_, hrest⟩
    rw [items, if_neg (hitem.peek_ne hp hclose), hread, ok_bind]
    dsimp only
    rw [hcomma.skipComma_comma]
    dsimp only
    rw [hitems, ok_bind]
    rfl

theorem entries_complete : {used : List Token} → {es : List (String × Value)} →
    DerivesPairs used es → ∀ (fuel : Nat) {input : Input} {left : List Token},
      2 * used.length + 1 ≤ fuel → Pending input (used ++ .closeBrace :: left) →
        ∃ rest, entries fuel input = .ok (es, rest) ∧ Pending rest left
  | _, _, .none, fuel, input, left, hfuel, hp => by
    obtain ⟨fuel, rfl⟩ := Nat.exists_eq_add_of_le' (m := 1) hfuel
    exact ⟨input.next, by rw [entries, if_pos hp.peek_cons], hp.next_cons⟩
  | _, _, @DerivesPairs.last key ts v hitem, fuel, input, left, hfuel, hp => by
    simp only [List.length_cons] at hfuel
    obtain ⟨fuel, rfl⟩ : ∃ m, fuel = m + 1 := ⟨fuel - 1, by omega⟩
    have hcolon := hp.next_cons
    obtain ⟨rest, hread, hrest⟩ := value_complete hitem fuel (by omega) hcolon.next_cons
    refine ⟨rest.next, ?_, hrest.next_cons⟩
    rw [entries, if_neg (hp.peek_cons ▸ nofun), hp.peek_cons]
    dsimp only
    rw [hcolon.expect_cons, ok_bind, hread, ok_bind]
    dsimp only
    rw [hrest.skipComma_cons nofun]
    dsimp only
    rw [hrest.expect_cons, ok_bind]
    rfl
  | _, _, @DerivesPairs.more key ts us v es hitem hothers, fuel, input, left, hfuel, hp => by
    simp only [List.length_append, List.length_cons] at hfuel
    obtain ⟨fuel, rfl⟩ : ∃ m, fuel = m + 1 := ⟨fuel - 1, by omega⟩
    have hp : Pending input
        (.str key :: .colon :: (ts ++ .comma :: (us ++ .closeBrace :: left))) := by
      simpa using hp
    have hcolon := hp.next_cons
    obtain ⟨comma, hread, hcomma⟩ := value_complete hitem fuel (by omega) hcolon.next_cons
    obtain ⟨rest, hentries, hrest⟩ := entries_complete hothers fuel (by omega) hcomma.next_cons
    refine ⟨rest, ?_, hrest⟩
    rw [entries, if_neg (hp.peek_cons ▸ nofun), hp.peek_cons]
    dsimp only
    rw [hcolon.expect_cons, ok_bind, hread, ok_bind]
    dsimp only
    rw [hcomma.skipComma_comma]
    dsimp only
    rw [hentries, ok_bind]
    rfl

end

/-! No literal begins another one: the reader would stop at the end of both. -/

mutual

theorem Derives.stop_notMem : {ts : List Token} → {v : Value} → Derives ts v → .stop ∉ ts
  | _, _, .int _ => by simp
  | _, _, .float _ => by simp
  | _, _, .str _ => by simp
  | _, _, .bool _ => by simp
  | _, _, .null => by simp
  | _, _, .list items => by simp [items.stop_notMem]
  | _, _, .unit => by simp
  | _, _, .group inner => by simp [inner.stop_notMem]
  | _, _, .tuple first others => by simp [first.stop_notMem, others.stop_notMem]
  | _, _, .map pairs _ => by simp [pairs.stop_notMem]

theorem DerivesItems.stop_notMem :
    {ts : List Token} → {vs : List Value} → DerivesItems ts vs → .stop ∉ ts
  | _, _, .none => by simp
  | _, _, .last item => item.stop_notMem
  | _, _, .more item others => by simp [item.stop_notMem, others.stop_notMem]

theorem DerivesPairs.stop_notMem :
    {ts : List Token} → {es : List (String × Value)} → DerivesPairs ts es → .stop ∉ ts
  | _, _, .none => by simp
  | _, _, .last item => by simp [item.stop_notMem]
  | _, _, .more item others => by simp [item.stop_notMem, others.stop_notMem]

end

theorem Derives.eq_nil_of_append {ts more : List Token} {v w : Value} (h : Derives ts v)
    (hall : Derives (ts ++ more) w) : more = [] := by
  obtain ⟨input, hinput⟩ : ∃ input : Input, input.map (·.1) = ts ++ more ++ [.stop] :=
    ⟨(ts ++ more ++ [Token.stop]).map (·, 0), by simp [Function.comp_def]⟩
  have hp : Pending input (ts ++ more) := ⟨hinput, hall.stop_notMem⟩
  have hp' : Pending input (ts ++ more ++ []) := by rwa [List.append_nil]
  have hlength : 2 * ts.length ≤ 2 * (ts ++ more).length := by
    rw [List.length_append]
    omega
  obtain ⟨rest, hread, hrest⟩ := value_complete h _ hlength hp
  obtain ⟨rest', hread', hrest'⟩ := value_complete hall _ (Nat.le_refl _) hp'
  obtain ⟨-, rfl⟩ := Prod.mk.inj (Except.ok.inj (hread.symm.trans hread'))
  exact List.append_cancel_right (hrest.map_fst.symm.trans hrest'.map_fst)

theorem Derives.eq_of_append {ts us behind more : List Token} {v w : Value} (hts : Derives ts v)
    (hus : Derives us w) (h : ts ++ behind = us ++ more) : ts = us := by
  rcases List.append_eq_append_iff.1 h with ⟨middle, rfl, -⟩ | ⟨middle, rfl, -⟩
  · rw [hts.eq_nil_of_append hus, List.append_nil]
  · rw [hus.eq_nil_of_append hts, List.append_nil]

/-- A text is read as the value that the grammar derives from its tokens, and refused if the grammar
derives none. -/
theorem parse_eq_ok_iff (source : String) (v : Value) :
    parse source = .ok v ↔ ∃ ts, Lexes source.toList ts ∧ Derives ts v := by
  constructor
  · intro h
    obtain ⟨input, hinput, h⟩ := bind_eq_ok h
    obtain ⟨ts, hlexes, hmap⟩ := lexes_of_tokens hinput
    obtain ⟨⟨v', rest⟩, hread, h⟩ := bind_eq_ok h
    obtain ⟨used, left, rfl, hused, hleft⟩ := value_sound _ hread ⟨hmap, hlexes.stop_notMem⟩
    dsimp only at h
    split at h
    · next hpeek =>
      obtain rfl := Except.ok.inj h
      cases left with
      | nil => exact ⟨used, by rwa [List.append_nil] at hlexes, hused⟩
      | cons token left =>
        have htoken : token = .stop := hleft.peek_cons.symm.trans hpeek
        exact absurd (htoken ▸ List.mem_cons_self) hleft.stop_notMem
    · exact nomatch h
  · rintro ⟨ts, hlexes, hderives⟩
    obtain ⟨input, hinput, hmap⟩ := hlexes.tokens
    have hp : Pending input (ts ++ []) := ⟨by rw [List.append_nil, hmap], by
      rw [List.append_nil]; exact hlexes.stop_notMem⟩
    have hlength : input.length = ts.length + 1 := by
      rw [← List.length_map (·.1), hmap, List.length_append, List.length_singleton]
    obtain ⟨rest, hread, hrest⟩ :=
      value_complete hderives (2 * input.length + 2) (by omega) hp
    rw [parse, hinput, ok_bind, hread, ok_bind]
    dsimp only
    rw [hrest.peek_nil]
    rfl

end Literal

end Stencil
