import Stencil.Proofs.Literal.Grammar

/-! Where the tokens of a literal cannot go on. Some tokens halt at another one if they begin a
literal and begin none together with it. What halts a part halts all that the part stands in, since
no part begins another one and none starts with the token that closes them. -/

namespace Stencil.Literal

variable {Item : List Token → Prop} {close token found : Token} {ts us used behind : List Token}
  {more : List Token}

/-! The grammar by what a reader has in front of it. -/

def IsLiteral (ts : List Token) : Prop := ∃ v, Derives ts v

/-- A key, a colon and a value. -/
def IsEntry (ts : List Token) : Prop :=
  ∃ key us, ts = .str key :: .colon :: us ∧ IsLiteral us

/-- Parts with commas between them, if any, an optional comma behind the last, and what closes
them. -/
inductive Rows (Item : List Token → Prop) (close : Token) : List Token → Prop where
  | close : Rows Item close [close]
  | last {ts : List Token} (item : Item ts) : Rows Item close (ts ++ [close])
  | more {ts us : List Token} (item : Item ts) (others : Rows Item close us) :
    Rows Item close (ts ++ .comma :: us)

/-- What stands behind the first token of a literal. -/
def Behind : Token → List Token → Prop
  | .openBracket, us => Rows IsLiteral .closeBracket us
  | .openParen, us => Rows IsLiteral .closeParen us
  | .openBrace, us => Rows IsEntry .closeBrace us
  | token, us => token.value?.isSome ∧ us = []

/-- The tokens of a whole text that is a literal. -/
def Complete (ts : List Token) : Prop := ∃ us, ts = us ++ [.stop] ∧ IsLiteral us

theorem DerivesItems.rows {vs : List Value} : {ts : List Token} → DerivesItems ts vs →
    (close : Token) → Rows IsLiteral close (ts ++ [close])
  | _, .none, _ => .close
  | _, .last item, _ => .last ⟨_, item⟩
  | _, .more item others, close => by
    rw [List.append_assoc]
    exact .more ⟨_, item⟩ (others.rows close)

theorem DerivesPairs.rows {es : List (String × Value)} : {ts : List Token} →
    DerivesPairs ts es → Rows IsEntry .closeBrace (ts ++ [.closeBrace])
  | _, .none => .close
  | _, .last item => .last ⟨_, _, rfl, _, item⟩
  | _, .more item others => by
    rw [List.append_assoc]
    exact .more ⟨_, _, rfl, _, item⟩ others.rows

theorem Rows.derivesItems (h : Rows IsLiteral close ts) :
    ∃ us vs, ts = us ++ [close] ∧ DerivesItems us vs := by
  induction h with
  | close => exact ⟨[], [], rfl, .none⟩
  | last item =>
    obtain ⟨v, item⟩ := item
    exact ⟨_, [v], rfl, .last item⟩
  | more item _ ih =>
    obtain ⟨v, item⟩ := item
    obtain ⟨us, vs, rfl, others⟩ := ih
    exact ⟨_, v :: vs, by simp, .more item others⟩

theorem Rows.derivesPairs (h : Rows IsEntry close ts) :
    ∃ us es, ts = us ++ [close] ∧ DerivesPairs us es := by
  induction h with
  | close => exact ⟨[], [], rfl, .none⟩
  | last item =>
    obtain ⟨key, us, rfl, v, item⟩ := item
    exact ⟨_, [(key, v)], rfl, .last item⟩
  | more item _ ih =>
    obtain ⟨key, us, rfl, v, item⟩ := item
    obtain ⟨others, es, rfl, hothers⟩ := ih
    exact ⟨_, (key, v) :: es, by simp, .more item hothers⟩

theorem isLiteral_of_behind (h : Behind token us) : IsLiteral (token :: us) := by
  unfold Behind at h
  split at h
  · obtain ⟨ts, vs, rfl, items⟩ := h.derivesItems
    exact ⟨_, .list items⟩
  · cases h with
    | close => exact ⟨_, .unit⟩
    | last item =>
      obtain ⟨v, item⟩ := item
      exact ⟨v, .group item⟩
    | more item others =>
      obtain ⟨v, item⟩ := item
      obtain ⟨us, vs, rfl, items⟩ := others.derivesItems
      exact ⟨.list (v :: vs), by simpa using Derives.tuple item items⟩
  · obtain ⟨ts, es, rfl, pairs⟩ := h.derivesPairs
    exact ⟨_, .map pairs (Table.holds_ofEntries es)⟩
  · obtain ⟨hvalue, rfl⟩ := h
    obtain ⟨v, hv⟩ := Option.isSome_iff_exists.1 hvalue
    exact ⟨v, .of_value? hv⟩

theorem not_behind (hvalue : token.value? = none) (hbracket : token ≠ .openBracket)
    (hparen : token ≠ .openParen) (hbrace : token ≠ .openBrace) : ¬Behind token us := by
  intro h
  unfold Behind at h
  split at h
  · exact hbracket rfl
  · exact hparen rfl
  · exact hbrace rfl
  · rw [hvalue] at h
    cases h.1

theorem IsLiteral.exists_behind (h : IsLiteral ts) :
    ∃ token us, ts = token :: us ∧ Behind token us := by
  obtain ⟨v, h⟩ := h
  cases h with
  | int | float | str | bool | null => exact ⟨_, _, rfl, rfl, rfl⟩
  | list items => exact ⟨_, _, rfl, items.rows _⟩
  | unit => exact ⟨_, _, rfl, .close⟩
  | group inner => exact ⟨_, _, rfl, .last ⟨_, inner⟩⟩
  | @tuple ts us v vs first others =>
    have hrows : Rows IsLiteral .closeParen (ts ++ .comma :: (us ++ [.closeParen])) :=
      .more ⟨v, first⟩ (others.rows _)
    exact ⟨.openParen, _, by simp, hrows⟩
  | map pairs => exact ⟨_, _, rfl, pairs.rows⟩

theorem IsLiteral.eq_of_append (hts : IsLiteral ts) (hus : IsLiteral us)
    (h : ts ++ behind = us ++ more) : ts = us := by
  obtain ⟨v, hts⟩ := hts
  obtain ⟨w, hus⟩ := hus
  exact hts.eq_of_append hus h

/-- Parts that can be told apart from what stands around them: none starts with `close`, and none
begins another one. -/
structure Separable (Item : List Token → Prop) (close : Token) : Prop where
  close_ne_comma : close ≠ .comma
  exists_head {ts : List Token} (item : Item ts) : ∃ token us, ts = token :: us ∧ token ≠ close
  eq_of_append {ts us behind more : List Token} (hts : Item ts) (hus : Item us)
    (h : ts ++ behind = us ++ more) : ts = us

theorem separable_isLiteral (hclose : close = .closeBracket ∨ close = .closeParen) :
    Separable IsLiteral close where
  close_ne_comma := by rcases hclose with rfl | rfl <;> decide
  exists_head := by
    rintro ts ⟨v, item⟩
    exact item.head_ne hclose
  eq_of_append := IsLiteral.eq_of_append

theorem separable_isEntry : Separable IsEntry .closeBrace where
  close_ne_comma := by decide
  exists_head := by
    rintro _ ⟨key, us, rfl, -⟩
    exact ⟨_, _, rfl, by simp⟩
  eq_of_append := by
    rintro _ _ behind more ⟨key, ts, rfl, hts⟩ ⟨key', us, rfl, hus⟩ h
    obtain ⟨hkey, h⟩ := List.cons.inj h
    obtain rfl := hts.eq_of_append hus (List.cons.inj h).2
    rw [hkey]

/-- Rows that start with a part go on with their end or with a comma and more of them. -/
theorem Separable.of_append (sep : Separable Item close) (item : Item ts)
    (rows : Rows Item close us) (h : us ++ behind = ts ++ more) :
    more = close :: behind ∨
      ∃ others, Rows Item close others ∧ more = .comma :: others ++ behind := by
  cases rows with
  | close =>
    obtain ⟨token, ts, rfl, htoken⟩ := sep.exists_head item
    exact absurd (List.cons.inj h).1.symm htoken
  | last item' =>
    rw [List.append_assoc] at h
    obtain rfl := sep.eq_of_append item' item h
    exact .inl (List.append_cancel_left h).symm
  | more item' others =>
    rw [List.append_assoc] at h
    obtain rfl := sep.eq_of_append item' item h
    exact .inr ⟨_, others, (List.append_cancel_left h).symm⟩

/-! Tokens that halt, one lemma for each place where a reader looks at a token. -/

/-- Something of `L` goes on behind `used`, and nothing of `L` does so with `found`. -/
structure Halts (L : List Token → Prop) (used : List Token) (found : Token) : Prop where
  continues : ∃ token more, L (used ++ token :: more)
  not_with {ts behind more : List Token} (mem : L ts) : ts ++ behind ≠ used ++ found :: more

namespace Halts

theorem literal (token : Token) (h : Halts (Behind token) used found) :
    Halts IsLiteral (token :: used) found where
  continues := by
    obtain ⟨t, more, hmore⟩ := h.continues
    exact ⟨t, more, isLiteral_of_behind hmore⟩
  not_with := by
    rintro ts behind more hts heq
    obtain ⟨t, us, rfl, hus⟩ := hts.exists_behind
    obtain ⟨rfl, hrest⟩ := List.cons.inj heq
    exact h.not_with hus hrest

theorem no_value (h : ∀ us, ¬Behind found us) : Halts IsLiteral [] found where
  continues := ⟨.null, [], _, .null⟩
  not_with := by
    rintro ts behind more hts heq
    obtain ⟨t, us, rfl, hus⟩ := hts.exists_behind
    obtain ⟨rfl, -⟩ := List.cons.inj heq
    exact h us hus

theorem no_key (h : ∀ key, found ≠ .str key) : Halts IsEntry [] found where
  continues := ⟨.str "", [.colon, .null], "", [.null], rfl, _, .null⟩
  not_with := by
    rintro _ behind more ⟨key, us, rfl, -⟩ heq
    exact h key (List.cons.inj heq).1.symm

theorem no_colon {key : String} (h : found ≠ .colon) : Halts IsEntry [.str key] found where
  continues := ⟨.colon, [.null], key, [.null], rfl, _, .null⟩
  not_with := by
    rintro _ behind more ⟨key', us, rfl, -⟩ heq
    exact h (List.cons.inj (List.cons.inj heq).2).1.symm

theorem entry {key : String} (h : Halts IsLiteral used found) :
    Halts IsEntry (.str key :: .colon :: used) found where
  continues := by
    obtain ⟨t, more, hmore⟩ := h.continues
    exact ⟨t, more, key, _, rfl, hmore⟩
  not_with := by
    rintro _ behind more ⟨key', us, rfl, hus⟩ heq
    exact h.not_with hus (List.cons.inj (List.cons.inj heq).2).2

theorem first_item (sep : Separable Item close) (h : Halts Item used found)
    (hclose : used = [] → found ≠ close) : Halts (Rows Item close) used found where
  continues := by
    obtain ⟨t, more, hmore⟩ := h.continues
    refine ⟨t, more ++ [close], ?_⟩
    rw [← List.cons_append, ← List.append_assoc]
    exact .last hmore
  not_with := by
    rintro _ behind more rows heq
    cases rows with
    | close =>
      cases used with
      | nil => exact hclose rfl (List.cons.inj heq).1.symm
      | cons u used =>
        -- What has been used begins a part, and `close` would have to be its first token.
        obtain ⟨t, more', hmore⟩ := h.continues
        obtain ⟨token, us, hus, htoken⟩ := sep.exists_head hmore
        exact htoken ((List.cons.inj hus).1.symm.trans (List.cons.inj heq).1.symm)
    | last item =>
      rw [List.append_assoc] at heq
      exact h.not_with item heq
    | more item others =>
      rw [List.append_assoc] at heq
      exact h.not_with item heq

theorem behind_item (sep : Separable Item close) (item : Item used) (hcomma : found ≠ .comma)
    (hclose : found ≠ close) : Halts (Rows Item close) used found where
  continues := ⟨close, [], .last item⟩
  not_with := by
    rintro _ behind more rows heq
    rcases sep.of_append item rows heq with heq | ⟨others, -, heq⟩
    · exact hclose (List.cons.inj heq).1
    · exact hcomma (List.cons.inj heq).1

theorem behind_comma (sep : Separable Item close) (item : Item ts)
    (h : Halts (Rows Item close) used found) :
    Halts (Rows Item close) (ts ++ .comma :: used) found where
  continues := by
    obtain ⟨t, more, hmore⟩ := h.continues
    refine ⟨t, more, ?_⟩
    rw [List.append_assoc]
    exact .more item hmore
  not_with := by
    rintro _ behind more rows heq
    rw [List.append_assoc] at heq
    rcases sep.of_append item rows heq with heq | ⟨others, hothers, heq⟩
    · exact sep.close_ne_comma (List.cons.inj heq).1.symm
    · exact h.not_with hothers (List.cons.inj heq).2.symm

theorem complete (h : Halts IsLiteral used found) : Halts Complete used found where
  continues := by
    obtain ⟨t, more, hmore⟩ := h.continues
    exact ⟨t, more ++ [.stop], _, by simp, hmore⟩
  not_with := by
    rintro _ behind more ⟨us, rfl, hus⟩ heq
    rw [List.append_assoc] at heq
    exact h.not_with hus heq

theorem trailing (h : IsLiteral used) (hstop : found ≠ .stop) : Halts Complete used found where
  continues := ⟨.stop, [], used, rfl, h⟩
  not_with := by
    rintro _ behind more ⟨us, rfl, hus⟩ heq
    rw [List.append_assoc] at heq
    obtain rfl := hus.eq_of_append h heq
    exact hstop (List.cons.inj (List.append_cancel_left heq)).1.symm

end Halts

end Stencil.Literal
