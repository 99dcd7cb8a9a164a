import Stencil.Proofs.Literal.Grammar

/-! Whole numbers as literals. A row of digits with a minus sign or without is read as the number it
writes if 64 bits hold that number; any other is no token and refused where it starts. -/

namespace Stencil

namespace Literal

/-- A row of digits, with a minus sign in front of it or none, and the whole number it writes. -/
inductive WritesInt : List Char → Int → Prop where
  | plain {ds : List Char} (ne : ds ≠ []) (digits : ∀ d ∈ ds, d.isDigit) :
    WritesInt ds (Nat.ofDigitChars 10 ds 0)
  | minus {ds : List Char} (ne : ds ≠ []) (digits : ∀ d ∈ ds, d.isDigit) :
    WritesInt ('-' :: ds) (-(Nat.ofDigitChars 10 ds 0 : Int))

/-- A whole number that 64 bits hold. -/
def Fits (n : Int) : Prop := Int64.minValue.toInt ≤ n ∧ n ≤ Int64.maxValue.toInt

instance (n : Int) : Decidable (Fits n) :=
  inferInstanceAs (Decidable (Int64.minValue.toInt ≤ n ∧ n ≤ Int64.maxValue.toInt))

theorem fits_toInt (n : Int64) : Fits n.toInt := ⟨n.minValue_le_toInt, n.toInt_le⟩

theorem Fits.toInt_ofInt {n : Int} (h : Fits n) : (Int64.ofInt n).toInt = n :=
  Int64.toInt_ofInt_of_le h.1 (Int.lt_of_le_sub_one h.2)

variable {b : Char} {ds text behind : List Char} {n : Int}

theorem digits?_eq (ne : ds ≠ []) (h : ∀ d ∈ ds, d.isDigit) :
    Decimal.digits? ds = some (Nat.ofDigitChars 10 ds 0) := by
  rw [Decimal.digits?, List.all_eq_true.2 h, List.isEmpty_eq_false_iff.2 ne]
  rfl

theorem isChain_digits (h : ∀ d ∈ ds, d.isDigit) : (b :: ds).IsChain (goesOn · ·) := by
  induction ds generalizing b with
  | nil => exact .singleton b
  | cons d ds ih =>
    obtain ⟨hd, hds⟩ := List.forall_mem_cons.1 h
    refine .cons_cons ?_ (ih hds)
    rw [goesOn, hd]
    rfl

/-- There is nothing in it that makes a floating-point number. -/
theorem not_float_of_digits (h : ∀ d ∈ ds, d.isDigit) :
    ds.any (fun c => c == '.' || c == 'e' || c == 'E') = false := by
  rw [List.any_eq_false]
  intro c hc hother
  have hdigit := h c hc
  simp only [Bool.or_eq_true, beq_iff_eq] at hother
  rcases hother with (rfl | rfl) | rfl <;> exact nomatch hdigit

namespace WritesInt

theorem int? (h : WritesInt text n) : Decimal.int? text = some n := by
  cases h with
  | plain ne digits =>
    have hminus : Decimal.splitMinus text = (false, text) := by
      unfold Decimal.splitMinus
      split
      · exact nomatch digits '-' List.mem_cons_self
      · rfl
    rw [Decimal.int?, hminus]
    dsimp only
    rw [digits?_eq ne digits]
    rfl
  | minus ne digits =>
    rw [Decimal.int?, Decimal.splitMinus]
    dsimp only
    rw [digits?_eq ne digits]
    rfl

theorem not_float (h : WritesInt text n) :
    text.any (fun c => c == '.' || c == 'e' || c == 'E') = false := by
  cases h with
  | plain _ digits => exact not_float_of_digits digits
  | minus _ digits =>
    rw [List.any_cons, not_float_of_digits digits]
    rfl

theorem number?_of_fits (h : WritesInt text n) (hfits : Fits n) :
    number? text = some (.int (Int64.ofInt n)) := by
  have hrange : (Int64.minValue.toInt ≤ n && n ≤ Int64.maxValue.toInt) = true := by
    rw [Bool.and_eq_true, decide_eq_true_eq, decide_eq_true_eq]
    exact hfits
  rw [number?, h.not_float, int64?, h.int?, Option.bind_some, if_pos hrange]
  rfl

theorem number?_of_not_fits (h : WritesInt text n) (hfits : ¬Fits n) :
    number? text = none := by
  have hrange : ¬(Int64.minValue.toInt ≤ n && n ≤ Int64.maxValue.toInt) = true := by
    rw [Bool.and_eq_true, decide_eq_true_eq, decide_eq_true_eq]
    exact hfits
  rw [number?, h.not_float, int64?, h.int?, Option.bind_some, if_neg hrange]
  rfl

/-- It is read as a number, and to its end. -/
theorem run (h : WritesInt text n) (behind : List Char) :
    startsNumber (text ++ behind) ∧ text.IsChain (goesOn · ·) := by
  cases h with
  | plain ne digits =>
    obtain ⟨d, ds, rfl⟩ := List.exists_cons_of_ne_nil ne
    obtain ⟨hd, hds⟩ := List.forall_mem_cons.1 digits
    have hminus : d ≠ '-' := by
      rintro rfl
      exact nomatch hd
    refine ⟨?_, isChain_digits hds⟩
    rw [List.cons_append, startsNumber_cons hminus, hd]
    rfl
  | minus ne digits =>
    obtain ⟨d, ds, rfl⟩ := List.exists_cons_of_ne_nil ne
    refine ⟨?_, isChain_digits digits⟩
    show d.isDigit || d == '.'
    rw [digits d List.mem_cons_self]
    rfl

theorem spells (h : WritesInt text n) (hfits : Fits n)
    (hends : ∀ b ∈ text.getLast?, ∀ c ∈ behind.head?, ¬goesOn b c) :
    Spells text behind (.int (Int64.ofInt n)) := by
  obtain ⟨hstarts, hrun⟩ := h.run behind
  exact .number hstarts hrun (h.number?_of_fits hfits) hends

/-- A number that 64 bits do not hold is no token. -/
theorem tokens_eq_error (h : WritesInt text n) (hfits : ¬Fits n) :
    tokens text = .error ⟨.invalidNumber (String.ofList text), 0⟩ := by
  obtain ⟨hstarts, hrun⟩ := h.run []
  rw [List.append_nil] at hstarts
  cases text with
  | nil => cases hstarts
  | cons c cs =>
    have htext : numberText (c :: cs) = c :: cs := by
      rw [numberText_cons hstarts]
      have hnil : ∀ d ∈ (c :: cs).getLast?, ∀ e ∈ ([] : List Char).head?, ¬goesOn d e :=
        fun _ _ _ h => nomatch h
      have hcs := numberRun_append hrun hnil
      rw [List.append_nil] at hcs
      rw [hcs]
    have hread : readToken c cs = .error ⟨.invalidNumber (String.ofList (c :: cs)), 0⟩ := by
      rw [readToken, if_pos hstarts, readNumber, htext, h.number?_of_not_fits hfits]
    rw [tokens, tokensFrom, if_neg (not_isBlank_of_startsNumber hstarts), hread]
    rfl

theorem not_mem_point (h : WritesInt text n) : '.' ∉ text := by
  intro hpoint
  have hnone := List.any_eq_false.1 h.not_float '.' hpoint
  exact hnone rfl

end WritesInt

theorem parse_of_fits {source : String} (h : WritesInt source.toList n)
    (hfits : Fits n) : parse source = .ok (.int (Int64.ofInt n)) := by
  refine (parse_eq_ok_iff source _).2 ⟨[.int (Int64.ofInt n)], ?_, .int _⟩
  rw [← List.append_nil source.toList]
  exact .token (h.spells hfits fun _ _ _ hnil => nomatch hnil) .nil

theorem parse_of_not_fits {source : String} (h : WritesInt source.toList n)
    (hfits : ¬Fits n) : parse source = .error ⟨.invalidNumber source, 0⟩ := by
  rw [parse, h.tokens_eq_error hfits, String.ofList_toList]
  rfl

end Literal

end Stencil
