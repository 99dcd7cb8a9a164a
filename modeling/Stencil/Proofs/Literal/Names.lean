import Stencil.Proofs.Literal.Integers
import Stencil.Proofs.Scope.Outward
import Stencil.Proofs.Text.Trimming

/-! Names and literals. A text whose first visible character can start a word is a literal only if
there is nothing in it but one of the constants and blanks around it, and a text that starts with
two points is none at all: whatever follows, a number has no digit in front of its second point. The
text of a whole number is a literal if 64 bits hold the number and a name otherwise. -/

namespace Stencil

namespace Literal

variable {c : Char} {cs text behind front back : List Char} {ts : List Token} {token : Token}
  {v : Value}

/-! Blanks. -/

theorem Lexes.dropWhile (h : Lexes cs ts) : Lexes (cs.dropWhile Text.isBlank) ts := by
  induction h with
  | nil => exact .nil
  | blank hblank _ ih => rwa [List.dropWhile_cons_of_pos hblank]
  | token spells rest =>
    obtain ⟨c, cs, hsplit, hvisible, -⟩ := spells.readToken
    rw [hsplit, List.dropWhile_cons_of_neg hvisible, ← hsplit]
    exact .token spells rest

theorem Lexes.blanks (h : Lexes cs ts) (hfront : ∀ c ∈ front, Text.isBlank c) :
    Lexes (front ++ cs) ts := by
  induction front with
  | nil => exact h
  | cons c front ih =>
    obtain ⟨hc, hfront⟩ := List.forall_mem_cons.1 hfront
    exact .blank hc (ih hfront)

theorem lexes_nil_iff : Lexes cs [] ↔ ∀ c ∈ cs, Text.isBlank c := by
  constructor
  · intro h
    generalize hts : ([] : List Token) = ts at h
    induction h with
    | nil => exact nofun
    | blank hblank _ ih => exact List.forall_mem_cons.2 ⟨hblank, ih hts⟩
    | token => exact nomatch hts
  · intro h
    rw [← List.append_nil cs]
    exact Lexes.nil.blanks h

/-- The ranges of blank characters. -/
def blankRanges : List (Nat × Nat) :=
  [(9, 13), (0x20, 0x20), (0x85, 0x85), (0xA0, 0xA0), (0x1680, 0x1680), (0x2000, 0x200A),
    (0x2028, 0x2029), (0x202F, 0x202F), (0x205F, 0x205F), (0x3000, 0x3000)]

theorem inRanges_of_isBlank (h : Text.isBlank c) : Text.inRanges blankRanges c := by
  simp only [Text.isBlank, Bool.or_eq_true, Bool.and_eq_true, decide_eq_true_eq, beq_iff_eq] at h
  simp only [Text.inRanges, blankRanges, List.any_cons, List.any_nil, Bool.or_eq_true,
    Bool.and_eq_true, decide_eq_true_eq]
  omega

theorem not_isWordPart_of_isBlank (h : Text.isBlank c) : ¬isWordPart c := by
  have hc := inRanges_of_isBlank h
  rw [isWordPart, Text.isAlphanumeric, Bool.or_eq_true, Bool.or_eq_true, not_or, not_or]
  refine ⟨⟨Text.not_inRanges_of_apart (by decide +kernel) hc,
    Text.not_inRanges_of_apart (by decide +kernel) hc⟩, fun hunderscore => ?_⟩
  rw [beq_iff_eq.1 hunderscore] at h
  exact absurd h (by decide)

/-! Words. -/

/-- The characters that start words come behind the digits, signs and quotes. -/
theorem le_toNat_of_isWordStart (h : isWordStart c) : 65 ≤ c.toNat := by
  by_contra hlt
  have hlow : Text.inRanges [(0, 64)] c := by
    simp only [Text.inRanges, List.any_cons, List.any_nil, Bool.or_false, Bool.and_eq_true,
      decide_eq_true_eq]
    omega
  rw [isWordStart, Bool.or_eq_true] at h
  rcases h with hletter | hunderscore
  · exact Text.not_inRanges_of_apart (by decide +kernel) hlow hletter
  · rw [beq_iff_eq.1 hunderscore] at hlt
    exact absurd (by decide) hlt

theorem not_startsNumber_of_isWordStart (h : isWordStart c) (cs : List Char) :
    ¬startsNumber (c :: cs) := by
  have hle := le_toNat_of_isWordStart h
  have hminus : c ≠ '-' := by
    rintro rfl
    exact absurd hle (by decide)
  rw [startsNumber_cons hminus, Bool.or_eq_true, not_or]
  constructor
  · intro hdigit
    rw [Char.isDigit, Bool.and_eq_true, decide_eq_true_eq, decide_eq_true_eq] at hdigit
    have hhigh : c.toNat ≤ 57 := hdigit.2
    omega
  · intro hpoint
    rw [beq_iff_eq.1 hpoint] at hle
    exact absurd hle (by decide)

/-- Where a word can start no other token does, and the word has to be a constant. -/
theorem Spells.of_isWordStart (h : Spells text behind token) (hsplit : text ++ behind = c :: cs)
    (hc : isWordStart c) : ∃ name, (name, token) ∈ constants ∧ text = name.toList := by
  cases h with
  | number starts =>
    rw [hsplit] at starts
    exact absurd starts (not_startsNumber_of_isWordStart hc cs)
  | @text quote written body _ mark =>
    obtain rfl : quote = c := (List.cons.inj hsplit).1
    have hle := le_toNat_of_isWordStart hc
    rcases mark with rfl | rfl <;> exact absurd hle (by decide)
  | @word name _ _ mem => exact ⟨name, mem, rfl⟩
  | @mark d _ _ mem =>
    obtain rfl : d = c := (List.cons.inj hsplit).1
    have hall : ∀ e ∈ punctuation, ¬isWordStart e.1 := by decide +kernel
    exact absurd hc (hall _ mem)

/-- A value that starts with a token that is a value by itself is that value. -/
theorem Derives.eq_of_value? {w : Value} (h : Derives (token :: ts) v)
    (htoken : token.value? = some w) : ts = [] ∧ v = w := by
  cases h with
  | int | float | str | bool | null => exact ⟨rfl, Option.some.inj htoken⟩
  | _ => exact nomatch htoken

theorem value?_constant {name : String} (hname : (name, token) ∈ constants) :
    ∃ w, token.value? = some w := by
  have hall : constants.all (·.2.value?.isSome) := rfl
  exact Option.isSome_iff_exists.1 (List.all_eq_true.1 hall _ hname)

/-- What is trimmed off in front of a constant and behind it. -/
theorem trim_constant {name : String} (hname : (name, token) ∈ constants)
    (hfront : ∀ c ∈ front, Text.isBlank c) (hback : ∀ c ∈ back, Text.isBlank c) :
    Text.trim (front ++ name.toList ++ back) = name.toList := by
  have hall : ∀ e ∈ constants, e.1.toList ≠ [] ∧ e.1.toList.all (!Text.isBlank ·) := by
    decide +kernel
  obtain ⟨hne, hvisible⟩ := hall _ hname
  simp only [List.all_eq_true, Bool.not_eq_true'] at hvisible
  have hbare : Text.Bare Text.isBlank name.toList :=
    ⟨fun c hc => hvisible c (List.mem_of_head? hc),
      fun c hc => hvisible c (List.mem_of_getLast? hc)⟩
  rw [Text.trim, Text.trimBy_append hbare hne, List.dropWhile_eq_nil_iff.2 hfront,
    List.rdropWhile_eq_nil_iff.2 hback, List.nil_append, List.append_nil]

theorem lexes_constant {name : String} (hname : (name, token) ∈ constants)
    (htrim : Text.trim cs = name.toList) : Lexes cs [token] := by
  obtain ⟨front, back, hfront, hback, hcs⟩ := Text.around_trimBy Text.isBlank cs
  rw [hcs, show Text.trimBy Text.isBlank cs = name.toList from htrim, List.append_assoc]
  refine Lexes.blanks (.token (.word hname fun c hc => ?_) (lexes_nil_iff.2 hback)) hfront
  exact not_isWordPart_of_isBlank (hback c (List.mem_of_head? hc))

/-- A text that starts with a word is read as `v` if and only if all there is in it, but for the
blanks around it, is a constant with this value. -/
theorem parse_eq_ok_iff_constant {source : String}
    (hstart : ∃ c ∈ (source.toList.dropWhile Text.isBlank).head?, isWordStart c) :
    parse source = .ok v ↔ ∃ name token, (name, token) ∈ constants ∧ token.value? = some v ∧
      Text.trim source.toList = name.toList := by
  rw [parse_eq_ok_iff]
  constructor
  · rintro ⟨ts, hlexes, hderives⟩
    obtain ⟨c, hhead, hc⟩ := hstart
    have hsplit := List.takeWhile_append_dropWhile (p := Text.isBlank) (l := source.toList)
    have hvisible := hlexes.dropWhile
    rw [List.eq_cons_of_mem_head? hhead] at hvisible hsplit
    have hblank := Text.not_of_mem_head?_dropWhile Text.isBlank source.toList c hhead
    generalize hcs : c :: (source.toList.dropWhile Text.isBlank).tail = cs at hvisible hsplit
    cases hvisible with
    | nil => cases hcs
    | blank hb =>
      obtain rfl := (List.cons.inj hcs).1
      rw [hblank] at hb
      cases hb
    | @token text behind token ts spells rest =>
      obtain ⟨name, hname, rfl⟩ := spells.of_isWordStart hcs.symm hc
      obtain ⟨w, hw⟩ := value?_constant hname
      obtain ⟨rfl, rfl⟩ := hderives.eq_of_value? hw
      refine ⟨name, token, hname, hw, ?_⟩
      rw [← hsplit, ← List.append_assoc]
      exact trim_constant hname (fun c hc => List.mem_takeWhile_imp hc) (lexes_nil_iff.1 rest)
  · rintro ⟨name, token, hname, hvalue, htrim⟩
    exact ⟨[token], lexes_constant hname htrim, .of_value? hvalue⟩

/-! Points. -/

/-- A decimal has a digit before its point or right behind it. -/
theorem decimal_points (cs : List Char) : Decimal.ofChars? ('.' :: '.' :: cs) = none := rfl

/-- The second point makes the number that is tried to be read a wrong one. -/
theorem parse_points {source : String} {rest : List Char}
    (h : source.toList = '.' :: '.' :: rest) : ∃ e, parse source = .error e := by
  have hrun : numberText ('.' :: '.' :: rest) = '.' :: '.' :: numberRun false rest := rfl
  have hnumber : number? ('.' :: '.' :: numberRun false rest) = none := by
    rw [number?, if_pos (by rfl), Double.ofChars?, decimal_points]
    rfl
  have hread : readToken '.' ('.' :: rest) =
      .error ⟨.invalidNumber (String.ofList ('.' :: '.' :: numberRun false rest)), 0⟩ := by
    rw [readToken, if_pos (by rfl), readNumber, hrun, hnumber]
  refine ⟨⟨.invalidNumber (String.ofList ('.' :: '.' :: numberRun false rest)), 0⟩, ?_⟩
  rw [parse, tokens, h, tokensFrom, if_neg (by decide), hread]
  rfl

end Literal

theorem Operand.ofText_eq_literal_iff {text : String} {v : Value} :
    Operand.ofText text = .literal v ↔ Literal.parse text = .ok v := by
  rw [Operand.ofText]
  cases Literal.parse text with
  | ok w => simp
  | error e => simp

open Literal

/-- A word is taken for a literal only where it is, but for blanks, the name of a constant, and a
text that starts with two points never is. What is no literal is a name, as it is written. -/
theorem Operand.ofText_keepsNames (text : String) :
    ((∃ c ∈ (text.toList.dropWhile Text.isBlank).head?, Text.isAlphabetic c ∨ c = '_') →
        ((∃ v, ofText text = .literal v) ↔ String.ofList (Text.trim text.toList) ∈
          ["true", "True", "false", "False", "null", "None"])) ∧
      ("..".toList <+: text.toList → ofText text = .name text) ∧
      ∀ name, ofText text = .name name → name = text := by
  refine ⟨fun hstart => ?_, ?_, fun name h => ?_⟩
  · have hstart : ∃ c ∈ (text.toList.dropWhile Text.isBlank).head?, isWordStart c := by
      simpa [isWordStart] using hstart
    rw [show ["true", "True", "false", "False", "null", "None"] = constants.map (·.1) from rfl,
      List.mem_map]
    constructor
    · rintro ⟨v, h⟩
      obtain ⟨name, token, hname, -, htrim⟩ :=
        (parse_eq_ok_iff_constant hstart).1 (ofText_eq_literal_iff.1 h)
      exact ⟨(name, token), hname, by rw [htrim, String.ofList_toList]⟩
    · rintro ⟨⟨name, token⟩, hname, htrim⟩
      obtain ⟨v, hv⟩ := value?_constant hname
      refine ⟨v, ofText_eq_literal_iff.2 ((parse_eq_ok_iff_constant hstart).2 ?_)⟩
      refine ⟨name, token, hname, hv, ?_⟩
      rw [← String.toList_ofList (l := Text.trim text.toList), ← htrim]
  · rintro ⟨rest, hrest⟩
    obtain ⟨e, he⟩ := parse_points hrest.symm
    rw [ofText, he]
  · rw [ofText] at h
    cases hparse : parse text with
    | ok v =>
      rw [hparse] at h
      cases h
    | error e =>
      rw [hparse] at h
      exact (Operand.name.inj h).symm

theorem Operand.ofText_keepsNames_words :
    (∃ c ∈ (" None\t".toList.dropWhile Text.isBlank).head?, Text.isAlphabetic c ∨ c = '_') ∧
      (∃ v, ofText " None\t" = .literal v) ∧
      (∃ c ∈ ("true.5".toList.dropWhile Text.isBlank).head?, Text.isAlphabetic c ∨ c = '_') ∧
      (¬∃ v, ofText "true.5" = .literal v) ∧
      "..".toList <+: "..e5".toList ∧ ofText "..e5" = .name "..e5" := by
  have hnone : ∃ c ∈ (" None\t".toList.dropWhile Text.isBlank).head?,
      Text.isAlphabetic c ∨ c = '_' := ⟨'N', by decide, .inl (by decide +kernel)⟩
  have htrue : ∃ c ∈ ("true.5".toList.dropWhile Text.isBlank).head?,
      Text.isAlphabetic c ∨ c = '_' := ⟨'t', by decide, .inl (by decide +kernel)⟩
  have hpoints : "..".toList <+: "..e5".toList := by decide
  exact ⟨hnone, ((ofText_keepsNames _).1 hnone).2 (by decide +kernel), htrue,
    fun h => absurd (((ofText_keepsNames _).1 htrue).1 h) (by decide +kernel), hpoints,
    (ofText_keepsNames _).2.1 hpoints⟩

/-- The text of a whole number is a literal, the same number everywhere, if 64 bits hold the number.
Otherwise it is refused as a number and taken for a name, and has the value that the scope has for
that name. -/
theorem Operand.ofText_integer {text : String} {n : Int} (h : WritesInt text.toList n) :
    (Fits n → ∃ m : Int64, m.toInt = n ∧ ofText text = .literal (.int m)) ∧
      (¬Fits n → parse text = .error ⟨.invalidNumber text, 0⟩ ∧
        ofText text = .name text ∧
          ∀ s, (ofText text).evaluate s = (s.lookup? text).getD .empty) := by
  constructor
  · intro hfits
    refine ⟨Int64.ofInt n, hfits.toInt_ofInt, ?_⟩
    rw [ofText, parse_of_fits h hfits]
  · intro hfits
    have hparse := parse_of_not_fits h hfits
    have hname : ofText text = .name text := by rw [ofText, hparse]
    refine ⟨hparse, hname, fun s => ?_⟩
    rw [hname]
    exact s.resolve_undotted h.not_mem_point

theorem Operand.ofText_integer_ends :
    WritesInt "-0009223372036854775808".toList (-9223372036854775808) ∧
      ofText "-0009223372036854775808" = .literal (.int Int64.minValue) ∧
      WritesInt "9223372036854775808".toList 9223372036854775808 ∧
      ofText "9223372036854775808" = .name "9223372036854775808" := by
  have hlow : WritesInt "-0009223372036854775808".toList (-9223372036854775808) :=
    @WritesInt.minus "0009223372036854775808".toList (by decide) (List.all_eq_true.1 rfl)
  have hhigh : WritesInt "9223372036854775808".toList 9223372036854775808 :=
    @WritesInt.plain "9223372036854775808".toList (by decide) (List.all_eq_true.1 rfl)
  obtain ⟨m, hm, hliteral⟩ := (ofText_integer hlow).1 (by decide)
  obtain rfl : m = Int64.minValue := Int64.toInt_inj.1 hm
  exact ⟨hlow, hliteral, hhigh, ((ofText_integer hhigh).2 (by decide)).2.1⟩

theorem Operand.not_ofText_integer :
    ¬ ∀ (text : String) (n : Int), WritesInt text.toList n → ∃ v, ofText text = .literal v := by
  intro h
  have hhigh : WritesInt "9223372036854775808".toList 9223372036854775808 :=
    @WritesInt.plain "9223372036854775808".toList (by decide) (List.all_eq_true.1 rfl)
  obtain ⟨v, hv⟩ := h _ _ hhigh
  rw [ofText, parse_of_not_fits hhigh (by decide)] at hv
  cases hv

end Stencil
