import Stencil.Proofs.Literal.Integers

/-! Quoted texts and whole numbers as literals. A quoted text reads as itself but for the characters
that quotes write by their code points: literals know no such escapes and keep them as they stand,
so a text that has such a character gets longer. -/

namespace Stencil

namespace Text

/-- Quotes write this character as a backslash with `0`, or with `u` and its code point. -/
def isCoded (c : Char) : Bool :=
  match escape c with
  | '\\' :: d :: _ => d == '0' || d == 'u'
  | _ => false

/-- What a literal makes of the characters that quotes write for `c`. -/
def rereadChar (c : Char) : List Char := if isCoded c then escape c else [c]

/-- What a literal makes of a quoted text. -/
def reread (s : String) : String := String.ofList (s.toList.flatMap rereadChar)

/-- No character of the text is written by its code point. -/
def IsPlain (s : String) : Prop := ∀ c ∈ s.toList, isCoded c = false

/-- The characters with an escape of two characters. -/
def shortEscapes : List (Char × List Char) :=
  [('\x00', ['\\', '0']), ('\t', ['\\', 't']), ('\n', ['\\', 'n']), ('\r', ['\\', 'r']),
    ('"', ['\\', '"']), ('\\', ['\\', '\\'])]

theorem escape_cases (c : Char) : (c, escape c) ∈ shortEscapes ∨
    escape c = [c] ∧ c ≠ '"' ∧ c ≠ '\\' ∨
    escape c = '\\' :: 'u' :: '\x7b' :: Nat.toDigits 16 c.toNat ++ ['\x7d'] := by
  unfold escape shortEscapes
  split
  · simp [*]
  split
  · simp [*]
  split
  · simp [*]
  split
  · simp [*]
  split
  · simp [*]
  split
  · simp [*]
  split
  · exact .inr (.inl ⟨rfl, ‹_›, ‹_›⟩)
  · exact .inr (.inr rfl)

theorem isCoded_of_escape {c : Char} (h : escape c = [c]) : isCoded c = false := by
  unfold isCoded
  rw [h]
  split
  · next heq => exact nomatch heq
  · rfl

/-- Visible characters and those with a short escape that literals know have no code. -/
theorem not_isCoded {c : Char} (h : c ∈ ['"', '\\', '\n', '\t', '\r'] ∨ isVisible c) :
    isCoded c = false := by
  have hshort : ['"', '\\', '\n', '\t', '\r'].all (!isCoded ·) := by decide +kernel
  by_cases hmem : c ∈ ['"', '\\', '\n', '\t', '\r']
  · simpa using List.all_eq_true.1 hshort c hmem
  · have hvisible := h.resolve_left hmem
    have hnul : c ≠ '\x00' := by
      rintro rfl
      exact absurd hvisible (by decide +kernel)
    simp only [List.mem_cons, List.not_mem_nil, or_false, not_or] at hmem
    obtain ⟨hquote, hslash, hline, htab, hreturn⟩ := hmem
    refine isCoded_of_escape ?_
    rw [escape, if_neg hnul, if_neg htab, if_neg hline, if_neg hreturn, if_neg hquote,
      if_neg hslash, if_pos hvisible]

/-- The digits of a code point mean nothing else between quotes. -/
theorem digit_of_mem_toDigits {n : Nat} {d : Char} (h : d ∈ Nat.toDigits 16 n) :
    d ≠ '"' ∧ d ≠ '\\' := by
  have hdigit : ∀ k < 16, k.digitChar ≠ '"' ∧ k.digitChar ≠ '\\' := by decide
  induction n using Nat.strongRecOn with
  | _ n ih =>
    rw [Nat.toDigits_eq_if (by decide)] at h
    split at h
    · next hn =>
      obtain rfl := List.mem_singleton.1 h
      exact hdigit n hn
    · next hn =>
      rcases List.mem_append.1 h with h | h
      · exact ih (n / 16) (by omega) h
      · obtain rfl := List.mem_singleton.1 h
        exact hdigit (n % 16) (by omega)

theorem length_escape {c : Char} (h : isCoded c) : 1 < (escape c).length := by
  unfold isCoded at h
  split at h
  · next heq =>
    rw [heq]
    exact Nat.le_add_left 2 _
  · exact absurd h Bool.false_ne_true

theorem length_le_rereadChar (c : Char) : 1 ≤ (rereadChar c).length := by
  unfold rereadChar
  split
  · next h => exact Nat.le_of_lt (length_escape h)
  · exact Nat.le_refl 1

theorem length_le_flatMap (cs : List Char) : cs.length ≤ (cs.flatMap rereadChar).length := by
  induction cs with
  | nil => exact Nat.le_refl 0
  | cons c cs ih =>
    have := length_le_rereadChar c
    rw [List.flatMap_cons, List.length_append, List.length_cons]
    omega

theorem length_le_reread (s : String) : s.length ≤ (reread s).length := by
  rw [reread, String.length_ofList, ← String.length_toList]
  exact length_le_flatMap s.toList

/-- A text with a character that is written by its code point gets longer. -/
theorem length_lt_reread {s : String} (h : ¬IsPlain s) : s.length < (reread s).length := by
  unfold IsPlain at h
  push Not at h
  obtain ⟨c, hc, hcoded⟩ := h
  have hcoded : isCoded c := by simpa using hcoded
  have hlonger : 1 < (rereadChar c).length := by
    rw [rereadChar, if_pos hcoded]
    exact length_escape hcoded
  obtain ⟨before, after, hsplit⟩ := List.append_of_mem hc
  have hbefore := length_le_flatMap before
  have hafter := length_le_flatMap after
  rw [reread, String.length_ofList, ← String.length_toList, hsplit]
  simp only [List.flatMap_append, List.flatMap_cons, List.length_append, List.length_cons]
  omega

theorem reread_of_isPlain {s : String} (h : IsPlain s) : reread s = s := by
  have hchars : s.toList.flatMap rereadChar = s.toList := by
    rw [List.flatMap_congr (g := fun c => [c]) fun c hc => ?_]
    · exact List.flatMap_singleton' _
    · rw [rereadChar, h c hc]
      rfl
  rw [reread, hchars, String.ofList_toList]

theorem reread_eq_iff (s : String) : reread s = s ↔ IsPlain s := by
  refine ⟨fun h => ?_, reread_of_isPlain⟩
  by_contra hplain
  have := length_lt_reread hplain
  rw [h] at this
  exact Nat.lt_irrefl _ this

end Text

namespace Literal

open Text

variable {cs body behind : List Char}

theorem Quotes.append_plain {text : List Char} (h : ∀ c ∈ text, c ≠ '"' ∧ c ≠ '\\')
    (rest : Quotes '"' cs body) : Quotes '"' (text ++ cs) (text ++ body) := by
  induction text with
  | nil => exact rest
  | cons c text ih =>
    obtain ⟨hc, htext⟩ := List.forall_mem_cons.1 h
    exact .plain hc.1 hc.2 (ih htext)

theorem Quotes.escape_append (c : Char) (rest : Quotes '"' cs body) :
    Quotes '"' (Text.escape c ++ cs) (rereadChar c ++ body) := by
  rcases escape_cases c with hshort | ⟨hescape, hquote, hslash⟩ | hescape
  · -- `0` is unknown as an escape and stays as it is, the others mean what they are written for
    have hall : ∀ e ∈ shortEscapes, Text.escape e.1 = e.2 ∧
        ∃ d, e.2 = ['\\', d] ∧ unescape d = rereadChar e.1 := by
      simp only [shortEscapes, List.forall_mem_cons]
      exact ⟨⟨by decide, '0', rfl, by decide⟩, ⟨by decide, 't', rfl, by decide⟩,
        ⟨by decide, 'n', rfl, by decide⟩, ⟨by decide, 'r', rfl, by decide⟩,
        ⟨by decide, '"', rfl, by decide⟩, ⟨by decide, '\\', rfl, by decide⟩, nofun⟩
    obtain ⟨-, d, hescape, hread⟩ := hall _ hshort
    rw [show Text.escape c = _ from hescape, ← show unescape d = rereadChar c from hread]
    exact .escape rest
  · rw [hescape, rereadChar, isCoded_of_escape hescape]
    exact .plain hquote hslash rest
  · have hcoded : isCoded c := by
      rw [isCoded, hescape]
      rfl
    rw [rereadChar, if_pos hcoded, hescape]
    refine .escape (c := 'u') (Quotes.append_plain ?_ rest)
    intro d hd
    rcases List.mem_cons.1 hd with rfl | hd
    · decide
    rcases List.mem_append.1 hd with hd | hd
    · exact digit_of_mem_toDigits hd
    · obtain rfl := List.mem_singleton.1 hd
      decide

theorem spells_quote (s : String) (behind : List Char) :
    Spells (quote s).toList behind (.str (reread s)) := by
  have hquotes : ∀ text : List Char,
      Quotes '"' (text.flatMap Text.escape) (text.flatMap rereadChar) := by
    intro text
    induction text with
    | nil => exact .nil
    | cons c text ih => exact ih.escape_append c
  rw [quote, String.toList_ofList]
  exact .text (.inr rfl) (hquotes s.toList)

/-- What can stand behind a value inside a list or map. -/
def Ends (behind : List Char) : Prop := ∀ c ∈ behind.head?, c ∈ [',', ']', '\x7d']

theorem Ends.not_goesOn (h : Ends behind) (b : Char) : ∀ c ∈ behind.head?, ¬goesOn b c := by
  intro c hc
  have hall : ∀ c ∈ [',', ']', '\x7d'], goesOn 'e' c = false ∧ goesOn 'x' c = false := by
    simp only [List.forall_mem_cons]
    exact ⟨by decide, by decide, by decide, nofun⟩
  obtain ⟨hletter, hother⟩ := hall c (h c hc)
  have hb : goesOn b c = goesOn 'e' c ∨ goesOn b c = goesOn 'x' c := by
    unfold goesOn
    cases isExponentLetter b
    · exact .inr rfl
    · exact .inl rfl
  rcases hb with hb | hb
  · rw [hb, hletter]
    exact Bool.false_ne_true
  · rw [hb, hother]
    exact Bool.false_ne_true

theorem Ends.not_isWordPart (h : Ends behind) : ∀ c ∈ behind.head?, ¬isWordPart c := by
  intro c hc
  have hall : ∀ c ∈ [',', ']', '\x7d'], ¬isWordPart c := by
    simp only [List.forall_mem_cons]
    exact ⟨by decide +kernel, by decide +kernel, by decide +kernel, nofun⟩
  exact hall c (h c hc)

/-! Whole numbers. -/

theorem writesInt_toString (n : Int) : WritesInt (toString n).toList n := by
  have hdigits (m : Nat) : ∀ d ∈ Nat.toDigits 10 m, d.isDigit := fun _ hd =>
    Nat.isDigit_of_mem_toDigits (by decide) (by decide) hd
  cases n with
  | ofNat m =>
    have hwrites := WritesInt.plain Nat.toDigits_ne_nil (hdigits m)
    rw [Nat.ofDigitChars_ten_toDigits, ← Nat.toList_repr] at hwrites
    exact hwrites
  | negSucc m =>
    have hwrites := WritesInt.minus Nat.toDigits_ne_nil (hdigits (m + 1))
    have htext : (toString (Int.negSucc m)).toList = '-' :: Nat.toDigits 10 (m + 1) := by
      show ("-" ++ (m + 1).repr).toList = _
      rw [String.toList_append, Nat.toList_repr]
      rfl
    rw [Nat.ofDigitChars_ten_toDigits] at hwrites
    rw [htext]
    exact hwrites

theorem spells_int (n : Int64) (h : Ends behind) :
    Spells (toString n.toInt).toList behind (.int n) := by
  have hspells := (writesInt_toString n.toInt).spells (fits_toInt n) fun b _ => h.not_goesOn b
  rwa [Int64.ofInt_toInt] at hspells

end Literal

end Stencil
