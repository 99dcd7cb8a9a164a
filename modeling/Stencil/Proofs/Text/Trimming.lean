import Mathlib.Data.List.DropRight
import Stencil.Text.Blank

/-! Trimming. A trimmed text is bare: it has no character at its ends that is trimmed off. The text
that was trimmed is that text with such characters around it. -/

namespace Stencil.Text

section

variable (p : Char → Bool)

/-- No character that satisfies `p` stands at either end. -/
structure Bare (cs : List Char) : Prop where
  front : ∀ c ∈ cs.head?, p c = false
  back : ∀ c ∈ cs.getLast?, p c = false

/-- A text with nothing but characters that satisfy `p` put before it and behind it. -/
def Around (inner outer : List Char) : Prop :=
  ∃ front back, (∀ c ∈ front, p c) ∧ (∀ c ∈ back, p c) ∧ outer = front ++ inner ++ back

end

variable {p q : Char → Bool} {cs front inner back : List Char}

theorem bare_or_iff : Bare (fun c => p c || q c) cs ↔ Bare p cs ∧ Bare q cs := by
  constructor
  · intro h
    have hfront (c : Char) (hc : c ∈ cs.head?) := Bool.or_eq_false_iff.1 (h.front c hc)
    have hback (c : Char) (hc : c ∈ cs.getLast?) := Bool.or_eq_false_iff.1 (h.back c hc)
    exact ⟨⟨fun c hc => (hfront c hc).1, fun c hc => (hback c hc).1⟩,
      ⟨fun c hc => (hfront c hc).2, fun c hc => (hback c hc).2⟩⟩
  · rintro ⟨hp, hq⟩
    exact ⟨fun c hc => Bool.or_eq_false_iff.2 ⟨hp.front c hc, hq.front c hc⟩,
      fun c hc => Bool.or_eq_false_iff.2 ⟨hp.back c hc, hq.back c hc⟩⟩

theorem trimBy_eq (p : Char → Bool) (cs : List Char) :
    trimBy p cs = (cs.dropWhile p).rdropWhile p := rfl

theorem dropWhile_eq_self (h : ∀ c ∈ cs.head?, p c = false) : cs.dropWhile p = cs := by
  cases cs with
  | nil => rfl
  | cons c cs => exact List.dropWhile_cons_of_neg (by simp [h c rfl])

theorem rdropWhile_eq_self (h : ∀ c ∈ cs.getLast?, p c = false) : cs.rdropWhile p = cs := by
  rw [List.rdropWhile, dropWhile_eq_self (by rwa [List.head?_reverse]), List.reverse_reverse]

theorem not_of_mem_head?_dropWhile (p : Char → Bool) (cs : List Char) :
    ∀ c ∈ (cs.dropWhile p).head?, p c = false := by
  intro c hc
  have hnot := List.head?_dropWhile_not p cs
  rwa [Option.mem_def.1 hc] at hnot

theorem Bare.of_isPrefix {rest : List Char} (h : ∀ c ∈ cs.head?, p c = false) (hrest : rest <+: cs)
    (hback : ∀ c ∈ rest.getLast?, p c = false) : Bare p rest := by
  refine ⟨fun c hc => h c ?_, hback⟩
  obtain ⟨behind, rfl⟩ := hrest
  cases rest with
  | nil => cases hc
  | cons d rest => exact hc

theorem bare_trimBy (p : Char → Bool) (cs : List Char) : Bare p (trimBy p cs) := by
  refine .of_isPrefix (not_of_mem_head?_dropWhile p cs) (List.rdropWhile_prefix p _) ?_
  intro c hc
  refine not_of_mem_head?_dropWhile p (cs.dropWhile p).reverse c ?_
  rwa [← List.getLast?_reverse]

theorem Bare.trimBy_eq_self (h : Bare p cs) : trimBy p cs = cs := by
  rw [trimBy_eq, dropWhile_eq_self h.front, rdropWhile_eq_self h.back]

theorem isInfix_trimBy (p : Char → Bool) (cs : List Char) : trimBy p cs <:+: cs :=
  (List.rdropWhile_prefix p _).isInfix.trans (List.dropWhile_suffix p).isInfix

theorem bare_of_length_le (h : cs.length ≤ (trimBy p cs).length) : Bare p cs :=
  (isInfix_trimBy p cs).eq_of_length_le h ▸ bare_trimBy p cs

theorem around_trimBy (p : Char → Bool) (cs : List Char) : Around p (trimBy p cs) cs := by
  refine ⟨cs.takeWhile p, (cs.dropWhile p).rtakeWhile p, fun c hc => List.mem_takeWhile_imp hc,
    fun c hc => List.mem_rtakeWhile_imp hc, ?_⟩
  rw [trimBy_eq, List.append_assoc, List.rdropWhile_append_rtakeWhile,
    List.takeWhile_append_dropWhile]

/-- Trimming stops at the first character of the inner text from both sides. -/
theorem trimBy_append (h : Bare p inner) (hne : inner ≠ []) :
    trimBy p (front ++ inner ++ back) = front.dropWhile p ++ inner ++ back.rdropWhile p := by
  have hfront (before behind : List Char) (hhead : ∀ c ∈ behind.head?, p c = false) :
      (before ++ behind).dropWhile p = before.dropWhile p ++ behind := by
    rw [List.dropWhile_append, dropWhile_eq_self hhead]
    split
    · next hnil => rw [List.isEmpty_iff.1 hnil, List.nil_append]
    · rfl
  have hhead : ∀ c ∈ (inner ++ back).head?, p c = false := by
    rw [List.head?_append_of_ne_nil _ hne]
    exact h.front
  have hlast : ∀ c ∈ (front.dropWhile p ++ inner).reverse.head?, p c = false := by
    rw [List.head?_reverse, List.getLast?_append_of_ne_nil _ hne]
    exact h.back
  rw [trimBy_eq, List.append_assoc, hfront front _ hhead, ← List.append_assoc, List.rdropWhile,
    List.reverse_append, hfront _ _ hlast, List.reverse_append, List.reverse_reverse]
  rfl

end Stencil.Text
