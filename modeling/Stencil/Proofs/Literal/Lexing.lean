import Mathlib.Data.List.Chain
import Stencil.Fallible
import Stencil.Literal.Token
import Stencil.Table

/-! The tokens of a text, with blanks skipped between them and nothing else left over. A number or a
word goes as far as its characters do, a quoted text up to its closing quote. -/

namespace Stencil

namespace Literal

def isExponentLetter (c : Char) : Bool := c == 'e' || c == 'E'

/-- Whether `c` goes on a number behind `before`. A sign does so behind an exponent letter only. -/
def goesOn (before c : Char) : Bool :=
  c.isDigit || c == '.' || isExponentLetter c || isExponentLetter before && (c == '+' || c == '-')

/-- What is written between quotes, and the text that it means. -/
inductive Quotes (quote : Char) : List Char → List Char → Prop where
  | nil : Quotes quote [] []
  | plain {c : Char} {cs body : List Char} (inside : c ≠ quote) (plain : c ≠ '\\')
    (rest : Quotes quote cs body) : Quotes quote (c :: cs) (c :: body)
  | escape {c : Char} {cs body : List Char} (rest : Quotes quote cs body) :
    Quotes quote ('\\' :: c :: cs) (unescape c ++ body)

/-- What is written for one token in front of the rest of a text. -/
inductive Spells : List Char → List Char → Token → Prop where
  | number {text behind : List Char} {token : Token} (starts : startsNumber (text ++ behind))
    (run : text.IsChain (goesOn · ·)) (value : number? text = some token)
    (ends : ∀ b ∈ text.getLast?, ∀ c ∈ behind.head?, ¬goesOn b c) : Spells text behind token
  | text {quote : Char} {written body behind : List Char} (mark : quote = '\'' ∨ quote = '"')
    (quotes : Quotes quote written body) :
    Spells (quote :: written ++ [quote]) behind (.str (String.ofList body))
  | word {name : String} {behind : List Char} {token : Token} (mem : (name, token) ∈ constants)
    (ends : ∀ c ∈ behind.head?, ¬isWordPart c) : Spells name.toList behind token
  | mark {c : Char} {behind : List Char} {token : Token} (mem : (c, token) ∈ punctuation) :
    Spells [c] behind token

/-- A text that consists of these tokens, with blanks anywhere between them. -/
inductive Lexes : List Char → List Token → Prop where
  | nil : Lexes [] []
  | blank {c : Char} {cs : List Char} {ts : List Token} (blank : Text.isBlank c)
    (rest : Lexes cs ts) : Lexes (c :: cs) ts
  | token {text behind : List Char} {token : Token} {ts : List Token}
    (spells : Spells text behind token) (rest : Lexes behind ts) :
    Lexes (text ++ behind) (token :: ts)

variable {quote c b : Char} {cs text written behind body : List Char} {n : Nat} {token : Token}

/-! Numbers. -/

theorem not_isExponentLetter (h : c.isDigit || c == '.') : isExponentLetter c = false := by
  rw [isExponentLetter, Bool.or_eq_false_iff, beq_eq_false_iff_ne, beq_eq_false_iff_ne]
  constructor <;> (rintro rfl; exact nomatch h)

theorem numberRun_cons (b c : Char) (cs : List Char) :
    numberRun (isExponentLetter b) (c :: cs) =
      if goesOn b c then c :: numberRun (isExponentLetter c) cs else [] := by
  rw [numberRun, goesOn, show (c == 'e' || c == 'E') = isExponentLetter c from rfl]
  by_cases hdigit : c.isDigit || c == '.'
  · rw [if_pos hdigit, hdigit, not_isExponentLetter hdigit]
    rfl
  · rw [if_neg hdigit, Bool.eq_false_iff.2 hdigit]
    by_cases hletter : isExponentLetter c
    · rw [if_pos hletter, hletter]
      rfl
    · rw [if_neg hletter, Bool.eq_false_iff.2 hletter]
      rfl

theorem numberRun_spec (b : Char) (cs : List Char) : ∃ behind,
    cs = numberRun (isExponentLetter b) cs ++ behind ∧
      (b :: numberRun (isExponentLetter b) cs).IsChain (goesOn · ·) ∧
        ∀ d ∈ (b :: numberRun (isExponentLetter b) cs).getLast?, ∀ c ∈ behind.head?,
          ¬goesOn d c := by
  induction cs generalizing b with
  | nil => exact ⟨[], rfl, .singleton b, fun _ _ _ h => nomatch h⟩
  | cons c cs ih =>
    rw [numberRun_cons]
    by_cases hc : goesOn b c
    · rw [if_pos hc]
      obtain ⟨behind, hcs, hrun, hends⟩ := ih c
      exact ⟨behind, congrArg (c :: ·) hcs, .cons_cons hc hrun, hends⟩
    · rw [if_neg hc]
      refine ⟨c :: cs, rfl, .singleton b, fun d hd e he => ?_⟩
      obtain rfl := Option.some.inj hd
      obtain rfl := Option.some.inj he
      exact hc

theorem numberRun_append (hrun : (b :: text).IsChain (goesOn · ·))
    (hends : ∀ d ∈ (b :: text).getLast?, ∀ c ∈ behind.head?, ¬goesOn d c) :
    numberRun (isExponentLetter b) (text ++ behind) = text := by
  induction text generalizing b with
  | nil =>
    cases behind with
    | nil => rfl
    | cons c behind => rw [List.nil_append, numberRun_cons, if_neg (hends b rfl c rfl)]
  | cons c text ih =>
    obtain ⟨hc, hrest⟩ := List.isChain_cons_cons.1 hrun
    rw [List.cons_append, numberRun_cons, if_pos hc, ih hrest hends]

theorem startsNumber_cons (h : c ≠ '-') (cs : List Char) :
    startsNumber (c :: cs) = (c.isDigit || c == '.') := by
  unfold startsNumber
  split
  · next heq => exact absurd (List.cons.inj heq).1 h
  · next heq => rw [(List.cons.inj heq).1]
  · next heq => exact nomatch heq

theorem numberText_cons (h : startsNumber (c :: cs)) :
    numberText (c :: cs) = c :: numberRun (isExponentLetter c) cs := by
  by_cases hminus : c = '-'
  · rw [hminus]
    rfl
  · rw [startsNumber_cons hminus] at h
    have hself : goesOn c c := by rw [goesOn, h]; rfl
    have hrun := numberRun_cons c c cs
    rw [if_pos hself, not_isExponentLetter h] at hrun
    rw [not_isExponentLetter h, ← hrun]
    unfold numberText
    split
    · next heq => exact absurd (List.cons.inj heq).1 hminus
    · rfl

/-! Quoted texts. -/

theorem quotes_of_textBody {read : Nat} (h : textBody quote read cs = .ok (body, n)) :
    ∃ written behind, cs = written ++ quote :: behind ∧ Quotes quote written body ∧
      n = read + written.length + 1 := by
  fun_induction textBody quote read cs generalizing body n with
  | case1 => exact nomatch h
  | case2 read cs =>
    obtain ⟨rfl, rfl⟩ := Prod.mk.inj (Except.ok.inj h)
    exact ⟨[], cs, rfl, .nil, rfl⟩
  | case3 => exact nomatch h
  | case4 read d rest hne ih =>
    obtain ⟨⟨inner, m⟩, hinner, hrest⟩ := bind_eq_ok h
    obtain ⟨rfl, rfl⟩ := Prod.mk.inj (Except.ok.inj hrest)
    obtain ⟨written, behind, rfl, hquotes, rfl⟩ := ih hinner
    refine ⟨'\\' :: d :: written, behind, rfl, .escape hquotes, ?_⟩
    rw [List.length_cons, List.length_cons]
    omega
  | case5 read c cs hquote hslash ih =>
    obtain ⟨⟨inner, m⟩, hinner, hrest⟩ := bind_eq_ok h
    obtain ⟨rfl, rfl⟩ := Prod.mk.inj (Except.ok.inj hrest)
    obtain ⟨written, behind, rfl, hquotes, rfl⟩ := ih hinner
    refine ⟨c :: written, behind, rfl, .plain hquote hslash hquotes, ?_⟩
    rw [List.length_cons]
    omega

theorem Quotes.textBody (h : Quotes quote written body) (hquote : quote ≠ '\\') (read : Nat)
    (behind : List Char) : textBody quote read (written ++ quote :: behind) =
      .ok (body, read + written.length + 1) := by
  induction h generalizing read with
  | nil =>
    rw [List.nil_append]
    unfold Literal.textBody
    rw [if_pos rfl]
    rfl
  | @plain c cs body hne hslash _ ih =>
    rw [List.cons_append]
    unfold Literal.textBody
    rw [if_neg hne, if_neg hslash, ih, ok_bind, List.length_cons, Nat.add_right_comm read 1,
      Nat.add_assoc read]
    rfl
  | @escape c cs body _ ih =>
    rw [List.cons_append, List.cons_append]
    unfold Literal.textBody
    rw [if_neg hquote.symm, if_pos rfl]
    dsimp only
    rw [ih, ok_bind, List.length_cons, List.length_cons, Nat.add_right_comm read 2,
      Nat.add_assoc read]
    rfl

/-! One token. -/

theorem spells_of_readNumber (hstarts : startsNumber (c :: cs))
    (h : readNumber (c :: cs) = .ok (token, n)) :
    ∃ text behind, c :: cs = text ++ behind ∧ n = text.length ∧ Spells text behind token := by
  obtain ⟨behind, hcs, hrun, hends⟩ := numberRun_spec c cs
  unfold readNumber at h
  rw [numberText_cons hstarts] at h
  dsimp only at h
  split at h
  · next token' hvalue =>
    obtain ⟨rfl, rfl⟩ := Prod.mk.inj (Except.ok.inj h)
    have hsplit : c :: cs = c :: numberRun (isExponentLetter c) cs ++ behind :=
      congrArg (c :: ·) hcs
    rw [hsplit] at hstarts
    exact ⟨_, behind, hsplit, rfl, .number hstarts hrun hvalue hends⟩
  · exact nomatch h

theorem spells_of_readText (hmark : quote = '\'' ∨ quote = '"')
    (h : readText quote cs = .ok (token, n)) :
    ∃ text behind, quote :: cs = text ++ behind ∧ n = text.length ∧ Spells text behind token := by
  obtain ⟨⟨body, m⟩, hbody, hrest⟩ := bind_eq_ok h
  obtain ⟨rfl, rfl⟩ := Prod.mk.inj (Except.ok.inj hrest)
  obtain ⟨written, behind, rfl, hquotes, rfl⟩ := quotes_of_textBody hbody
  refine ⟨quote :: written ++ [quote], behind, ?_, ?_, .text hmark hquotes⟩
  · rw [List.append_assoc]
    rfl
  · rw [List.length_append, List.length_cons, List.length_singleton]
    omega

theorem spells_of_readWord (h : readWord cs = .ok (token, n)) :
    ∃ text behind, cs = text ++ behind ∧ n = text.length ∧ Spells text behind token := by
  unfold readWord at h
  dsimp only at h
  split at h
  · next token' hword =>
    obtain ⟨rfl, rfl⟩ := Prod.mk.inj (Except.ok.inj h)
    refine ⟨(String.ofList (cs.takeWhile isWordPart)).toList, cs.dropWhile isWordPart, ?_, rfl,
      .word (mem_of_lookup hword) fun c hc => ?_⟩
    · rw [String.toList_ofList, List.takeWhile_append_dropWhile]
    · have hhead := List.head?_dropWhile_not isWordPart cs
      rw [Option.mem_def.1 hc] at hhead
      exact Bool.eq_false_iff.1 hhead
  · exact nomatch h

theorem spells_of_readToken (h : readToken c cs = .ok (token, n)) :
    ∃ text behind, c :: cs = text ++ behind ∧ n = text.length ∧ Spells text behind token := by
  unfold readToken at h
  split at h
  · next hstarts => exact spells_of_readNumber hstarts h
  · split at h
    · next hquote => exact spells_of_readText (by simpa using hquote) h
    · split at h
      · exact spells_of_readWord h
      · split at h
        · next token' hmark =>
          obtain ⟨rfl, rfl⟩ := Prod.mk.inj (Except.ok.inj h)
          exact ⟨[c], cs, rfl, rfl, .mark (mem_of_lookup hmark)⟩
        · exact nomatch h

theorem not_isBlank_of_startsNumber (h : startsNumber (c :: cs)) : ¬Text.isBlank c := by
  by_cases hminus : c = '-'
  · rw [hminus]
    decide
  · rw [startsNumber_cons hminus] at h
    rcases Bool.or_eq_true_iff.1 h with hdigit | hpoint
    · rw [Char.isDigit, Bool.and_eq_true, decide_eq_true_eq, decide_eq_true_eq] at hdigit
      have hlow : 48 ≤ c.toNat := hdigit.1
      have hhigh : c.toNat ≤ 57 := hdigit.2
      simp only [Text.isBlank, Bool.or_eq_true, Bool.and_eq_true, decide_eq_true_eq, beq_iff_eq]
      omega
    · rw [beq_iff_eq.1 hpoint]
      decide

/-- Neither a number nor a quoted text starts here, nor is there a blank. -/
def isOther (c : Char) : Bool :=
  !(c.isDigit || c == '.') && c != '-' && !(c = '\'' || c = '"') && !Text.isBlank c

theorem isOther_spec (h : isOther c) (cs : List Char) : ¬Text.isBlank c ∧
    ¬startsNumber (c :: cs) ∧ ¬(c = '\'' || c = '"') := by
  simp only [isOther, Bool.and_eq_true, bne_iff_ne, Bool.not_eq_true'] at h
  obtain ⟨⟨⟨hnumber, hminus⟩, hquote⟩, hblank⟩ := h
  rw [startsNumber_cons hminus]
  exact ⟨Bool.eq_false_iff.1 hblank, Bool.eq_false_iff.1 hnumber, Bool.eq_false_iff.1 hquote⟩

theorem Spells.readToken (h : Spells text behind token) : ∃ c cs, text ++ behind = c :: cs ∧
    ¬Text.isBlank c ∧ readToken c cs = .ok (token, text.length) := by
  cases h with
  | number starts run value ends =>
    cases text with
    | nil => exact nomatch value
    | cons c text =>
      refine ⟨c, text ++ behind, rfl, not_isBlank_of_startsNumber starts, ?_⟩
      rw [List.cons_append] at starts
      rw [Literal.readToken, if_pos starts, readNumber, numberText_cons starts,
        numberRun_append run ends, value]
  | @text quote written body _ mark quotes =>
    refine ⟨quote, written ++ quote :: behind, ?_, ?_, ?_⟩
    · rw [List.append_assoc]
      rfl
    · rcases mark with rfl | rfl <;> decide
    · have hstarts : ¬startsNumber (quote :: (written ++ quote :: behind)) := by
        rcases mark with rfl | rfl <;> exact nofun
      have hquote : quote ≠ '\\' := by rcases mark with rfl | rfl <;> decide
      rw [Literal.readToken, if_neg hstarts, if_pos (by simpa using mark), readText,
        quotes.textBody hquote, ok_bind, List.length_append, List.length_cons,
        List.length_singleton, Nat.add_comm 1]
      rfl
  | @word name _ _ mem ends =>
    have hall : ∀ e ∈ constants, constants.lookup e.1 = some e.2 ∧ e.1.toList.all isWordPart ∧
        e.1.toList.head?.any fun c => isOther c && isWordStart c := by decide +kernel
    obtain ⟨hlookup, hpart, hhead⟩ := hall _ mem
    cases hname : name.toList with
    | nil =>
      rw [hname] at hhead
      exact nomatch hhead
    | cons c cs =>
      rw [hname, List.head?_cons, Option.any_some, Bool.and_eq_true] at hhead
      obtain ⟨hblank, hstarts, hquote⟩ := isOther_spec hhead.1 (cs ++ behind)
      have hword : (c :: (cs ++ behind)).takeWhile isWordPart = name.toList := by
        have hpart : ∀ d ∈ c :: cs, isWordPart d := List.all_eq_true.1 (hname ▸ hpart)
        rw [← List.cons_append, List.takeWhile_append_of_pos hpart, hname]
        cases behind with
        | nil => rw [List.takeWhile_nil, List.append_nil]
        | cons d behind => rw [List.takeWhile_cons_of_neg (ends d rfl), List.append_nil]
      refine ⟨c, cs ++ behind, rfl, hblank, ?_⟩
      rw [Literal.readToken, if_neg hstarts, if_neg hquote, if_pos hhead.2, readWord, hword,
        String.ofList_toList]
      dsimp only at hlookup ⊢
      rw [hlookup, ← hname]
      rfl
  | @mark c _ _ mem =>
    have hall : ∀ e ∈ punctuation, punctuation.lookup e.1 = some e.2 ∧ isOther e.1 ∧
        ¬isWordStart e.1 := by decide +kernel
    obtain ⟨hlookup, hother, hstart⟩ := hall _ mem
    obtain ⟨hblank, hstarts, hquote⟩ := isOther_spec hother behind
    refine ⟨c, behind, rfl, hblank, ?_⟩
    rw [Literal.readToken, if_neg hstarts, if_neg hquote, if_neg hstart]
    dsimp only at hlookup ⊢
    rw [hlookup]
    rfl

theorem Spells.ne_stop (h : Spells text behind token) : token ≠ .stop := by
  cases h with
  | number _ _ value =>
    unfold number? at value
    split at value
    · obtain ⟨x, -, rfl⟩ := Option.map_eq_some_iff.1 value
      exact nofun
    · obtain ⟨x, -, rfl⟩ := Option.map_eq_some_iff.1 value
      exact nofun
  | text _ _ => exact nofun
  | word mem =>
    have hall : ∀ e ∈ constants, e.2 ≠ .stop := by decide
    exact hall _ mem
  | mark mem =>
    have hall : ∀ e ∈ punctuation, e.2 ≠ .stop := by decide
    exact hall _ mem

theorem Spells.ne_nil (h : Spells text behind token) : text ≠ [] := by
  cases h with
  | number _ _ value =>
    rintro rfl
    exact nomatch value
  | text _ _ => exact nofun
  | word mem =>
    have hall : ∀ e ∈ constants, e.1.toList ≠ [] := by decide
    exact hall _ mem
  | mark _ => exact nofun

/-! The list of tokens and the end. -/

theorem lexes_of_tokensFrom {skip position : Nat} {input : List (Token × Nat)}
    (h : tokensFrom skip position cs = .ok input) :
    ∃ ts, Lexes (cs.drop skip) ts ∧ input.map (·.1) = ts ++ [.stop] := by
  fun_induction tokensFrom skip position cs generalizing input with
  | case1 skip position =>
    obtain rfl := Except.ok.inj h
    rw [List.drop_nil]
    exact ⟨[], .nil, rfl⟩
  | case2 n position c cs ih => exact ih h
  | case3 position c cs hblank ih =>
    obtain ⟨ts, hlexes, hinput⟩ := ih h
    exact ⟨ts, .blank hblank hlexes, hinput⟩
  | case4 position c cs hvisible token n hread ih =>
    obtain ⟨rest, hrest, hinput⟩ := bind_eq_ok h
    obtain rfl := Except.ok.inj hinput
    obtain ⟨ts, hlexes, hmap⟩ := ih hrest
    obtain ⟨text, behind, hsplit, rfl, hspells⟩ := spells_of_readToken hread
    refine ⟨token :: ts, ?_, congrArg (token :: ·) hmap⟩
    obtain ⟨d, text, rfl⟩ := List.exists_cons_of_ne_nil hspells.ne_nil
    obtain rfl : cs = text ++ behind := (List.cons.inj hsplit).2
    rw [List.length_cons, Nat.add_sub_cancel, List.drop_left] at hlexes
    rw [List.drop_zero, hsplit]
    exact .token hspells hlexes
  | case5 => exact nomatch h

theorem tokensFrom_append (text behind : List Char) (position : Nat) :
    tokensFrom text.length position (text ++ behind) =
      tokensFrom 0 (position + text.length) behind := by
  induction text generalizing position with
  | nil => rfl
  | cons c text ih =>
    rw [List.length_cons, List.cons_append, Nat.add_comm text.length 1, ← Nat.add_assoc, ← ih,
      Nat.add_comm 1]
    rfl

theorem Lexes.tokensFrom {ts : List Token} (h : Lexes cs ts) (position : Nat) :
    ∃ input, tokensFrom 0 position cs = .ok input ∧ input.map (·.1) = ts ++ [.stop] := by
  induction h generalizing position with
  | nil => exact ⟨[(.stop, position)], by rw [Literal.tokensFrom], rfl⟩
  | blank hblank _ ih =>
    rw [Literal.tokensFrom, if_pos hblank]
    exact ih (position + 1)
  | @token text behind token ts spells _ ih =>
    obtain ⟨c, cs, hsplit, hvisible, hread⟩ := spells.readToken
    obtain ⟨d, text, rfl⟩ := List.exists_cons_of_ne_nil spells.ne_nil
    rw [List.cons_append] at hsplit
    obtain ⟨rfl, rfl⟩ := List.cons.inj hsplit
    obtain ⟨input, hinput, hmap⟩ := ih (position + 1 + text.length)
    refine ⟨(token, position) :: input, ?_, congrArg (token :: ·) hmap⟩
    rw [List.cons_append, Literal.tokensFrom, if_neg hvisible, hread]
    dsimp only
    rw [List.length_cons, Nat.add_sub_cancel, tokensFrom_append, hinput, ok_bind]
    rfl

theorem lexes_of_tokens {input : List (Token × Nat)} (h : tokens cs = .ok input) :
    ∃ ts, Lexes cs ts ∧ input.map (·.1) = ts ++ [.stop] :=
  lexes_of_tokensFrom h

theorem Lexes.tokens {ts : List Token} (h : Lexes cs ts) :
    ∃ input, tokens cs = .ok input ∧ input.map (·.1) = ts ++ [.stop] :=
  h.tokensFrom 0

theorem Lexes.stop_notMem {ts : List Token} (h : Lexes cs ts) : .stop ∉ ts := by
  induction h with
  | nil => exact List.not_mem_nil
  | blank _ _ ih => exact ih
  | token spells _ ih =>
    intro hmem
    rcases List.mem_cons.1 hmem with htoken | hmem
    · exact spells.ne_stop htoken.symm
    · exact ih hmem

/-! Where the tokens stand. -/

/-- A text that starts with what is written for `token`; `stop` stands where the text ends. -/
inductive Opens : List Char → Token → Prop where
  | token {text behind : List Char} {token : Token} (spells : Spells text behind token) :
    Opens (text ++ behind) token
  | stop : Opens [] .stop

theorem opens_of_tokensFrom {skip position : Nat} {input : List (Token × Nat)}
    (h : tokensFrom skip position cs = .ok input) {token : Token} {start : Nat}
    (hmem : (token, start) ∈ input) :
    ∃ n ≤ cs.length, start = position + n ∧ Opens (cs.drop n) token := by
  fun_induction tokensFrom skip position cs generalizing input with
  | case1 skip position =>
    obtain rfl := Except.ok.inj h
    obtain ⟨rfl, rfl⟩ := Prod.mk.inj (List.mem_singleton.1 hmem)
    exact ⟨0, Nat.le_refl 0, rfl, .stop⟩
  | case2 _ position c cs ih =>
    obtain ⟨n, hn, rfl, hopens⟩ := ih h hmem
    exact ⟨n + 1, Nat.succ_le_succ hn, by omega, hopens⟩
  | case3 position c cs _ ih =>
    obtain ⟨n, hn, rfl, hopens⟩ := ih h hmem
    exact ⟨n + 1, Nat.succ_le_succ hn, by omega, hopens⟩
  | case4 position c cs _ first n hread ih =>
    obtain ⟨rest, hrest, hinput⟩ := bind_eq_ok h
    obtain rfl := Except.ok.inj hinput
    rcases List.mem_cons.1 hmem with hfirst | hmem
    · obtain ⟨rfl, rfl⟩ := Prod.mk.inj hfirst
      obtain ⟨text, behind, hsplit, -, hspells⟩ := spells_of_readToken hread
      refine ⟨0, Nat.zero_le _, rfl, ?_⟩
      rw [List.drop_zero, hsplit]
      exact .token hspells
    · obtain ⟨m, hm, rfl, hopens⟩ := ih hrest hmem
      exact ⟨m + 1, Nat.succ_le_succ hm, by omega, hopens⟩
  | case5 => exact nomatch h

theorem pairwise_of_tokensFrom {skip position : Nat} {input : List (Token × Nat)}
    (h : tokensFrom skip position cs = .ok input) :
    input.Pairwise (·.2 < ·.2) ∧ ∀ t ∈ input, position ≤ t.2 := by
  fun_induction tokensFrom skip position cs generalizing input with
  | case1 skip position =>
    obtain rfl := Except.ok.inj h
    exact ⟨List.pairwise_singleton .., fun t ht => List.mem_singleton.1 ht ▸ Nat.le_refl position⟩
  | case2 _ position c cs ih =>
    obtain ⟨hpairs, hbound⟩ := ih h
    exact ⟨hpairs, fun t ht => Nat.le_of_succ_le (hbound t ht)⟩
  | case3 position c cs _ ih =>
    obtain ⟨hpairs, hbound⟩ := ih h
    exact ⟨hpairs, fun t ht => Nat.le_of_succ_le (hbound t ht)⟩
  | case4 position c cs _ first n _ ih =>
    obtain ⟨rest, hrest, hinput⟩ := bind_eq_ok h
    obtain rfl := Except.ok.inj hinput
    obtain ⟨hpairs, hbound⟩ := ih hrest
    refine ⟨List.pairwise_cons.2 ⟨hbound, hpairs⟩, fun t ht => ?_⟩
    rcases List.mem_cons.1 ht with rfl | ht
    · exact Nat.le_refl position
    · exact Nat.le_of_succ_le (hbound t ht)
  | case5 => exact nomatch h

end Literal

end Stencil
