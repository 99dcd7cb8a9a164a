import Mathlib.Algebra.Order.BigOperators.Group.List
import Mathlib.Algebra.Order.Group.Nat
import Mathlib.Data.List.Perm.Subperm
import Stencil.Value.Display
import Stencil.Proofs.Literal.Grammar
import Stencil.Proofs.Literal.Quoting

/-! Printed lists and maps are literals. They read back as themselves unless a text or key in them
has a character that quotes write by its code point: then that text gets longer, and since no text
gets shorter, nothing else in the value makes up for it. -/

namespace Stencil

open Text

namespace Value

mutual

/-- The value and all values inside it. -/
def parts : Value → List Value
  | list items => list items :: partsOf items
  | map entries => map entries :: partsOfEntries entries
  | v => [v]

def partsOf : List Value → List Value
  | [] => []
  | v :: vs => parts v ++ partsOf vs

def partsOfEntries : List (String × Value) → List Value
  | [] => []
  | (_, v) :: rest => parts v ++ partsOfEntries rest

end

def isContainer : Value → Bool
  | list _ | map _ => true
  | _ => false

/-- There is no floating-point number anywhere in the value. -/
def FloatFree (v : Value) : Prop := ∀ x, float x ∉ v.parts

/-- The entries of every map in the value form a table. -/
def Tabled (v : Value) : Prop := ∀ entries, map entries ∈ v.parts → Table.Sorted entries

/-- The text is one of these values or a key of one of them. -/
def MentionedIn (vs : List Value) (s : String) : Prop :=
  str s ∈ vs ∨ ∃ entries, map entries ∈ vs ∧ s ∈ Table.keys entries

/-- The text stands somewhere in the value, as a value or as a key. -/
def Mentions (v : Value) (s : String) : Prop := MentionedIn v.parts s

mutual

/-- What the text of a value inside a list or map reads as. -/
def reread : Value → Value
  | str s => str (Text.reread s)
  | list items => list (rereadItems items)
  | map entries => ofEntries (rereadEntries entries)
  | v => v

def rereadItems : List Value → List Value
  | [] => []
  | v :: vs => reread v :: rereadItems vs

def rereadEntries : List (String × Value) → List (String × Value)
  | [] => []
  | (k, v) :: rest => (Text.reread k, reread v) :: rereadEntries rest

end

end Value

namespace Literal

/-- Text in front of which values can go on is read as `ts` and then as what follows it. -/
def Reads (text : List Char) (ts : List Token) : Prop :=
  ∀ (behind : List Char) (us : List Token), Ends behind → Lexes behind us →
    Lexes (text ++ behind) (ts ++ us)

theorem Spells.reads {text : List Char} {token : Token}
    (h : ∀ behind, Ends behind → Spells text behind token) : Reads text [token] :=
  fun _ _ hends rest => .token (h _ hends) rest

theorem Lexes.mark {c : Char} {token : Token} {behind : List Char} {ts : List Token}
    (mem : (c, token) ∈ punctuation) (rest : Lexes behind ts) :
    Lexes (c :: behind) (token :: ts) :=
  .token (.mark mem) rest

theorem Lexes.comma {behind : List Char} {ts : List Token} (rest : Lexes behind ts) :
    Lexes (',' :: ' ' :: behind) (.comma :: ts) :=
  .mark (by decide) (.blank (by decide) rest)

theorem ends_cons {c : Char} (h : c ∈ [',', ']', '\x7d']) (behind : List Char) :
    Ends (c :: behind) := by
  intro d hd
  obtain rfl := Option.some.inj hd
  exact h

/-- Parts with commas between them, in brackets of some kind. -/
theorem Reads.enclose {left right : String} {opening closing : Token} {parts : List String}
    {ts : List Token} {l r : Char} (hleft : left.toList = [l]) (hright : right.toList = [r])
    (hl : (l, opening) ∈ punctuation) (hr : (r, closing) ∈ punctuation)
    (hends : r ∈ [',', ']', '\x7d'])
    (h : Reads ([',', ' '].intercalate (parts.map String.toList)) ts) :
    Reads (Value.enclose left right parts).toList (opening :: ts ++ [closing]) := by
  intro behind us _ rest
  have htext : (Value.enclose left right parts).toList ++ behind =
      l :: ([',', ' '].intercalate (parts.map String.toList) ++ r :: behind) := by
    simp [Value.enclose, String.toList_append, String.toList_intercalate, hleft, hright]
  rw [htext, List.append_assoc]
  exact .mark hl (h _ _ (ends_cons hends behind) (.mark hr rest))

/-- A key, a colon and the value. -/
theorem Reads.entry {key text : String} {ts : List Token} (h : Reads text.toList ts) :
    Reads (quote key ++ ": " ++ text).toList (.str (Text.reread key) :: .colon :: ts) := by
  intro behind us hends rest
  rw [String.toList_append, String.toList_append, List.append_assoc, List.append_assoc]
  exact .token (spells_quote key _) (.mark (by decide) (.blank (by decide) (h _ _ hends rest)))

/-- A part, a comma and more parts. -/
theorem Reads.comma {first others : List Char} {ts us : List Token} (hfirst : Reads first ts)
    (hothers : Reads others us) : Reads (first ++ [',', ' '] ++ others) (ts ++ .comma :: us) := by
  intro behind vs hends rest
  rw [List.append_assoc, List.append_assoc, List.append_assoc]
  exact hfirst _ _ (ends_cons List.mem_cons_self _) (hothers _ _ hends rest).comma

open Value

mutual

theorem nested_reads : (v : Value) → (∀ x, float x ∉ v.parts) →
    ∃ ts, Derives ts v.reread ∧ Reads v.nested.toList ts
  | .none, _ => ⟨[.null], .null, Spells.reads fun _ h => by
      rw [nested]
      exact .word (by decide) h.not_isWordPart⟩
  | .bool b, _ => ⟨[.bool b], .bool b, Spells.reads fun _ h => by
      rw [nested]
      cases b <;> exact .word (by decide) h.not_isWordPart⟩
  | .int n, _ => ⟨[.int n], .int n, Spells.reads fun _ h => by
      rw [nested]
      exact spells_int n h⟩
  | .float x, h => absurd List.mem_cons_self (h x)
  | .str s, _ => ⟨[.str (Text.reread s)], .str _, Spells.reads fun behind _ => by
      rw [nested]
      exact spells_quote s behind⟩
  | .list items, h => by
    obtain ⟨ts, hderives, hreads⟩ :=
      nestedItems_reads items fun x hx => h x (List.mem_cons_of_mem _ hx)
    refine ⟨.openBracket :: ts ++ [.closeBracket], .list hderives, ?_⟩
    rw [nested]
    exact hreads.enclose rfl rfl (by decide) (by decide) (by decide)
  | .map entries, h => by
    obtain ⟨ts, hderives, hreads⟩ :=
      nestedEntries_reads entries fun x hx => h x (List.mem_cons_of_mem _ hx)
    refine ⟨.openBrace :: ts ++ [.closeBrace], .map hderives (Table.holds_ofEntries _), ?_⟩
    rw [nested]
    exact hreads.enclose rfl rfl (by decide) (by decide) (by decide)

theorem nestedItems_reads : (vs : List Value) → (∀ x, float x ∉ partsOf vs) →
    ∃ ts, DerivesItems ts (rereadItems vs) ∧
      Reads ([',', ' '].intercalate ((nestedItems vs).map String.toList)) ts
  | [], _ => ⟨[], .none, fun _ _ _ rest => rest⟩
  | [v], h => by
    obtain ⟨ts, hderives, hreads⟩ := nested_reads v fun x hx => h x (List.mem_append_left _ hx)
    refine ⟨ts, .last hderives, ?_⟩
    simp only [nestedItems, List.map_cons, List.map_nil, List.intercalate_singleton]
    exact hreads
  | v :: w :: vs, h => by
    obtain ⟨ts, hderives, hreads⟩ := nested_reads v fun x hx => h x (List.mem_append_left _ hx)
    obtain ⟨us, hothers, hmore⟩ :=
      nestedItems_reads (w :: vs) fun x hx => h x (List.mem_append_right _ hx)
    refine ⟨ts ++ .comma :: us, .more hderives hothers, ?_⟩
    simp only [nestedItems, List.map_cons, List.intercalate_cons_cons] at hmore ⊢
    exact hreads.comma hmore

theorem nestedEntries_reads : (es : List (String × Value)) → (∀ x, float x ∉ partsOfEntries es) →
    ∃ ts, DerivesPairs ts (rereadEntries es) ∧
      Reads ([',', ' '].intercalate ((nestedEntries es).map String.toList)) ts
  | [], _ => ⟨[], .none, fun _ _ _ rest => rest⟩
  | [(k, v)], h => by
    obtain ⟨ts, hderives, hreads⟩ := nested_reads v fun x hx => h x (List.mem_append_left _ hx)
    refine ⟨_, .last hderives, ?_⟩
    simp only [nestedEntries, List.map_cons, List.map_nil, List.intercalate_singleton]
    exact hreads.entry
  | (k, v) :: e :: es, h => by
    obtain ⟨ts, hderives, hreads⟩ := nested_reads v fun x hx => h x (List.mem_append_left _ hx)
    obtain ⟨us, hothers, hmore⟩ :=
      nestedEntries_reads (e :: es) fun x hx => h x (List.mem_append_right _ hx)
    refine ⟨_, .more hderives hothers, ?_⟩
    simp only [nestedEntries, List.map_cons, List.intercalate_cons_cons] at hmore ⊢
    exact hreads.entry.comma hmore

end

/-- A printed list or map without floating-point numbers is a literal. -/
theorem parse_display {v : Value} (hcontainer : v.isContainer) (hfloat : v.FloatFree) :
    parse v.display = .ok v.reread := by
  obtain ⟨ts, hderives, hreads⟩ := nested_reads v hfloat
  have hlexes := hreads [] [] (fun c hc => nomatch hc) .nil
  rw [List.append_nil, List.append_nil] at hlexes
  have hdisplay : v.display = v.nested := by
    cases v with
    | list _ => rfl
    | map _ => rfl
    | _ => exact nomatch hcontainer
  rw [hdisplay, parse_eq_ok_iff]
  exact ⟨ts, hlexes, hderives⟩

end Literal

/-! What reads back as itself. -/

/-- Keys of which none gets lost are all plain: they would have to grow into one another. -/
theorem Text.isPlain_of_subset {keys : List String} (hnodup : keys.Nodup)
    (h : keys ⊆ keys.map Text.reread) : ∀ k ∈ keys, IsPlain k := by
  by_contra hplain
  push Not at hplain
  obtain ⟨k, hk, hcoded⟩ := hplain
  have hperm : keys.Perm (keys.map Text.reread) :=
    (List.subperm_of_subset hnodup h).perm_of_length_le (List.length_map _).le
  have hlonger : (keys.map String.length).sum < (keys.map fun k => (Text.reread k).length).sum :=
    List.sum_lt_sum _ _ (fun k _ => length_le_reread k) ⟨k, hk, length_lt_reread hcoded⟩
  have hsum := (hperm.map String.length).sum_eq
  rw [List.map_map] at hsum
  exact hlonger.ne hsum

namespace Value

section

variable {us vs : List Value} {s : String}

theorem mentionedIn_append :
    MentionedIn (us ++ vs) s ↔ MentionedIn us s ∨ MentionedIn vs s := by
  simp only [MentionedIn, List.mem_append]
  grind

theorem mentionedIn_list (items : List Value) :
    MentionedIn (list items :: vs) s ↔ MentionedIn vs s := by
  simp [MentionedIn]

theorem mentionedIn_map (entries : List (String × Value)) :
    MentionedIn (map entries :: vs) s ↔ s ∈ Table.keys entries ∨ MentionedIn vs s := by
  simp only [MentionedIn, List.mem_cons, reduceCtorEq, false_or, map.injEq, or_and_right]
  grind

end

theorem keys_rereadEntries (es : List (String × Value)) :
    (rereadEntries es).map (·.1) = (Table.keys es).map Text.reread := by
  induction es with
  | nil => rfl
  | cons e es ih =>
    rw [rereadEntries, List.map_cons, ih]
    rfl

/-- The entries of a table make up that table again only if each stays what it is. -/
theorem ofEntries_rereadEntries_eq_iff {es : List (String × Value)} (h : Table.Sorted es) :
    Table.ofEntries (rereadEntries es) = es ↔ rereadEntries es = es := by
  constructor
  · intro heq
    have hsubset : Table.keys es ⊆ (Table.keys es).map Text.reread := by
      intro k hk
      rw [← heq] at hk
      rw [← keys_rereadEntries]
      exact Table.mem_keys_ofEntries hk
    have hplain := isPlain_of_subset h.nodup hsubset
    have hkeys : (rereadEntries es).map (·.1) = Table.keys es := by
      rw [keys_rereadEntries]
      exact (List.map_congr_left fun k hk => reread_of_isPlain (hplain k hk)).trans (List.map_id _)
    have hsorted : Table.Sorted (rereadEntries es) := by
      unfold Table.Sorted Table.keys
      rw [hkeys]
      exact h
    rwa [hsorted.ofEntries_eq] at heq
  · intro heq
    rw [heq, h.ofEntries_eq]

mutual

/-- A value reads back as itself if and only if all texts and keys in it are plain. -/
theorem reread_eq_iff : (v : Value) → v.Tabled → (v.reread = v ↔ ∀ s, v.Mentions s → IsPlain s)
  | str t, _ => by
    rw [reread, str.injEq, Text.reread_eq_iff]
    simp [Mentions, parts, MentionedIn]
  | list items, h => by
    have hitems := rereadItems_eq_iff items fun entries he => h entries (List.mem_cons_of_mem _ he)
    rw [reread, list.injEq, hitems]
    simp only [Mentions, parts, mentionedIn_list]
  | map entries, h => by
    have hentries :=
      rereadEntries_eq_iff entries fun entries he => h entries (List.mem_cons_of_mem _ he)
    rw [reread, ofEntries, map.injEq,
      ofEntries_rereadEntries_eq_iff (h entries List.mem_cons_self), hentries]
    simp only [Mentions, parts, mentionedIn_map, or_imp, forall_and]
  | none, _ => by simp [reread, Mentions, parts, MentionedIn]
  | bool b, _ => by simp [reread, Mentions, parts, MentionedIn]
  | int n, _ => by simp [reread, Mentions, parts, MentionedIn]
  | float x, _ => by simp [reread, Mentions, parts, MentionedIn]

theorem rereadItems_eq_iff : (vs : List Value) →
    (∀ entries, map entries ∈ partsOf vs → Table.Sorted entries) →
    (rereadItems vs = vs ↔ ∀ s, MentionedIn (partsOf vs) s → IsPlain s)
  | [], _ => by simp [rereadItems, partsOf, MentionedIn]
  | v :: vs, h => by
    have hv := reread_eq_iff v fun entries he => h entries (List.mem_append_left _ he)
    have hvs := rereadItems_eq_iff vs fun entries he => h entries (List.mem_append_right _ he)
    rw [rereadItems, List.cons.injEq, hv, hvs]
    simp only [partsOf, mentionedIn_append, or_imp, forall_and, Mentions]

theorem rereadEntries_eq_iff : (es : List (String × Value)) →
    (∀ entries, map entries ∈ partsOfEntries es → Table.Sorted entries) →
    (rereadEntries es = es ↔ (∀ k ∈ Table.keys es, IsPlain k) ∧
      ∀ s, MentionedIn (partsOfEntries es) s → IsPlain s)
  | [], _ => by simp [rereadEntries, partsOfEntries, MentionedIn, Table.keys]
  | (k, v) :: es, h => by
    have hv := reread_eq_iff v fun entries he => h entries (List.mem_append_left _ he)
    have hes := rereadEntries_eq_iff es fun entries he => h entries (List.mem_append_right _ he)
    rw [rereadEntries, List.cons.injEq, Prod.mk.injEq, Text.reread_eq_iff, hv, hes]
    simp only [partsOfEntries, mentionedIn_append, or_imp, forall_and, Mentions, Table.keys,
      List.map_cons, List.forall_mem_cons]
    grind

end

end Value

/-- A printed list or map without floating-point numbers reads back as itself if and only if no
text or key in it has a character that quotes write by its code point. -/
theorem Literal.parse_display_eq_iff {v : Value} (hcontainer : v.isContainer)
    (hfloat : v.FloatFree) (htabled : v.Tabled) :
    (parse v.display = .ok v ↔ ∀ s, v.Mentions s → ∀ c ∈ s.toList, isCoded c = false) ∧
      ((∀ s, v.Mentions s → ∀ c ∈ s.toList, c ∈ ['"', '\\', '\n', '\t', '\r'] ∨ isVisible c) →
        parse v.display = .ok v) := by
  have hiff : parse v.display = .ok v ↔ ∀ s, v.Mentions s → IsPlain s := by
    rw [parse_display hcontainer hfloat, Except.ok.injEq, Value.reread_eq_iff v htabled]
  refine ⟨hiff, fun h => hiff.2 fun s hs c hc => ?_⟩
  exact not_isCoded (h s hs c hc)

/-- Nested and empty containers, the least whole number, and a key and a text with escapes. -/
def quotedMap : Value :=
  .map [("\"key\"", .list [.int Int64.minValue, .none, .map []]), ("path", .str "a\\b\n\t\r")]

theorem Literal.parse_display_quotedMap : quotedMap.isContainer ∧ quotedMap.FloatFree ∧
    quotedMap.Tabled ∧ parse quotedMap.display = .ok quotedMap := by
  have hfloat : quotedMap.FloatFree := by
    simp [quotedMap, Value.FloatFree, Value.parts, Value.partsOf, Value.partsOfEntries]
  have htabled : quotedMap.Tabled := by
    intro entries hentries
    obtain rfl | rfl : entries = [("\"key\"", .list [.int Int64.minValue, .none, .map []]),
        ("path", .str "a\\b\n\t\r")] ∨ entries = [] := by
      simpa [quotedMap, Value.parts, Value.partsOf, Value.partsOfEntries] using hentries
    · exact List.pairwise_pair.2 (by decide)
    · exact .nil
  have hplain : ∀ s, quotedMap.Mentions s → ∀ c ∈ s.toList, isCoded c = false := by
    intro s hs c hc
    have hmem : s ∈ ["\"key\"", "path", "a\\b\n\t\r"] := by
      simp [quotedMap, Value.Mentions, Value.MentionedIn, Value.parts, Value.partsOf,
        Value.partsOfEntries, Table.keys] at hs
      rcases hs with rfl | ⟨_, ⟨rfl, -⟩ | ⟨rfl, -⟩⟩ <;> simp
    have htexts : ["\"key\"", "path", "a\\b\n\t\r"].all fun s => s.toList.all (!isCoded ·) := by
      decide +kernel
    have htext : s.toList.all (!isCoded ·) := List.all_eq_true.1 htexts s hmem
    simpa using List.all_eq_true.1 htext c hc
  have hreads := (parse_display_eq_iff (v := quotedMap) rfl hfloat htabled).1.2 hplain
  exact ⟨rfl, hfloat, htabled, hreads⟩

end Stencil
