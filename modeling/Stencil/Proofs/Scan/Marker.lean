import Stencil.Scan

/-! Where a marker stands in a text. The scanner's search at one place finds the shortest marker
of the first listed pair that has one there, and finds none only where no pair has one. -/

namespace Stencil

namespace Text

theorem isPrefixOf?_eq_some {pat cs rest : List Char} :
    pat.isPrefixOf? cs = some rest ↔ cs = pat ++ rest := by
  induction pat generalizing cs with
  | nil =>
    show some cs = some rest ↔ cs = rest
    exact ⟨Option.some.inj, congrArg some⟩
  | cons c pat ih =>
    cases cs with
    | nil =>
      show none = some rest ↔ [] = c :: (pat ++ rest)
      simp
    | cons d cs =>
      show (if c == d then pat.isPrefixOf? cs else none) = some rest ↔ d :: cs = c :: (pat ++ rest)
      rw [List.cons.injEq]
      by_cases h : c = d
      · simp [ih, h]
      · simp [h, Ne.symm h]

theorem isSuffixOf?_append (cs suff : List Char) : suff.isSuffixOf? (cs ++ suff) = some cs := by
  have h : suff.reverse.isPrefixOf? (cs ++ suff).reverse = some cs.reverse := by
    rw [isPrefixOf?_eq_some, List.reverse_append]
  show Option.map List.reverse (suff.reverse.isPrefixOf? (cs ++ suff).reverse) = some cs
  rw [h, Option.map_some, List.reverse_reverse]

theorem prefix_takeWhile_iff {p : Char → Bool} {pat cs : List Char} :
    pat <+: cs.takeWhile p ↔ pat <+: cs ∧ ∀ c ∈ pat, p c := by
  induction cs generalizing pat with
  | nil => cases pat <;> simp
  | cons d cs ih =>
    cases pat with
    | nil => simp
    | cons c pat =>
      rw [List.takeWhile_cons]
      split
      · next hd =>
        rw [List.cons_prefix_cons, List.cons_prefix_cons, ih]
        constructor
        · rintro ⟨rfl, hpat, hall⟩
          exact ⟨⟨rfl, hpat⟩, List.forall_mem_cons.2 ⟨hd, hall⟩⟩
        · rintro ⟨⟨rfl, hpat⟩, hall⟩
          exact ⟨rfl, hpat, (List.forall_mem_cons.1 hall).2⟩
      · next hd =>
        constructor
        · intro h
          simp at h
        · rintro ⟨hpre, hall⟩
          obtain ⟨rfl, -⟩ := List.cons_prefix_cons.1 hpre
          exact absurd (hall c List.mem_cons_self) hd

theorem find?_prefix {pat cs : List Char} {n : Nat} (h : find? pat cs = some n) :
    ∃ before, before ++ pat <+: cs ∧ before.length = n := by
  induction cs generalizing n with
  | nil =>
    unfold find? at h
    split at h
    · next hp =>
      obtain rfl := List.isEmpty_iff.1 hp
      exact ⟨[], List.prefix_refl _, Option.some.inj h⟩
    · cases h
  | cons c cs ih =>
    unfold find? at h
    split at h
    · next hp => exact ⟨[], List.isPrefixOf_iff_prefix.1 hp, Option.some.inj h⟩
    · obtain ⟨m, hm, rfl⟩ := Option.map_eq_some_iff.1 h
      obtain ⟨before, hpre, rfl⟩ := ih hm
      exact ⟨c :: before, List.cons_prefix_cons.2 ⟨rfl, hpre⟩, rfl⟩

/-- No match stands before the one that is found. -/
theorem find?_le {pat cs before : List Char} (h : before ++ pat <+: cs) :
    ∃ n, find? pat cs = some n ∧ n ≤ before.length := by
  induction cs generalizing before with
  | nil => 
    obtain ⟨rfl, rfl⟩ := List.append_eq_nil_iff.1 (List.prefix_nil.1 h)
    exact ⟨0, rfl, Nat.le_refl 0⟩
  | cons c cs ih =>
    unfold find?
    split
    · exact ⟨0, rfl, Nat.zero_le _⟩
    · next hp =>
      cases before with
      | nil => exact absurd (List.isPrefixOf_iff_prefix.2 h) hp
      | cons d before =>
        obtain ⟨n, hn, hle⟩ := ih (List.cons_prefix_cons.1 h).2
        exact ⟨n + 1, by rw [hn]; rfl, Nat.succ_le_succ hle⟩

end Text

namespace Delimiter

def write (d : Delimiter) (inner : List Char) : List Char :=
  d.opening.toList ++ inner ++ d.closing.toList

/-- The text starts with the opening text, `inner` and the closing text, all on one line. -/
def Wraps (d : Delimiter) (inner rest : List Char) : Prop :=
  d.write inner <+: rest ∧ '\n' ∉ inner

/-- The opening text stands here and the closing text behind it before the line ends. -/
def Marks (d : Delimiter) (rest : List Char) : Prop := ∃ inner, d.Wraps inner rest

/-- The closing text stands nowhere before the end of `inner`. -/
def Shortest (d : Delimiter) (inner rest : List Char) : Prop :=
  d.Wraps inner rest ∧ ∀ other, d.Wraps other rest → inner.length ≤ other.length

variable {d : Delimiter} {inner rest body : List Char} {n : Nat}

theorem length_write (d : Delimiter) (inner : List Char) :
    (d.write inner).length = d.opening.length + inner.length + d.closing.length := by
  simp only [write, List.length_append, String.length_toList]

theorem OneLine.length_write_pos (hd : d.OneLine) (inner : List Char) :
    0 < (d.write inner).length := by
  have h := List.length_pos_iff.2 hd.opening_ne
  rw [write, List.length_append, List.length_append]
  omega

theorem wraps_append_iff (hd : d.OneLine) :
    d.Wraps inner (d.opening.toList ++ body) ↔
      inner ++ d.closing.toList <+: body.takeWhile (· != '\n') := by
  rw [Wraps, write, List.append_assoc, List.prefix_append_right_inj, Text.prefix_takeWhile_iff]
  constructor
  · rintro ⟨hpre, hline⟩
    refine ⟨hpre, fun c hc => ?_⟩
    rcases List.mem_append.1 hc with hc | hc
    · exact bne_iff_ne.2 fun he => hline (he ▸ hc)
    · exact bne_iff_ne.2 fun he => hd.closing_line (he ▸ hc)
  · rintro ⟨hpre, hline⟩
    refine ⟨hpre, fun hc => ?_⟩
    exact bne_iff_ne.1 (hline _ (List.mem_append_left _ hc)) rfl

theorem Wraps.opening (h : d.Wraps inner rest) : ∃ body, rest = d.opening.toList ++ body := by
  obtain ⟨tail, htail⟩ := h.1
  exact ⟨inner ++ d.closing.toList ++ tail, by rw [← htail, write]; simp⟩

/-- The scanner measures the shortest marker. -/
theorem markerLength?_eq_some (hd : d.OneLine) (h : d.markerLength? rest = some n) :
    ∃ inner, d.Shortest inner rest ∧ n = (d.write inner).length := by
  obtain ⟨body, hbody, hinner⟩ := Option.bind_eq_some_iff.1 h
  obtain rfl := Text.isPrefixOf?_eq_some.1 hbody
  obtain ⟨k, hk, hn⟩ := Option.bind_eq_some_iff.1 hinner
  obtain ⟨inner, hpre, rfl⟩ := Text.find?_prefix hk
  refine ⟨inner, ⟨(wraps_append_iff hd).2 hpre, fun other ho => ?_⟩, ?_⟩
  · obtain ⟨m, hm, hle⟩ := Text.find?_le ((wraps_append_iff hd).1 ho)
    rw [hk] at hm
    exact Option.some.inj hm ▸ hle
  · rw [length_write]
    exact (Option.some.inj hn).symm

theorem Marks.markerLength? (hd : d.OneLine) (h : d.Marks rest) :
    ∃ n, d.markerLength? rest = some n := by
  obtain ⟨inner, hw⟩ := h
  obtain ⟨body, rfl⟩ := hw.opening
  obtain ⟨k, hk, -⟩ := Text.find?_le ((wraps_append_iff hd).1 hw)
  exact ⟨d.opening.length + k + d.closing.length, by
    simp [Delimiter.markerLength?, Text.isPrefixOf?_eq_some.2 rfl, hk]⟩

theorem markerLength?_eq_none_iff (hd : d.OneLine) :
    d.markerLength? rest = none ↔ ¬d.Marks rest := by
  constructor
  · intro h hm
    obtain ⟨n, hn⟩ := hm.markerLength? hd
    rw [h] at hn
    cases hn
  · intro h
    cases hn : d.markerLength? rest with
    | none => rfl
    | some n =>
      obtain ⟨inner, hshort, -⟩ := markerLength?_eq_some hd hn
      exact absurd ⟨inner, hshort.1⟩ h

theorem Wraps.append (h : d.Wraps inner rest) (more : List Char) : d.Wraps inner (rest ++ more) :=
  ⟨h.1.trans (List.prefix_append rest more), h.2⟩

theorem Marks.append (h : d.Marks rest) (more : List Char) : d.Marks (rest ++ more) := by
  obtain ⟨inner, hwraps⟩ := h
  exact ⟨inner, hwraps.append more⟩

theorem strip_write (d : Delimiter) (inner : List Char) :
    d.strip (d.write inner) = some (Text.trim inner) := by
  have hopen : d.opening.toList.isPrefixOf? (d.write inner) = some (inner ++ d.closing.toList) := by
    rw [Text.isPrefixOf?_eq_some, write, List.append_assoc]
  rw [strip, hopen]
  show (d.closing.toList.isSuffixOf? (inner ++ d.closing.toList) >>= _) = _
  rw [Text.isSuffixOf?_append]
  rfl

end Delimiter

namespace Scan

/-- The first listed pair that has a marker here. -/
def First (ds : List Delimiter) (d : Delimiter) (rest : List Char) : Prop :=
  ∃ before after, ds = before ++ d :: after ∧ d.Marks rest ∧ ∀ e ∈ before, ¬e.Marks rest

variable {ds : List Delimiter} {d : Delimiter} {rest : List Char} {n : Nat}

theorem marker?_eq_none_iff (hds : ∀ d ∈ ds, d.OneLine) :
    marker? ds rest = none ↔ ∀ d ∈ ds, ¬d.Marks rest := by
  rw [marker?, List.findSome?_eq_none_iff]
  refine forall₂_congr fun d hd => ?_
  rw [Option.map_eq_none_iff, Delimiter.markerLength?_eq_none_iff (hds d hd)]

theorem marker?_eq_some (hds : ∀ d ∈ ds, d.OneLine) (h : marker? ds rest = some (d, n)) :
    First ds d rest ∧ ∃ inner, d.Shortest inner rest ∧ n = (d.write inner).length := by
  obtain ⟨before, e, after, rfl, he, hbefore⟩ := List.findSome?_eq_some_iff.1 h
  obtain ⟨m, hm, heq⟩ := Option.map_eq_some_iff.1 he
  obtain ⟨rfl, rfl⟩ := Prod.mk.inj heq
  obtain ⟨inner, hshort, hlen⟩ := Delimiter.markerLength?_eq_some (hds e (by simp)) hm
  refine ⟨⟨before, after, rfl, ⟨inner, hshort.1⟩, fun e' he' => ?_⟩, inner, hshort, hlen⟩
  rw [← Delimiter.markerLength?_eq_none_iff (hds e' (by simp [he']))]
  exact Option.map_eq_none_iff.1 (hbefore e' he')

theorem First.mem (h : First ds d rest) : d ∈ ds := by
  obtain ⟨before, after, rfl, -⟩ := h
  simp

/-- At one place only one pair is the first one. -/
theorem First.unique {e : Delimiter} (hd : First ds d rest) (he : First ds e rest) : d = e := by
  obtain ⟨before, after, hds, hmarks, hbefore⟩ := hd
  obtain ⟨before', after', hds', hmarks', hbefore'⟩ := he
  rw [hds] at hds'
  rcases List.append_eq_append_iff.1 hds' with ⟨mid, hb, ha⟩ | ⟨mid, hb, ha⟩
  · cases mid with
    | nil => exact (List.cons.inj ha).1
    | cons c mid =>
      obtain ⟨rfl, -⟩ := List.cons.inj ha
      exact absurd hmarks (hbefore' d (by simp [hb]))
  · cases mid with
    | nil => exact (List.cons.inj ha).1.symm
    | cons c mid =>
      obtain ⟨rfl, -⟩ := List.cons.inj ha
      exact absurd hmarks' (hbefore e (by simp [hb]))

/-! Less text. -/

section

variable {cs : List Char}

theorem marker?_eq_none_of_append (hds : ∀ d ∈ ds, d.OneLine)
    (h : marker? ds (cs ++ rest) = none) : marker? ds cs = none := by
  rw [marker?_eq_none_iff hds] at h ⊢
  intro d hd hmarks
  exact h d hd (hmarks.append rest)

/-- A marker is found again without the text behind it. -/
theorem marker?_of_append (hds : ∀ d ∈ ds, d.OneLine)
    (h : marker? ds (cs ++ rest) = some (d, n)) (hn : n ≤ cs.length) :
    marker? ds cs = some (d, n) := by
  obtain ⟨⟨before, after, hlist, -, hbefore⟩, inner, hshort, rfl⟩ := marker?_eq_some hds h
  have hwraps : d.Wraps inner cs :=
    ⟨List.prefix_of_prefix_length_le hshort.1.1 (List.prefix_append cs rest) hn, hshort.1.2⟩
  have hfirst : First ds d cs :=
    ⟨before, after, hlist, ⟨inner, hwraps⟩, fun e he hmarks => hbefore e he (hmarks.append rest)⟩
  cases hfound : marker? ds cs with
  | none => exact absurd ⟨inner, hwraps⟩ ((marker?_eq_none_iff hds).1 hfound d hfirst.mem)
  | some found =>
    obtain ⟨e, n⟩ := found
    obtain ⟨hfirst', inner', hshort', rfl⟩ := marker?_eq_some hds hfound
    obtain rfl := hfirst'.unique hfirst
    -- each of the two is the shortest one where the other stands
    have hle : inner.length ≤ inner'.length := hshort.2 inner' (hshort'.1.append rest)
    have hge : inner'.length ≤ inner.length := hshort'.2 inner hwraps
    rw [Delimiter.length_write, Delimiter.length_write, Nat.le_antisymm hge hle]

end

end Scan

end Stencil
