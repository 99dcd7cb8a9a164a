import Stencil.Proofs.Scan.Apart

/-! What text behind a marker can change. Two texts that are the same up to the end of a marker and
further are scanned the same up to there, unless one of them completes a marker that starts before
that one and goes on past all they share. -/

namespace Stencil

/-- At one place at most one of the pairs can start. -/
def Delimiter.PrefixFree (ds : List Delimiter) : Prop :=
  ∀ d ∈ ds, ∀ e ∈ ds, d.opening.toList <+: e.opening.toList → d = e

instance (ds : List Delimiter) : Decidable (Delimiter.PrefixFree ds) :=
  inferInstanceAs (Decidable (∀ d ∈ ds, ∀ e ∈ ds, _ → _))

theorem Delimiter.Marks.unique {ds : List Delimiter} {d e : Delimiter} {rest : List Char}
    (hfree : PrefixFree ds) (hd : d ∈ ds) (he : e ∈ ds) (h : d.Marks rest) (h' : e.Marks rest) :
    d = e := by
  obtain ⟨inner, hwraps⟩ := h
  obtain ⟨inner', hwraps'⟩ := h'
  obtain ⟨body, rfl⟩ := hwraps.opening
  obtain ⟨body', hbody'⟩ := hwraps'.opening
  rcases List.prefix_or_prefix_of_prefix ⟨body, rfl⟩ ⟨body', hbody'.symm⟩ with hpre | hpre
  · exact hfree d hd e he hpre
  · exact (hfree e he d hd hpre).symm

namespace Scan

variable {ds : List Delimiter} {d : Delimiter} {c : Char} {as zs cs rest : List Char} {n : Nat}
  {rs left right : List Run} {r : Run}

/-- A marker stays what it is when more text follows. -/
theorem marker?_append_of_some (hds : ∀ d ∈ ds, d.OneLine) (hfree : Delimiter.PrefixFree ds)
    (h : marker? ds cs = some (d, n)) (rest : List Char) :
    marker? ds (cs ++ rest) = some (d, n) := by
  obtain ⟨hfirst, inner, hshort, rfl⟩ := marker?_eq_some hds h
  have hmarks : d.Marks (cs ++ rest) := ⟨inner, hshort.1.append rest⟩
  cases hmore : marker? ds (cs ++ rest) with
  | none => exact absurd hmarks ((marker?_eq_none_iff hds).1 hmore d hfirst.mem)
  | some found =>
    obtain ⟨e, m⟩ := found
    obtain ⟨hfirst', inner', hshort', rfl⟩ := marker?_eq_some hds hmore
    obtain rfl := hmarks.unique hfree hfirst.mem hfirst'.mem ⟨inner', hshort'.1⟩
    -- the closing text found in the longer text is no further away
    have hle : inner'.length ≤ inner.length := hshort'.2 inner (hshort.1.append rest)
    have hfit : (d.write inner).length ≤ cs.length := hshort.1.1.length_le
    rw [Delimiter.length_write] at hfit
    have hsame := marker?_of_append hds hmore (by rw [Delimiter.length_write]; omega)
    exact hsame.symm.trans h

/-! Runs. -/

theorem text_glue (c : Char) (rs : List Run) : text (glue c rs) = c :: text rs := chars_glue c rs

theorem glue_append_marker (hr : r.delimiter.isSome) (left right : List Run) :
    glue c (left ++ r :: right) = glue c left ++ r :: right := by
  obtain ⟨_ | d, cs⟩ := r
  · cases hr
  · obtain _ | ⟨⟨_ | e, es⟩, left⟩ := left <;> rfl

/-- What stands in front of a marker, without its first character. -/
theorem eq_append_of_glue (h : glue c rs = left ++ r :: right) (hr : r.delimiter.isSome) :
    ∃ left', left = glue c left' ∧ rs = left' ++ r :: right := by
  cases left with
  | nil =>
    obtain _ | ⟨⟨_ | e, es⟩, rs⟩ := rs <;> simp [glue] at h <;> simp [← h.1] at hr
  | cons l left =>
    obtain _ | ⟨⟨_ | e, es⟩, rs⟩ := rs
    · simp [glue] at h
    · obtain ⟨rfl, rfl⟩ := List.cons.inj h
      exact ⟨⟨none, es⟩ :: left, rfl, rfl⟩
    · obtain ⟨rfl, hrs⟩ := List.cons.inj h
      obtain _ | ⟨l, left⟩ := left
      · exact ⟨[], rfl, hrs⟩
      · obtain ⟨rfl, rfl⟩ := List.cons.inj hrs
        exact ⟨⟨some e, es⟩ :: left, rfl, rfl⟩

/-- One of the runs is a marker that starts in `as` and goes on past `zs` behind it. -/
def Overrun (rs : List Run) (as zs : List Char) : Prop :=
  ∃ left r right inside behind, rs = left ++ r :: right ∧ r.delimiter.isSome ∧
    as = text left ++ inside ∧ inside ≠ [] ∧ r.chars = inside ++ zs ++ behind ∧ behind ≠ []

theorem Overrun.cons (h : Overrun rs as zs) (r : Run) : Overrun (r :: rs) (r.chars ++ as) zs := by
  obtain ⟨left, m, right, inside, behind, rfl, hm, rfl, hinside, hchars, hbehind⟩ := h
  refine ⟨r :: left, m, right, inside, behind, rfl, hm, ?_, hinside, hchars, hbehind⟩
  rw [text_cons, List.append_assoc]

theorem Overrun.glue (h : Overrun rs as zs) (c : Char) : Overrun (glue c rs) (c :: as) zs := by
  obtain ⟨left, m, right, inside, behind, rfl, hm, rfl, hinside, hchars, hbehind⟩ := h
  refine ⟨Scan.glue c left, m, right, inside, behind, glue_append_marker hm left right, hm, ?_,
    hinside, hchars, hbehind⟩
  rw [text_glue, List.cons_append]

/-- A marker that is too long to be one of the shared text. -/
theorem overrun_of_marker? (hds : ∀ d ∈ ds, d.OneLine) (has : as ≠ [])
    (h : marker? ds (as ++ zs ++ rest) = some (d, n)) (hlong : (as ++ zs).length < n) :
    Overrun (runs ds (as ++ zs ++ rest)) as zs := by
  have hn := (marker?_moves hds h).2
  obtain ⟨behind, more, rfl, hbehind⟩ : ∃ behind more, rest = behind ++ more ∧
      (as ++ zs ++ behind).length = n := by
    refine ⟨rest.take (n - (as ++ zs).length), _, (List.take_append_drop _ rest).symm, ?_⟩
    rw [List.length_append] at hn
    rw [List.length_append, List.length_take]
    omega
  have hruns : runs ds (as ++ zs ++ behind ++ more) =
      ⟨some d, as ++ zs ++ behind⟩ :: runs ds more := by
    refine runs_marker (by simp [has]) ?_
    rw [List.append_assoc, h, hbehind]
  rw [List.append_assoc] at hruns
  refine ⟨[], _, _, as, behind, hruns, rfl, rfl, has, rfl, ?_⟩
  rintro rfl
  rw [List.append_nil] at hbehind
  omega

theorem text_ne_nil {l : Run} (h : runs ds cs = l :: left ++ right) : text (l :: left) ≠ [] := by
  intro htext
  have hl : l ∈ runsFrom ds 0 cs := by
    show l ∈ runs ds cs
    simp [h]
  rw [text_cons] at htext
  exact (parted_runsFrom ds 0 cs).nonempty l hl (List.append_eq_nil_iff.1 htext).1

/-- Where `zs` and then `other` stand behind the text of `left`, the first runs are these and `r`, or
a marker that starts in front of `zs` goes on past it. -/
def Kept (ds : List Delimiter) (left : List Run) (r : Run) (zs other : List Char) : Prop :=
  (∃ right, runs ds (text left ++ zs ++ other) = left ++ r :: right) ∨
    Overrun (runs ds (text left ++ zs ++ other)) (text left) zs

variable {other : List Char}

/-- A character of plain text in front is one also before `other`, or starts a marker too long for
the text in front of it. -/
theorem Kept.glue (hds : ∀ d ∈ ds, d.OneLine) (h : Kept ds left r zs other)
    (hr : r.delimiter.isSome) (hc : marker? ds (c :: (text left ++ zs)) = none) :
    Kept ds (glue c left) r zs other := by
  unfold Kept
  rw [text_glue]
  cases hm : marker? ds (c :: text left ++ zs ++ other) with
  | none =>
    rw [List.cons_append, List.cons_append] at hm ⊢
    rw [runs_plain_cons hm]
    rcases h with ⟨right, hright⟩ | hover
    · exact .inl ⟨right, by rw [hright, glue_append_marker hr]⟩
    · exact .inr (hover.glue c)
  | some found =>
    obtain ⟨d, n⟩ := found
    refine .inr (overrun_of_marker? hds (List.cons_ne_nil c _) hm (Nat.lt_of_not_le fun hn => ?_))
    cases hc.symm.trans (marker?_of_append hds hm hn)

theorem Kept.cons (hds : ∀ d ∈ ds, d.OneLine) (hfree : Delimiter.PrefixFree ds)
    (h : Kept ds left r zs other) (hcs : marker? ds cs = some (d, cs.length)) :
    Kept ds (⟨some d, cs⟩ :: left) r zs other := by
  have hne : cs ≠ [] := List.ne_nil_of_length_pos (marker?_moves hds hcs).1
  have hmarker := marker?_append_of_some hds hfree hcs (text left ++ zs ++ other)
  unfold Kept
  rw [text_cons, List.append_assoc, List.append_assoc, ← List.append_assoc (text left),
    runs_marker hne hmarker]
  rcases h with ⟨right, hright⟩ | hover
  · exact .inl ⟨right, by rw [hright, List.cons_append]⟩
  · exact .inr (hover.cons ⟨some d, cs⟩)

/-- The runs up to a marker are kept when another text follows, as far as both texts agree. -/
theorem kept_of_runs (hds : ∀ d ∈ ds, d.OneLine) (hfree : Delimiter.PrefixFree ds)
    {tail : List Char} (hzs : cs <+: zs)
    (h : runs ds (text left ++ zs ++ tail) = left ++ ⟨some d, cs⟩ :: right) (other : List Char) :
    Kept ds left ⟨some d, cs⟩ zs other := by
  -- by the text in front, which is read a character of plain text or a marker at a time
  induction hlength : (text left).length using Nat.strong_induction_on generalizing left with
  | _ length ih =>
  cases left with
  | nil =>
    have hfound : Run.Found ds ⟨some d, cs⟩ (text right) := found_run hds h
    obtain ⟨more, rfl⟩ := hzs
    have halone : marker? ds cs = some (d, cs.length) :=
      marker?_of_append hds (hfound.marker rfl) (Nat.le_refl _)
    have hne : cs ≠ [] := List.ne_nil_of_length_pos (marker?_moves hds halone).1
    have hruns := runs_marker hne (marker?_append_of_some hds hfree halone (more ++ other))
    rw [← List.append_assoc] at hruns
    exact .inl ⟨_, hruns⟩
  | cons l left =>
    have hne := text_ne_nil h
    cases hm : marker? ds (text (l :: left) ++ zs ++ tail) with
    | none =>
      obtain ⟨c, as, htext⟩ := List.exists_cons_of_ne_nil hne
      rw [htext, List.cons_append, List.cons_append] at h hm
      rw [runs_plain_cons hm] at h
      obtain ⟨left', hleft, hrest⟩ := eq_append_of_glue h rfl
      rw [hleft, text_glue] at htext
      obtain rfl := (List.cons.inj htext).2
      have hshorter : (text left').length < length := by
        rw [← hlength, hleft, text_glue, List.length_cons]
        exact Nat.lt_succ_self _
      rw [hleft]
      exact (ih _ hshorter hrest rfl).glue hds rfl (marker?_eq_none_of_append hds hm)
    | some found =>
      obtain ⟨e, n⟩ := found
      obtain ⟨hpos, hn⟩ := marker?_moves hds hm
      obtain ⟨ms, rest, hsplit, rfl⟩ : ∃ ms rest,
          text (l :: left) ++ zs ++ tail = ms ++ rest ∧ ms.length = n :=
        ⟨_, _, (List.take_append_drop n _).symm, List.length_take_of_le hn⟩
      rw [hsplit] at h hm
      rw [runs_marker (List.ne_nil_of_length_pos hpos) hm] at h
      obtain ⟨rfl, hrest⟩ := List.cons.inj h
      rw [text_cons, List.append_assoc, List.append_assoc, List.append_cancel_left_eq,
        ← List.append_assoc] at hsplit
      rw [← hsplit] at hrest
      have hshorter : (text left).length < length := by
        rw [← hlength, text_cons, List.length_append]
        exact Nat.lt_add_of_pos_left hpos
      exact (ih _ hshorter hrest rfl).cons hds hfree (marker?_of_append hds hm (Nat.le_refl _))

/-! Pieces. -/

/-- A front of the pieces are the pieces of a front of the runs. -/
theorem exists_of_prefix_place {q : Position} {before : List Piece} {p : Piece}
    (h : before ++ [p] <+: place q rs) : ∃ left r right, rs = left ++ r :: right ∧
      before ++ [p] = place q (left ++ [r]) := by
  induction rs generalizing q before with
  | nil => simp [place] at h
  | cons r rs ih =>
    cases before with
    | nil =>
      obtain ⟨rfl, -⟩ := List.cons_prefix_cons.1 h
      exact ⟨[], r, rs, rfl, rfl⟩
    | cons b before =>
      obtain ⟨rfl, hrest⟩ := List.cons_prefix_cons.1 h
      obtain ⟨left, r', right, rfl, hplace⟩ := ih hrest
      exact ⟨r :: left, r', right, rfl, congrArg (_ :: ·) hplace⟩

theorem place_concat (left : List Run) (r : Run) :
    place .start (left ++ [r]) = place .start left ++ [pieceAt (text left) r] := by
  rw [place_append]
  rfl

/-- The pieces up to a marker hang on text further on only where it completes a marker that starts
before that one. -/
theorem scan_kept (hds : ∀ d ∈ ds, d.OneLine) (hfree : Delimiter.PrefixFree ds)
    {head tail : String} {before : List Piece} {p : Piece}
    (h : before ++ [p] <+: scan ds (head ++ tail)) (hp : p.delimiter.isSome)
    (hstop : p.span.stop ≤ head.utf8ByteSize) (other : String) :
    before ++ [p] <+: scan ds (head ++ other) ∨ ∃ m ∈ scan ds (head ++ other),
      m.delimiter.isSome ∧ m.span.start < p.span.start ∧ head.utf8ByteSize < m.span.stop := by
  obtain ⟨left, r, right, hruns, hplace⟩ := exists_of_prefix_place h
  rw [place_concat] at hplace
  obtain ⟨rfl, hlast⟩ := List.append_inj' hplace rfl
  obtain rfl := List.singleton_inj.1 hlast
  obtain ⟨_ | d, cs⟩ := r
  · cases hp
  -- the marker lies in the head, which goes on with `mid`
  have hsplit := source_eq hruns
  rw [String.toList_append, ← List.append_assoc] at hsplit
  rw [stop_pieceAt] at hstop
  rw [← bytes_toList] at hstop ⊢
  obtain ⟨mid, hhead, -⟩ := exists_between hsplit.symm hstop
  rw [List.append_assoc] at hhead
  rw [String.toList_append, hhead] at hruns
  rcases kept_of_runs hds hfree (List.prefix_append cs mid) hruns other.toList with
    ⟨right', hkept⟩ | ⟨left', m, right', inside, behind, hover, hm, hleft, hinside, hchars, hbehind⟩
  · left
    rw [← hhead, ← String.toList_append] at hkept
    refine ⟨place (Position.start.advance (text (left ++ [⟨some d, cs⟩]))) right', ?_⟩
    rw [scan, hkept, ← place_concat, ← place_append, List.append_assoc]
    rfl
  · right
    rw [← hhead, ← String.toList_append] at hover
    refine ⟨pieceAt (text left') m, mem_scan.2 ⟨left', m, right', hover, rfl⟩, hm, ?_, ?_⟩
    · have := bytes_pos hinside
      rw [start_pieceAt, start_pieceAt, hleft, bytes_append]
      omega
    · have := bytes_pos hbehind
      have hpast : text left' ++ m.chars = head.toList ++ behind := by
        rw [hchars, hhead, hleft]
        simp only [List.append_assoc]
      rw [stop_pieceAt, hpast, bytes_append]
      omega

/-- All places in a marker are on one line. -/
theorem line_of_inside (hds : ∀ d ∈ ds, d.OneLine) {source : String} {m : Piece}
    (hm : m ∈ scan ds source) (hd : m.delimiter.isSome) {before rest : List Char}
    (hsource : source.toList = before ++ rest) (hstart : m.span.start ≤ bytes before)
    (hstop : bytes before ≤ m.span.stop) : lineAfter before = m.span.line := by
  obtain ⟨left, r, right, hruns, rfl⟩ := mem_scan.1 hm
  rw [start_pieceAt] at hstart
  rw [stop_pieceAt] at hstop
  obtain ⟨d, hd⟩ := Option.isSome_iff_exists.1 hd
  have hline := marker?_line hds ((found_run hds hruns).marker hd)
  rw [List.take_left] at hline
  obtain ⟨mid, rfl, hmid⟩ := exists_between ((source_eq hruns).symm.trans hsource) hstart
  rw [bytes_append, bytes_append] at hstop
  obtain ⟨behind, hr, -⟩ := exists_between hmid.symm (by omega)
  rw [hr, List.mem_append, not_or] at hline
  rw [line_pieceAt, lineAfter, lineAfter, List.count_append, List.count_eq_zero.2 hline.1]
  rfl

end Scan

end Stencil
