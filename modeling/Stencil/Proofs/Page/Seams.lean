import Stencil.Proofs.Page.Expansion

/-! What expanding leaves behind. The parts that an output is spliced from hold no include marker,
so a marker that the output still has was completed where two parts meet. -/

namespace Stencil.Page

/-- Two of the parts meet inside a piece of the text they make up. -/
def Straddles (parts : List String) (p : Piece) : Prop :=
  ∃ left right, parts = left ++ right ∧ p.span.start < (String.join left).utf8ByteSize ∧
    (String.join left).utf8ByteSize < p.span.stop

/-- What is left of markers in an output spliced from parts. -/
structure Seamed (loader : Loader) (page text out : String) (parts : List String) : Prop where
  splices : Splices loader [page] (scan [includeMarker] text) parts
  eq_join : out = String.join parts
  straddles : ∀ p ∈ scan [includeMarker] out, p.delimiter.isSome → Straddles parts p
  /-- An output in which no marker straddles two parts has none and expands to itself. -/
  settled : (∀ p ∈ scan [includeMarker] out, p.delimiter.isSome → ¬Straddles parts p) →
    (∀ p ∈ scan [includeMarker] out, p.delimiter = none) ∧
      ∀ other, expandIncludes loader other out = .ok out

variable {loader : Loader} {chain parts : List String} {pieces : List Piece} {out : String}

theorem utf8ByteSize_join_cons (part : String) (parts : List String) :
    (String.join (part :: parts)).utf8ByteSize =
      bytes part.toList + (String.join parts).utf8ByteSize := by
  rw [String.join_cons, String.utf8ByteSize_append, bytes_toList]

/-- A stretch of joined parts has a seam inside or lies in one part. -/
theorem seam_or_inside {before stretch behind : List Char}
    (h : (String.join parts).toList = before ++ (stretch ++ behind)) (hne : stretch ≠ []) :
    (∃ left right, parts = left ++ right ∧ bytes before < (String.join left).utf8ByteSize ∧
      (String.join left).utf8ByteSize < bytes (before ++ stretch)) ∨
    ∃ part ∈ parts, ∃ before behind, part.toList = before ++ (stretch ++ behind) := by
  induction parts generalizing before with
  | nil =>
    have hnil := List.append_eq_nil_iff.1 (List.append_eq_nil_iff.1 h.symm).2
    exact absurd hnil.1 hne
  | cons part parts ih =>
    rw [String.join_cons, String.toList_append] at h
    rcases List.append_eq_append_iff.1 h with ⟨mid, rfl, hrest⟩ | ⟨mid, hpart, hrest⟩
    · -- the part ends before the stretch starts
      rcases ih hrest with ⟨left, right, rfl, hstart, hstop⟩ | ⟨other, hother, hinside⟩
      · refine .inl ⟨part :: left, right, rfl, ?_, ?_⟩
        · rw [utf8ByteSize_join_cons, bytes_append]
          omega
        · rw [utf8ByteSize_join_cons, List.append_assoc, bytes_append]
          omega
      · exact .inr ⟨other, List.mem_cons_of_mem part hother, hinside⟩
    · rcases List.append_eq_append_iff.1 hrest with ⟨tail, rfl, -⟩ | ⟨tail, rfl, hparts⟩
      · exact .inr ⟨part, List.mem_cons_self, before, tail, hpart⟩
      · by_cases hmid : mid = []
        · -- the part ends where the stretch starts
          subst hmid
          rw [List.append_nil] at hpart
          have hparts : (String.join parts).toList = [] ++ (([] ++ tail) ++ behind) := hparts
          rcases ih hparts with ⟨left, right, rfl, hstart, hstop⟩ | ⟨other, hother, hinside⟩
          · refine .inl ⟨part :: left, right, rfl, ?_, ?_⟩
            · rw [utf8ByteSize_join_cons, hpart]
              omega
            · rw [utf8ByteSize_join_cons, hpart, bytes_append]
              exact Nat.add_lt_add_left hstop _
          · exact .inr ⟨other, List.mem_cons_of_mem part hother, hinside⟩
        · by_cases htail : tail = []
          · subst htail
            exact .inr ⟨part, List.mem_cons_self, before, [], by simpa using hpart⟩
          · have hmid := bytes_pos hmid
            have htail := bytes_pos htail
            have hsize : (String.join [part]).utf8ByteSize = bytes before + bytes mid := by
              rw [utf8ByteSize_join_cons, hpart, bytes_append]
              rfl
            refine .inl ⟨[part], parts, rfl, ?_, ?_⟩
            · omega
            · rw [hsize, bytes_append, bytes_append]
              omega

theorem delimiter_of_inner? {source : String} {p : Piece} (hp : p ∈ scan [includeMarker] source)
    (hinner : p.inner? = none) : p.delimiter = none := by
  cases hd : p.delimiter with
  | none => rfl
  | some d =>
    obtain ⟨_, _, _, -, -, -, -, -, hsome⟩ := Scan.exact_ends includeMarker_oneLine.single hp hd
    rw [hinner] at hsome
    exact nomatch hsome

/-- Parts are plain pieces of texts. -/
theorem Splices.plain_of_mem {source part : String} (h : Splices loader chain pieces parts)
    (hpieces : pieces ⊆ scan [includeMarker] source) (hpart : part ∈ parts) :
    ∃ source, ∃ p ∈ scan [includeMarker] source, p.delimiter = none ∧ p.text = part := by
  induction h generalizing source with
  | nil => exact absurd hpart List.not_mem_nil
  | @plain chain parts p ps inner _ ih =>
    obtain ⟨hp, hps⟩ := List.cons_subset.1 hpieces
    rcases List.mem_cons.1 hpart with rfl | hpart
    · exact ⟨source, p, hp, delimiter_of_inner? hp inner, rfl⟩
    · exact ih hps hpart
  | page _ _ _ _ _ ihContent ihRest =>
    rcases List.mem_append.1 hpart with hpart | hpart
    · exact ihContent (List.Subset.refl _) hpart
    · exact ihRest (List.cons_subset.1 hpieces).2 hpart

/-- No marker lies inside plain text. -/
theorem not_marker_of_plain {source : String} {p : Piece} {before inner behind : List Char}
    (hp : p ∈ scan [includeMarker] source) (hplain : p.delimiter = none)
    (htext : p.text.toList = before ++ (includeMarker.write inner ++ behind)) : '\n' ∈ inner := by
  refine Classical.byContradiction fun hline => ?_
  obtain ⟨left, r, right, hruns, rfl⟩ := Scan.mem_scan.1 hp
  have hchars : r.chars = before ++ (includeMarker.write inner ++ behind) :=
    String.toList_ofList.symm.trans htext
  have hne : includeMarker.write inner ++ behind ≠ [] := by
    refine List.append_ne_nil_of_left_ne_nil (List.ne_nil_of_length_pos ?_) behind
    exact includeMarker_oneLine.length_write_pos inner
  have hnone := (Scan.found_run includeMarker_oneLine.single hruns).no_marker hplain hchars hne
  have hunmarked := (Scan.marker?_eq_none_iff includeMarker_oneLine.single).1 hnone
  refine hunmarked _ (List.mem_singleton_self _) ⟨inner, ?_, hline⟩
  rw [List.append_assoc]
  exact List.prefix_append _ _

/-- A marker of the output was completed at a seam. -/
theorem Splices.straddles {source : String} {p : Piece} {d : Delimiter}
    (h : Splices loader chain (scan [includeMarker] source) parts)
    (hp : p ∈ scan [includeMarker] (String.join parts)) (hd : p.delimiter = some d) :
    Straddles parts p := by
  obtain ⟨before, inner, behind, hout, hstart, hstop, -, hshort, -⟩ :=
    Scan.exact_ends includeMarker_oneLine.single hp hd
  obtain rfl := List.mem_singleton.1
    (Scan.first_of_piece includeMarker_oneLine.single hout hp hd hstart).mem
  have hne : includeMarker.write inner ≠ [] := by
    refine List.ne_nil_of_length_pos ?_
    exact includeMarker_oneLine.length_write_pos inner
  rcases seam_or_inside hout hne with
    ⟨left, right, hparts, hleft, hright⟩ | ⟨part, hpart, _, _, hinside⟩
  · exact ⟨left, right, hparts, hstart ▸ hleft, hstop ▸ hright⟩
  · obtain ⟨source, q, hq, hplain, rfl⟩ := h.plain_of_mem (List.Subset.refl _) hpart
    exact absurd (not_marker_of_plain hq hplain hinside) hshort.1.2

/-! Texts without markers. -/

theorem Splices.eq_of_plain (h : Splices loader chain pieces parts)
    (hplain : ∀ p ∈ pieces, p.inner? = none) : parts = pieces.map (·.text) := by
  induction h with
  | nil => rfl
  | plain _ _ ih =>
    exact congrArg _ (ih fun p hp => hplain p (List.mem_cons_of_mem _ hp))
  | page inner =>
    rw [hplain _ List.mem_cons_self] at inner
    exact nomatch inner

theorem Faults.not_plain {e : Error} (h : Faults loader chain pieces e) :
    ∃ p ∈ pieces, p.inner?.isSome := by
  induction h with
  | loop inner => exact ⟨_, List.mem_cons_self, Option.isSome_of_eq_some inner⟩
  | missing inner => exact ⟨_, List.mem_cons_self, Option.isSome_of_eq_some inner⟩
  | inside inner => exact ⟨_, List.mem_cons_self, Option.isSome_of_eq_some inner⟩
  | later _ _ ih =>
    obtain ⟨p, hp, hinner⟩ := ih
    exact ⟨p, List.mem_cons_of_mem _ hp, hinner⟩

/-- Expanding leaves a text without markers as it is. -/
theorem expandIncludes_of_plain (page : String) {text : String}
    (h : ∀ p ∈ scan [includeMarker] text, p.delimiter = none) :
    expandIncludes loader page text = .ok text := by
  have hplain : ∀ p ∈ scan [includeMarker] text, p.inner? = none := by
    intro p hp
    rw [Piece.inner?, h p hp]
    rfl
  have hends := expandIncludes_expands loader page text
  cases hresult : expandIncludes loader page text with
  | error e =>
    rw [hresult] at hends
    obtain ⟨p, hp, hinner⟩ := Faults.not_plain hends
    exact absurd (hplain p hp) (Option.isSome_iff_ne_none.1 hinner)
  | ok out =>
    rw [hresult] at hends
    obtain ⟨parts, hparts, rfl⟩ := hends
    obtain rfl := hparts.eq_of_plain hplain
    refine congrArg Except.ok (String.toList_inj.1 ?_)
    rw [String.toList_join, List.flatMap_map]
    exact text_scan [includeMarker] text

/-- An output is made of plain parts, and an include marker in it straddles a seam of them. -/
theorem expandIncludes_seamed {page text : String} (h : expandIncludes loader page text = .ok out) :
    ∃ parts, Seamed loader (normalize page) text out parts := by
  have hends := expandIncludes_expands loader page text
  rw [h] at hends
  obtain ⟨parts, hparts, rfl⟩ := hends
  have hstraddles : ∀ p ∈ scan [includeMarker] (String.join parts), p.delimiter.isSome →
      Straddles parts p := by
    intro p hp hd
    obtain ⟨d, hd⟩ := Option.isSome_iff_exists.1 hd
    exact hparts.straddles hp hd
  refine ⟨parts, hparts, rfl, hstraddles, fun hnone => ?_⟩
  have hplain : ∀ p ∈ scan [includeMarker] (String.join parts), p.delimiter = none := by
    intro p hp
    refine Classical.byContradiction fun hd => ?_
    have hsome := Option.isSome_iff_ne_none.2 hd
    exact hnone p hp hsome (hstraddles p hp hsome)
  exact ⟨hplain, fun other => expandIncludes_of_plain other hplain⟩

/-! A marker completed at a seam. -/

/-- The text of `a` ends a marker that whoever includes it can begin. -/
def halfLibrary : Library := [("a", "# b #\x7d"), ("b", "x")]

theorem expandIncludes_halfLibrary :
    expandIncludes halfLibrary.loader "page" "\x7b\x7b# a #\x7d" = .ok "\x7b# b #\x7d" := by
  have h : (expandIncludes halfLibrary.loader "page" "\x7b\x7b# a #\x7d").toOption =
      some "\x7b# b #\x7d" := by decide +kernel
  cases hresult : expandIncludes halfLibrary.loader "page" "\x7b\x7b# a #\x7d" with
  | error e =>
    rw [hresult] at h
    exact nomatch h
  | ok out =>
    rw [hresult] at h
    exact congrArg Except.ok (Option.some.inj h)

theorem expandIncludes_seamed_half :
    expandIncludes halfLibrary.loader "page" "\x7b\x7b# a #\x7d" = .ok "\x7b# b #\x7d" ∧
      ∃ parts, Seamed halfLibrary.loader (normalize "page") "\x7b\x7b# a #\x7d" "\x7b# b #\x7d"
        parts :=
  ⟨expandIncludes_halfLibrary, expandIncludes_seamed expandIncludes_halfLibrary⟩

theorem not_expandIncludes_complete : ¬ ∀ (loader : Loader) (page text out : String),
    expandIncludes loader page text = .ok out →
      (∀ p ∈ scan [includeMarker] out, p.delimiter = none) ∧
        expandIncludes loader page out = .ok out := by
  intro h
  obtain ⟨hplain, -⟩ := h _ _ _ _ expandIncludes_halfLibrary
  exact absurd hplain (by decide +kernel)

end Stencil.Page
