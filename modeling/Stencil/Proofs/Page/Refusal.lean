import Stencil.Proofs.Nesting
import Stencil.Proofs.Page.Blocks
import Stencil.Proofs.Scan.Tiling

/-! Which pages parse, and what the others are refused for. A block marker opens a block, closes one
or has no name. The first one that has no name, or that closes a block where none is open, gives the
error, and a page without such a marker parses, whatever else is in it. -/

namespace Stencil.Document

/-- What a block marker holds. The markers that name parents hold nothing of the kind. -/
def blockPayload? (p : Piece) : Option String :=
  if p.delimiter = some blockMarker then p.inner? else none

def closesBlock (p : Piece) : Bool :=
  (blockPayload? p).any fun payload => closeWord.toList.isPrefixOf payload.toList

def opensBlock (p : Piece) : Bool :=
  (blockPayload? p).any fun payload =>
    !closeWord.toList.isPrefixOf payload.toList && !payload.isEmpty

/-- What is wrong with a piece where it stands, behind `before`. -/
inductive Fault (before : List Piece) (p : Piece) : SyntaxError.Cause → Prop
  | closing (marker : closesBlock p)
      (none : before.countP opensBlock ≤ before.countP closesBlock) :
      Fault before p .unmatchedEndblock
  | nameless (marker : blockPayload? p = some "") : Fault before p .namelessBlock

/-- No piece has a fault. -/
def Faultless (ps : List Piece) : Prop :=
  ∀ before p cause, before ++ [p] <+: ps → ¬Fault before p cause

/-! What a piece of a page stands for. -/

/-- A piece of a page is text or a marker of one of its two kinds. -/
def OfPage (p : Piece) : Prop :=
  ∀ d, p.delimiter = some d → d = parentMarker ∨ d = blockMarker

theorem ofPage_of_mem_scan {source : String} {p : Piece}
    (hp : p ∈ scan [parentMarker, blockMarker] source) : OfPage p := by
  intro d hd
  simpa using Scan.delimiter_mem (parentMarker_oneLine.pair blockMarker_oneLine) hp hd

section

variable {p : Piece} {payload : String}

theorem ofPiece_of_blockPayload? (h : blockPayload? p = some payload) : Part.ofPiece p =
    if closeWord.toList.isPrefixOf payload.toList then .closing
    else if payload.isEmpty then .nameless else .opening payload := by
  unfold blockPayload? at h
  split at h
  · next hd =>
    have hne : blockMarker ≠ parentMarker := by decide
    rw [Part.ofPiece, hd, h]
    dsimp only
    rw [if_neg hne]
  · exact nomatch h

/-- Text and the markers that name parents are no block markers. -/
theorem ofPiece_of_not_block (hp : OfPage p) (h : blockPayload? p = none) :
    (∃ t, Part.ofPiece p = .text t) ∨ ∃ name, Part.ofPiece p = .parent name := by
  unfold blockPayload? at h
  unfold Part.ofPiece
  split
  · next d inner hd hinner =>
    split
    · exact .inr ⟨inner, rfl⟩
    · next hne =>
      obtain rfl := (hp d hd).resolve_left hne
      rw [if_pos hd, hinner] at h
      exact nomatch h
  · exact .inl ⟨p.text, rfl⟩

theorem closesBlock_iff (hp : OfPage p) : closesBlock p ↔ Part.ofPiece p = .closing := by
  unfold closesBlock
  cases h : blockPayload? p with
  | none => rcases ofPiece_of_not_block hp h with ⟨t, ht⟩ | ⟨name, hname⟩ <;> simp [*]
  | some payload =>
    rw [ofPiece_of_blockPayload? h, Option.any_some]
    split
    · next hword => simp [hword]
    · next hword => split <;> simp [hword]

theorem opensBlock_iff (hp : OfPage p) :
    opensBlock p ↔ ∃ name, Part.ofPiece p = .opening name := by
  unfold opensBlock
  cases h : blockPayload? p with
  | none => rcases ofPiece_of_not_block hp h with ⟨t, ht⟩ | ⟨name, hname⟩ <;> simp [*]
  | some payload =>
    rw [ofPiece_of_blockPayload? h, Option.any_some]
    split
    · next hword => simp [hword]
    · next hword => split <;> simp [*]

theorem blockPayload?_eq_empty_iff (hp : OfPage p) :
    blockPayload? p = some "" ↔ Part.ofPiece p = .nameless := by
  cases h : blockPayload? p with
  | none => rcases ofPiece_of_not_block hp h with ⟨t, ht⟩ | ⟨name, hname⟩ <;> simp [*]
  | some payload =>
    rw [ofPiece_of_blockPayload? h, Option.some_inj]
    split
    · next hword =>
      -- the closing word is not empty
      have hne : payload ≠ "" := by
        rintro rfl
        exact absurd hword (by decide)
      simp [hne]
    · split <;> simp_all

end

/-! One piece. -/

section

variable {s s' : State} {p : Piece} {before : List Piece} {e : SyntaxError}

/-- As many blocks are open as the pieces read so far opened and did not close. -/
def State.Behind (s : State) (before : List Piece) : Prop :=
  OpenAfter opensBlock closesBlock before s.frames.length

theorem State.Behind.add (hs : s.Behind before) (segments : List Segment) :
    (s.add segments).Behind before := by
  rw [State.Behind, State.length_frames_add]
  exact hs

theorem State.Behind.step (hs : s.Behind before) (hp : OfPage p) (h : s.step p = .ok s') :
    s'.Behind (before ++ [p]) := by
  have hdepth : OpenAfter opensBlock closesBlock before s.frames.length := hs
  have hcloses : closesBlock p = false ↔ Part.ofPiece p ≠ .closing := by
    rw [← Bool.not_eq_true, closesBlock_iff hp]
  have hopens : opensBlock p = false ↔ ∀ name, Part.ofPiece p ≠ .opening name := by
    rw [← Bool.not_eq_true, opensBlock_iff hp, not_exists]
  obtain ⟨t, hpart, rfl⟩ | ⟨name, hpart, rfl⟩ | ⟨name, hpart, rfl⟩ | ⟨hpart, hclose⟩ := step_cases h
  · exact State.Behind.add (hdepth.keep (hopens.2 (by simp [hpart])) (hcloses.2 (by simp [hpart]))) _
  · exact hdepth.keep (hopens.2 (by simp [hpart])) (hcloses.2 (by simp [hpart]))
  · exact hdepth.opened ((opensBlock_iff hp).2 ⟨name, hpart⟩) (hcloses.2 (by simp [hpart]))
  · obtain ⟨parents, root, _ | ⟨frame, frames⟩⟩ := s
    · cases hclose
    · obtain rfl := Option.some.inj hclose
      have hclosed : State.Behind ⟨parents, root, frames⟩ (before ++ [p]) :=
        hdepth.closed (hopens.2 (by simp [hpart])) ((closesBlock_iff hp).2 hpart)
      exact hclosed.add _

theorem step_eq_error_iff : s.step p = .error e ↔
    (Part.ofPiece p = .closing ∧ s.frames = [] ∧
        e = .ofMarker p.text p.span .unmatchedEndblock) ∨
      (Part.ofPiece p = .nameless ∧ e = .ofMarker p.text p.span .namelessBlock) := by
  unfold State.step
  cases hpart : Part.ofPiece p with
  | text t => simp
  | parent name => simp
  | opening name => simp
  | closing => obtain ⟨parents, root, _ | ⟨frame, frames⟩⟩ := s <;> simp [State.close?, eq_comm]
  | nameless => simp [eq_comm]

/-- A piece is refused where it has a fault. -/
theorem State.Behind.step_eq_error_iff (hs : s.Behind before) (hp : OfPage p) :
    s.step p = .error e ↔ ∃ cause, Fault before p cause ∧ e = .ofMarker p.text p.span cause := by
  have hnone : s.frames = [] ↔ before.countP opensBlock ≤ before.countP closesBlock := by
    rw [← List.length_eq_zero_iff]
    exact OpenAfter.eq_zero_iff hs
  rw [Document.step_eq_error_iff, ← closesBlock_iff hp, ← blockPayload?_eq_empty_iff hp, hnone]
  constructor
  · rintro (⟨hmarker, hcount, rfl⟩ | ⟨hmarker, rfl⟩)
    · exact ⟨_, .closing hmarker hcount, rfl⟩
    · exact ⟨_, .nameless hmarker, rfl⟩
  · rintro ⟨cause, hfault, rfl⟩
    cases hfault with
    | closing hmarker hcount => exact .inl ⟨hmarker, hcount, rfl⟩
    | nameless hmarker => exact .inr ⟨hmarker, rfl⟩

end

/-! Pages. -/

section

variable {source : String} {ps before : List Piece} {p : Piece} {s : State} {e : SyntaxError}

theorem behind_run (hps : ∀ p ∈ ps, OfPage p) (h : ps.foldlM State.step .start = .ok s) :
    s.Behind ps := by
  induction ps using List.reverseRecOn generalizing s with
  | nil =>
    obtain rfl := Except.ok.inj h
    exact OpenAfter.nil
  | append_singleton ps p ih =>
    obtain ⟨s₁, hrun, hlast⟩ := foldlM_append_eq_ok h
    obtain ⟨s₂, hstep, hdone⟩ := bind_eq_ok hlast
    obtain rfl := Except.ok.inj hdone
    have hs := ih (fun q hq => hps q (List.mem_append_left [p] hq)) hrun
    exact hs.step (hps p (by simp)) hstep

/-- Pieces that are all read have no fault among them. -/
theorem faultless_of_run (hps : ∀ p ∈ ps, OfPage p) (h : ps.foldlM State.step .start = .ok s) :
    Faultless ps := by
  rintro before p cause ⟨after, rfl⟩ hfault
  obtain ⟨s₁, hfront, -⟩ := foldlM_append_eq_ok h
  obtain ⟨s₂, hbefore, hstep⟩ := foldlM_append_eq_ok hfront
  have hs := behind_run (fun q hq => hps q (by simp [hq])) hbefore
  have herror := (hs.step_eq_error_iff (hps p (by simp))).2 ⟨cause, hfault, rfl⟩
  rw [List.foldlM_cons, herror] at hstep
  exact nomatch hstep

theorem parse_eq_error_iff : parse source = .error e ↔
    (scan [parentMarker, blockMarker] source).foldlM State.step .start = .error e := by
  constructor
  · intro h
    rcases bind_eq_error h with hrun | ⟨s, -, hdone⟩
    · exact hrun
    · exact nomatch hdone
  · intro h
    rw [parse, h]
    rfl

/-- An error that tells of the piece `p` behind `before`, the first one of the page with a fault. -/
structure Blames (source : String) (e : SyntaxError) (before : List Piece) (p : Piece) : Prop where
  first : before ++ [p] <+: scan [parentMarker, blockMarker] source
  faultless : Faultless before
  /-- The error has the text of the marker and the place of its span. -/
  told : ∃ cause, Fault before p cause ∧ e = .ofMarker p.text p.span cause
  /-- This is where the marker stands. -/
  found : ∃ above behind, source.toList = above ++ (e.marker.toList ++ behind) ∧
    e.line = lineAfter above ∧ e.column = columnAfter above
  /-- No piece further on matters. -/
  always : ∀ other, before ++ [p] <+: scan [parentMarker, blockMarker] other →
    parse other = .error e

theorem blames_of_step {after : List Piece}
    (hscan : scan [parentMarker, blockMarker] source = before ++ p :: after)
    (hrun : before.foldlM State.step .start = .ok s) (hstep : s.step p = .error e) :
    Blames source e before p := by
  have hmem (q : Piece) (hq : q ∈ before ++ p :: after) : OfPage q :=
    ofPage_of_mem_scan (hscan ▸ hq)
  have hbefore (q : Piece) (hq : q ∈ before) : OfPage q := hmem q (List.mem_append_left _ hq)
  have hs := behind_run hbefore hrun
  obtain ⟨cause, hfault, rfl⟩ := (hs.step_eq_error_iff (hmem p (by simp))).1 hstep
  refine ⟨⟨after, by simp [hscan]⟩, faultless_of_run hbefore hrun, ⟨cause, hfault, rfl⟩, ?_, ?_⟩
  · have hp : p ∈ scan [parentMarker, blockMarker] source := hscan ▸ (by simp)
    obtain ⟨above, behind, hsource, -, -, hline, hcolumn⟩ := Scan.placed_scan hp
    exact ⟨above, behind, hsource, hline, hcolumn⟩
  · rintro other ⟨after', hother⟩
    rw [List.append_assoc] at hother
    rw [parse_eq_error_iff, ← hother]
    exact foldlM_eq_error_iff.2 ⟨before, p, after', s, rfl, hrun, hstep⟩

end

/-- A page parses exactly when no block marker in it lacks a name or closes a block that is not
there, and any other is refused for the first marker that does. -/
theorem parse_judges (source : String) :
    ((∃ d, parse source = .ok d) ↔ Faultless (scan [parentMarker, blockMarker] source)) ∧
      ∀ e, parse source = .error e ↔ ∃ before p, Blames source e before p := by
  have hpage (p : Piece) (hp : p ∈ scan [parentMarker, blockMarker] source) : OfPage p :=
    ofPage_of_mem_scan hp
  have herror (e : SyntaxError) : parse source = .error e ↔ ∃ before p, Blames source e before p := by
    constructor
    · intro h
      obtain ⟨before, p, after, s, hscan, hrun, hstep⟩ :=
        foldlM_eq_error_iff.1 (parse_eq_error_iff.1 h)
      exact ⟨before, p, blames_of_step hscan hrun hstep⟩
    · rintro ⟨before, p, hblames⟩
      exact hblames.always source hblames.first
  refine ⟨⟨?_, ?_⟩, herror⟩
  · rintro ⟨d, hd⟩
    obtain ⟨s, hrun, -⟩ := bind_eq_ok hd
    exact faultless_of_run hpage hrun
  · intro h
    cases hparse : parse source with
    | ok d => exact ⟨d, rfl⟩
    | error e =>
      obtain ⟨before, p, hblames⟩ := (herror e).1 hparse
      obtain ⟨cause, hfault, -⟩ := hblames.told
      exact absurd hfault (h before p cause hblames.first)

-- markers that name parents close nothing, and blocks may stay open
example : (parse "\x7b! endblock !\x7d\x7b! a !\x7d\x7b? b ?\x7d").isOk = true := by decide +kernel

end Stencil.Document
