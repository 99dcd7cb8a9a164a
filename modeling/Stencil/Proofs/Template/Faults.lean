import Mathlib.Data.List.Induction
import Stencil.Fallible
import Stencil.Proofs.Nesting
import Stencil.Proofs.Template.Kept
import Stencil.Proofs.Template.Meaning

/-! Which templates compile, and what the others are refused for. A stream of fragments is well
formed when it never closes more blocks than it opened and every open marker in it is one of the
language. The first fragment that breaks this gives the error, and text behind it changes that only
where it completes a marker that starts in front of it. -/

namespace Stencil.Compile

open Brackets

/-- A marker that opens a loop or a conditional, going by its first word alone. -/
def beginsBlock (f : Fragment) : Bool :=
  f.kind = .opening ∧ (f.keyword? = some "if" ∨ f.keyword? = some "array")

/-- An open marker of the language: a condition of one or three words, a loop over one expression,
which holds blanks only if it is a literal, or an `else` marker. -/
inductive Legal (f : Fragment) : Prop
  | condition (keyword : f.keyword? = some "if")
      (arity : (f.words.drop 1).length = 1 ∨ (f.words.drop 1).length = 3)
  | loop (keyword : f.keyword? = some "array") (nonempty : afterKeyword f.clean.toList ≠ [])
      (single : (∀ c ∈ afterKeyword f.clean.toList, Text.isBlank c = false) ∨
        ∃ v, Literal.parse (String.ofList (afterKeyword f.clean.toList)) = .ok v)
  | otherwise (keyword : f.keyword? = some "else")

/-- What is wrong with an open marker. -/
inductive Misuse (f : Fragment) : SyntaxError.Cause → Prop
  | keyword (hif : f.keyword? ≠ some "if") (harray : f.keyword? ≠ some "array")
      (helse : f.keyword? ≠ some "else") : Misuse f (.unknownKeyword (f.keyword?.getD ""))
  | arity (keyword : f.keyword? = some "if") (hone : (f.words.drop 1).length ≠ 1)
      (hthree : (f.words.drop 1).length ≠ 3) : Misuse f .malformedCondition
  | empty (keyword : f.keyword? = some "array") (hempty : afterKeyword f.clean.toList = []) :
      Misuse f .missingItems
  | several (keyword : f.keyword? = some "array")
      (blank : ∃ c ∈ afterKeyword f.clean.toList, Text.isBlank c = true)
      (literal : ∀ v, Literal.parse (String.ofList (afterKeyword f.clean.toList)) ≠ .ok v) :
      Misuse f .severalItems

/-- What is wrong with a fragment where it stands, behind `before`. -/
inductive Fault (before : List Fragment) (f : Fragment) : SyntaxError.Cause → Prop
  | close (kind : f.kind = .closing) (none : before.countP beginsBlock ≤ before.countP closes) :
      Fault before f .unmatchedClose
  | marker {cause : SyntaxError.Cause} (kind : f.kind = .opening) (misuse : Misuse f cause) :
      Fault before f cause

structure WellFormed (fs : List Fragment) : Prop where
  /-- Up to any place there are no more close markers than blocks begun. -/
  balanced : ∀ before, before <+: fs → before.countP closes ≤ before.countP beginsBlock
  legal : ∀ f ∈ fs, f.kind = .opening → Legal f

/-! Open markers. -/

section

variable {f : Fragment} {cause : SyntaxError.Cause}

theorem Legal.not_misuse (h : Legal f) : ¬Misuse f cause := by
  intro hm
  cases h with
  | condition keyword arity =>
    cases hm with
    | keyword hif => exact hif keyword
    | arity _ hone hthree => exact arity.elim hone hthree
    | empty harray => simp [harray] at keyword
    | several harray => simp [harray] at keyword
  | loop keyword nonempty single =>
    cases hm with
    | keyword _ harray => exact harray keyword
    | arity hif => simp [hif] at keyword
    | empty _ hempty => exact nonempty hempty
    | several _ blank literal =>
      obtain ⟨c, hc, hblank⟩ := blank
      rcases single with hall | ⟨v, hv⟩
      · simp [hall c hc] at hblank
      · exact literal v hv
  | otherwise keyword =>
    cases hm with
    | keyword _ _ helse => exact helse keyword
    | arity hif => simp [hif] at keyword
    | empty harray => simp [harray] at keyword
    | several harray => simp [harray] at keyword

/-- The first word tells the faults apart, and for a loop whether anything follows it. -/
theorem Misuse.unique {cause' : SyntaxError.Cause} (h : Misuse f cause) (h' : Misuse f cause') :
    cause = cause' := by
  cases h <;> cases h' <;> simp_all

theorem keyword?_of_getD {word : String} (hne : word ≠ "") (h : f.keyword?.getD "" = word) :
    f.keyword? = some word := by
  cases hk : f.keyword? with
  | none =>
    rw [hk] at h
    exact absurd h.symm hne
  | some w =>
    rw [hk] at h
    exact congrArg some h

theorem ofText_cases (text : String) :
    (∃ v, Literal.parse text = .ok v ∧ Operand.ofText text = .literal v) ∨
      (∀ v, Literal.parse text ≠ .ok v) ∧ Operand.ofText text = .name text := by
  unfold Operand.ofText
  cases Literal.parse text with
  | ok v => exact .inl ⟨v, rfl, rfl⟩
  | error e => exact .inr ⟨nofun, rfl⟩

theorem arrayHeader_cases (hk : f.keyword? = some "array") :
    (∃ header, arrayHeader f = .ok header ∧ Legal f) ∨
      ∃ cause, arrayHeader f = .error (.atFragment f cause) ∧ Misuse f cause := by
  unfold arrayHeader
  dsimp only
  by_cases hempty : afterKeyword f.clean.toList = []
  · rw [if_pos (List.isEmpty_iff.2 hempty)]
    exact .inr ⟨_, rfl, .empty hk hempty⟩
  rw [if_neg fun h => hempty (List.isEmpty_iff.1 h)]
  rcases ofText_cases (String.ofList (afterKeyword f.clean.toList)) with
    ⟨v, hparse, htext⟩ | ⟨hparse, htext⟩
  · rw [htext]
    exact .inl ⟨_, rfl, .loop hk hempty (.inr ⟨v, hparse⟩)⟩
  · rw [htext]
    dsimp only
    split
    · next hblank =>
      obtain ⟨c, hc, hblank⟩ := List.any_eq_true.1 hblank
      exact .inr ⟨_, rfl, .several hk ⟨c, hc, hblank⟩ hparse⟩
    · next hblank =>
      refine .inl ⟨_, rfl, .loop hk hempty (.inl ?_)⟩
      intro c hc
      exact Bool.eq_false_iff.2 fun hb => hblank (List.any_eq_true.2 ⟨c, hc, hb⟩)

theorem ifHeader_cases (hk : f.keyword? = some "if") :
    (∃ header, ifHeader f = .ok header ∧ Legal f) ∨
      ∃ cause, ifHeader f = .error (.atFragment f cause) ∧ Misuse f cause := by
  unfold ifHeader
  split
  · next x hwords => exact .inl ⟨_, rfl, .condition hk (.inl (by simp [hwords]))⟩
  · next lhs op rhs hwords => exact .inl ⟨_, rfl, .condition hk (.inr (by simp [hwords]))⟩
  · next hone hthree =>
    refine .inr ⟨_, rfl, .arity hk ?_ ?_⟩
    · intro hlen
      obtain ⟨x, hx⟩ := List.length_eq_one_iff.1 hlen
      exact hone x hx
    · intro hlen
      obtain ⟨x, y, z, hxyz⟩ := List.length_eq_three.1 hlen
      exact hthree x y z hxyz

/-- All that an open marker can stand for. -/
theorem openMarker_cases (f : Fragment) :
    (∃ header, openMarker f = .ok (.block header) ∧ Legal f ∧
        (f.keyword? = some "if" ∨ f.keyword? = some "array")) ∨
      (openMarker f = .ok (.node .elseMark) ∧ f.keyword? = some "else") ∨
      ∃ cause, openMarker f = .error (.atFragment f cause) ∧ Misuse f cause := by
  unfold openMarker
  dsimp only
  split
  · next harray =>
    have hk := keyword?_of_getD (by decide) harray
    rcases arrayHeader_cases hk with ⟨header, hh, hlegal⟩ | ⟨cause, hh, hmisuse⟩
    · exact .inl ⟨header, by rw [hh]; rfl, hlegal, .inr hk⟩
    · exact .inr (.inr ⟨cause, by rw [hh]; rfl, hmisuse⟩)
  split
  · next hif =>
    have hk := keyword?_of_getD (by decide) hif
    rcases ifHeader_cases hk with ⟨header, hh, hlegal⟩ | ⟨cause, hh, hmisuse⟩
    · exact .inl ⟨header, by rw [hh]; rfl, hlegal, .inl hk⟩
    · exact .inr (.inr ⟨cause, by rw [hh]; rfl, hmisuse⟩)
  split
  · next helse => exact .inr (.inl ⟨rfl, keyword?_of_getD (by decide) helse⟩)
  · next harray hif helse =>
    refine .inr (.inr ⟨_, rfl, .keyword ?_ ?_ ?_⟩)
    · intro hk
      exact hif (by rw [hk]; rfl)
    · intro hk
      exact harray (by rw [hk]; rfl)
    · intro hk
      exact helse (by rw [hk]; rfl)

theorem Misuse.openMarker (h : Misuse f cause) :
    openMarker f = .error (.atFragment f cause) := by
  rcases openMarker_cases f with ⟨header, -, hlegal, -⟩ | ⟨-, hk⟩ | ⟨cause', ho, hm⟩
  · exact absurd h hlegal.not_misuse
  · exact absurd h (Legal.otherwise hk).not_misuse
  · rw [ho, h.unique hm]

end

/-! One fragment. -/

section

variable {s : State} {f : Fragment} {before : List Fragment} {cause : SyntaxError.Cause}

/-- A block that a marker closes is one less for the end of the stream, which would close it just
so. -/
theorem State.finish_close? {s' : State} (h : s.close? = some s') :
    s'.frames.length + 1 = s.frames.length ∧ s'.finish = s.finish := by
  obtain ⟨root, _ | ⟨frame, frames⟩⟩ := s
  · cases h
  · obtain rfl := Option.some.inj h
    rw [State.length_frames_add]
    refine ⟨rfl, ?_⟩
    cases frames <;> rfl

/-- A state with as many open blocks as a stream began and did not close. -/
def State.Behind (s : State) (before : List Fragment) : Prop :=
  OpenAfter beginsBlock closes before s.frames.length

theorem State.Behind.add (hs : s.Behind before) (n : Node) : (s.add n).Behind before := by
  rw [State.Behind, State.length_frames_add]
  exact hs

theorem not_beginsBlock (h : f.kind ≠ .opening) : beginsBlock f = false := by
  simp [beginsBlock, h]

theorem not_closes (h : f.kind ≠ .closing) : closes f = false := by
  simp [closes, h]

theorem State.Behind.keep (hs : s.Behind before) (hopening : f.kind ≠ .opening)
    (hclosing : f.kind ≠ .closing) : s.Behind (before ++ [f]) :=
  OpenAfter.keep hs (not_beginsBlock hopening) (not_closes hclosing)

/-- A fragment with nothing wrong about it makes a step. -/
theorem step_of_not_fault (hs : s.Behind before) (h : ∀ cause, ¬Fault before f cause) :
    ∃ s', s.step f = .ok s' ∧ s'.Behind (before ++ [f]) := by
  have hdepth : OpenAfter beginsBlock closes before s.frames.length := hs
  unfold State.step
  cases hk : f.kind with
  | text => exact ⟨_, rfl, (hs.keep (by simp [hk]) (by simp [hk])).add _⟩
  | «variable» => exact ⟨_, rfl, (hs.keep (by simp [hk]) (by simp [hk])).add _⟩
  | closing =>
    obtain ⟨root, _ | ⟨frame, frames⟩⟩ := s
    · exact absurd (.close hk (hdepth.eq_zero_iff.1 rfl)) (h _)
    · have hclosed : State.Behind ⟨root, frames⟩ (before ++ [f]) :=
        hdepth.closed (not_beginsBlock (by simp [hk])) (by simp [closes, hk])
      exact ⟨_, rfl, hclosed.add _⟩
  | opening =>
    have hcloses := not_closes (f := f) (by simp [hk])
    rcases openMarker_cases f with ⟨header, ho, -, hword⟩ | ⟨ho, hword⟩ | ⟨cause, -, hm⟩
    · refine ⟨s.enter header, by rw [ho]; rfl, ?_⟩
      exact hdepth.opened (by simp [beginsBlock, hk, hword]) hcloses
    · refine ⟨s.add .elseMark, by rw [ho]; rfl, ?_⟩
      exact State.Behind.add (hdepth.keep (by simp [beginsBlock, hword]) hcloses) _
    · exact absurd (.marker hk hm) (h cause)

theorem Fault.step (h : Fault before f cause) (hs : s.Behind before) :
    s.step f = .error (.atFragment f cause) := by
  unfold State.step
  cases h with
  | close hk hnone =>
    have hnil := List.length_eq_zero_iff.1 (OpenAfter.eq_zero_iff hs |>.2 hnone)
    obtain ⟨root, frames⟩ := s
    obtain rfl : frames = [] := hnil
    rw [hk]
    rfl
  | marker hk hm =>
    rw [hk, hm.openMarker]
    rfl

end

/-! Streams. -/

section

variable {fs before : List Fragment} {f : Fragment} {cause : SyntaxError.Cause}

theorem last_mem (h : before ++ [f] <+: fs) : f ∈ fs := h.subset (by simp)

theorem WellFormed.nil : WellFormed [] where
  balanced := by
    intro before h
    rw [List.prefix_nil.1 h]
    exact Nat.le_refl 0
  legal := by simp

theorem WellFormed.of_prefix (h : WellFormed fs) (hpre : before <+: fs) : WellFormed before where
  balanced first hfirst := h.balanced first (hfirst.trans hpre)
  legal f hf := h.legal f (hpre.subset hf)

theorem WellFormed.snoc (h : WellFormed fs) (hf : ∀ cause, ¬Fault fs f cause) :
    WellFormed (fs ++ [f]) where
  balanced := by
    intro before hpre
    rcases List.prefix_concat_iff.1 hpre with rfl | hpre
    · have hle := h.balanced fs (List.prefix_refl fs)
      rw [countP_snoc, countP_snoc]
      by_cases hc : closes f
      · have hlt : ¬fs.countP beginsBlock ≤ fs.countP closes := by
          intro hle
          exact hf _ (.close (by simpa [closes] using hc) hle)
        simp only [hc, if_true]
        omega
      · simp only [hc]
        simp
        omega
    · exact h.balanced before hpre
  legal := by
    intro g hg hk
    rcases List.mem_append.1 hg with hg | hg
    · exact h.legal g hg hk
    · obtain rfl := List.mem_singleton.1 hg
      rcases openMarker_cases g with ⟨header, -, hlegal, -⟩ | ⟨-, hword⟩ | ⟨cause, -, hm⟩
      · exact hlegal
      · exact .otherwise hword
      · exact absurd (.marker hk hm) (hf cause)

theorem Fault.not_wellFormed (h : Fault before f cause) : ¬WellFormed (before ++ [f]) := by
  intro hw
  cases h with
  | close hk hnone =>
    have hle := hw.balanced _ (List.prefix_refl _)
    rw [countP_snoc, countP_snoc, not_beginsBlock (by simp [hk])] at hle
    simp [closes, hk] at hle
    omega
  | marker hk hm => exact (hw.legal f (by simp) hk).not_misuse hm

/-- A stream is well formed or has a first fragment with a fault. -/
theorem wellFormed_or_fault (fs : List Fragment) :
    WellFormed fs ∨ ∃ before f cause, before ++ [f] <+: fs ∧ WellFormed before ∧
      Fault before f cause := by
  induction fs using List.reverseRecOn with
  | nil => exact .inl .nil
  | append_singleton fs f ih =>
    rcases ih with hw | ⟨before, g, cause, hpre, hw, hfault⟩
    · by_cases hf : ∃ cause, Fault fs f cause
      · obtain ⟨cause, hfault⟩ := hf
        exact .inr ⟨fs, f, cause, List.prefix_refl _, hw, hfault⟩
      · exact .inl (hw.snoc (not_exists.1 hf))
    · exact .inr ⟨before, g, cause, hpre.trans (List.prefix_append fs [f]), hw, hfault⟩

theorem WellFormed.run (h : WellFormed fs) :
    ∃ s, fs.foldlM State.step .start = .ok s ∧ s.Behind fs := by
  induction fs using List.reverseRecOn with
  | nil => exact ⟨.start, rfl, OpenAfter.nil⟩
  | append_singleton fs f ih =>
    obtain ⟨s, hrun, hs⟩ := ih (h.of_prefix (List.prefix_append fs [f]))
    obtain ⟨s', hstep, hs'⟩ := step_of_not_fault hs fun cause hfault => hfault.not_wellFormed h
    refine ⟨s', ?_, hs'⟩
    rw [List.foldlM_append, hrun, ok_bind, List.foldlM_cons, hstep]
    rfl

theorem WellFormed.ofFragments (h : WellFormed fs) : ∃ t, Template.ofFragments fs = .ok t := by
  obtain ⟨s, hrun, -⟩ := h.run
  exact ⟨s.finish, by rw [Template.ofFragments, hrun]; rfl⟩

/-- The first fault is told, whatever stands behind it. -/
theorem Fault.ofFragments (h : Fault before f cause) (hw : WellFormed before)
    (hpre : before ++ [f] <+: fs) : Template.ofFragments fs = .error (.atFragment f cause) := by
  obtain ⟨rest, rfl⟩ := hpre
  obtain ⟨s, hrun, hs⟩ := hw.run
  rw [Template.ofFragments, List.foldlM_append, List.foldlM_append, hrun, ok_bind,
    List.foldlM_cons, h.step hs]
  rfl

/-- Every error tells of a fragment. -/
theorem exists_of_ofFragments_error {e : SyntaxError} (h : Template.ofFragments fs = .error e) :
    ∃ g ∈ fs, ∃ cause, e = .atFragment g cause := by
  rcases wellFormed_or_fault fs with hw | ⟨before, g, cause, hpre, hw, hf⟩
  · obtain ⟨t, ht⟩ := hw.ofFragments
    cases h.symm.trans ht
  · have herror := hf.ofFragments hw hpre
    exact ⟨g, last_mem hpre, cause, Except.error.inj (h.symm.trans herror)⟩

theorem wellFormed_of_ofFragments {t : Template} (h : Template.ofFragments fs = .ok t) :
    WellFormed fs := by
  rcases wellFormed_or_fault fs with hw | ⟨before, f, cause, hpre, hw, hf⟩
  · exact hw
  · cases h.symm.trans (hf.ofFragments hw hpre)

theorem Fault.kind_ne_text (h : Fault before f cause) : f.kind ≠ .text := by
  intro hk
  cases h with
  | close kind => simp [hk] at kind
  | marker kind => simp [hk] at kind

end

/-! Sources. -/

/-- An error that tells of the fragment `f` behind `before`, the first one of the source that the
language does not allow. -/
structure Blames (source : String) (e : SyntaxError) (before : List Fragment) (f : Fragment) :
    Prop where
  first : before ++ [f] <+: Fragment.ofSource source
  allowed : WellFormed before
  refused : ¬WellFormed (before ++ [f])
  told : ∃ cause, Fault before f cause ∧ e = .atFragment f cause
  /-- The text of the fragment stands at the line and column told. -/
  found : e.marker = f.raw ∧ ∃ above behind,
    source.toList = above ++ (f.raw.toList ++ behind) ∧ e.line = lineAfter above ∧
      e.column = columnAfter above
  /-- No fragment further on matters. -/
  stream : ∀ fs, before ++ [f] <+: fs → Template.ofFragments fs = .error e
  /-- Text behind a head that takes in the fragment matters exactly where it completes a marker that
  starts before the fragment. -/
  behind : ∀ head tail, source = head ++ tail → f.span.stop ≤ head.utf8ByteSize → ∀ other,
    (Template.compile (head ++ other) = .error e ↔ ∀ m ∈ Fragment.ofSource (head ++ other),
      m.kind ≠ .text → m.span.start < f.span.start → m.span.stop ≤ head.utf8ByteSize)
  /-- No text on the lines below matters. -/
  lines : ∀ head tail, source = head ++ tail → e.line ≤ head.toList.count '\n' →
    ∀ other, Template.compile (head ++ other) = .error e

section

variable {head tail : String} {before : List Fragment} {f : Fragment} {cause : SyntaxError.Cause}

/-- The first fault stays the first one unless a marker that starts before it now reaches further
than the texts agree. -/
theorem Fault.compile_eq_error_iff (h : Fault before f cause) (hw : WellFormed before)
    (hpre : before ++ [f] <+: Fragment.ofSource (head ++ tail))
    (hstop : f.span.stop ≤ head.utf8ByteSize) (other : String) :
    Template.compile (head ++ other) = .error (.atFragment f cause) ↔
      ∀ m ∈ Fragment.ofSource (head ++ other), m.kind ≠ .text → m.span.start < f.span.start →
        m.span.stop ≤ head.utf8ByteSize := by
  have hf := last_mem hpre
  constructor
  · intro herror m hm _ hstart
    obtain ⟨g, hg, cause', htold⟩ := exists_of_ofFragments_error herror
    -- the fragment told stands where `f` stood, so that no other one reaches over that place
    have hplace := Fragment.start_eq_of_place hf hstop hg
      (congrArg SyntaxError.line htold).symm (congrArg SyntaxError.column htold).symm
    have hinside := Fragment.start_not_inside hg hm
    have hle := Fragment.start_le_stop hf
    omega
  · intro hnone
    rcases Fragment.ofSource_kept hpre h.kind_ne_text hstop other with
      hkept | ⟨m, hm, hk, hstart, hover⟩
    · exact h.ofFragments hw hkept
    · exact absurd hover (Nat.not_lt_of_le (hnone m hm hk hstart))

theorem Fault.blames {source : String} (h : Fault before f cause) (hw : WellFormed before)
    (hpre : before ++ [f] <+: Fragment.ofSource source) :
    Blames source (.atFragment f cause) before f where
  first := hpre
  allowed := hw
  refused := h.not_wellFormed
  told := ⟨cause, h, rfl⟩
  found := by
    obtain ⟨above, behind, hsource, -, -, hline, hcolumn⟩ :=
      Fragment.placed_ofSource (last_mem hpre)
    exact ⟨rfl, above, behind, hsource, hline, hcolumn⟩
  stream _ := h.ofFragments hw
  behind := by
    rintro head tail rfl hstop other
    exact h.compile_eq_error_iff hw hpre hstop other
  lines := by
    rintro head tail rfl hline other
    have hf := last_mem hpre
    have hline : f.span.line ≤ head.toList.count '\n' := hline
    have hstop := Fragment.stop_le_of_line hf h.kind_ne_text hline
    refine (h.compile_eq_error_iff hw hpre hstop other).2 fun m hm hk hstart => ?_
    refine Nat.le_of_not_lt fun hover => ?_
    have hlast := Fragment.line_of_over hf hstop hm hk hstart hover
    rw [lineAfter] at hlast
    omega

end

/-- A template compiles exactly when it is well formed, and any other is refused for its first
fault. -/
theorem compile_judges (source : String) :
    ((∃ t, Template.compile source = .ok t) ↔ WellFormed (Fragment.ofSource source)) ∧
      ∀ e, Template.compile source = .error e ↔ ∃ before f, Blames source e before f := by
  rcases wellFormed_or_fault (Fragment.ofSource source) with hw | ⟨before, f, cause, hpre, hw, hf⟩
  · obtain ⟨t, ht⟩ := hw.ofFragments
    refine ⟨⟨fun _ => hw, fun _ => ⟨t, ht⟩⟩, fun e => ⟨fun he => ?_, ?_⟩⟩
    · exact nomatch ht.symm.trans he
    · rintro ⟨before, f, hblames⟩
      exact absurd (hw.of_prefix hblames.first) hblames.refused
  · have herror : Template.compile source = .error (.atFragment f cause) := hf.ofFragments hw hpre
    refine ⟨⟨?_, ?_⟩, fun e => ⟨fun he => ?_, ?_⟩⟩
    · rintro ⟨t, ht⟩
      exact nomatch ht.symm.trans herror
    · intro hall
      exact absurd (hall.of_prefix hpre) hf.not_wellFormed
    · obtain rfl := Except.error.inj (herror.symm.trans he)
      exact ⟨before, f, hf.blames hw hpre⟩
    · rintro ⟨before', f', hblames⟩
      exact hblames.stream _ hblames.first

/-- The start of a variable that is not closed. -/
def unclosedText : Fragment := .ofText "\x7b\x7b x " ⟨0, 5, 1, 1⟩

def unknownMarker : Fragment := ⟨.opening, "\x7b% bad %\x7d", "bad", ⟨5, 14, 1, 6⟩⟩

theorem fault_unknownMarker : Fault [unclosedText] unknownMarker (.unknownKeyword "bad") :=
  .marker rfl (.keyword (by decide) (by decide) (by decide))

/-- Text behind the fragment can close a marker left open in front of it, which then takes it in. -/
theorem not_compile_append : ¬∀ source e before f other, Blames source e before f →
    f.span.stop = source.utf8ByteSize → Template.compile (source ++ other) = .error e := by
  intro h
  have hpre : [unclosedText] ++ [unknownMarker] <+:
      Fragment.ofSource "\x7b\x7b x \x7b% bad %\x7d" := by decide +kernel
  have hw : WellFormed ([] ++ [unclosedText]) :=
    WellFormed.nil.snoc fun _ hfault => hfault.kind_ne_text rfl
  have herror := h _ _ _ _ " \x7d\x7d" (fault_unknownMarker.blames hw hpre) (by decide)
  have hok :
      (Template.compile ("\x7b\x7b x \x7b% bad %\x7d" ++ " \x7d\x7d")).isOk = true := by
    decide +kernel
  rw [herror] at hok
  cases hok

end Stencil.Compile
