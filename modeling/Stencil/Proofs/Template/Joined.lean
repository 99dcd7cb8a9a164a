import Stencil.Proofs.Template.Below

/-! Templates put together. Lines that close every block they open write their own text, whatever
template follows them, and that template writes what it writes alone. -/

namespace Stencil

open Brackets

namespace Compile

/-- A well-formed stream in which every block has a close marker of its own. -/
structure Closed (fs : List Fragment) : Prop where
  wellFormed : WellFormed fs
  balanced : fs.countP closes = fs.countP beginsBlock

variable {fs gs before : List Fragment} {f : Fragment} {cause : SyntaxError.Cause}

/-- The closed streams are those that leave no block open. -/
theorem closed_iff_run : Closed fs ↔ ∃ root, fs.foldlM State.step .start = .ok ⟨root, []⟩ := by
  constructor
  · intro h
    obtain ⟨⟨root, frames⟩, hrun, hbehind⟩ := h.wellFormed.run
    have hlen : frames.length + fs.countP closes = fs.countP beginsBlock := hbehind
    have hframes : frames = [] := by
      apply List.eq_nil_of_length_eq_zero
      have := h.balanced
      omega
    exact ⟨root, by rw [hrun, hframes]⟩
  · rintro ⟨root, hrun⟩
    have haccepted : Template.ofFragments fs = .ok (State.finish ⟨root, []⟩) := by
      rw [Template.ofFragments, hrun]
      rfl
    have hw := wellFormed_of_ofFragments haccepted
    obtain ⟨s, hrun', hbehind⟩ := hw.run
    obtain rfl := Except.ok.inj (hrun.symm.trans hrun')
    exact ⟨hw, by simpa [State.Behind, OpenAfter] using hbehind⟩

theorem Closed.text (x : String) (span : Span) : Closed [.ofText x span] :=
  closed_iff_run.2 ⟨[.text x], rfl⟩

theorem Closed.of_append_text {x : String} {span : Span} (h : Closed (fs ++ [.ofText x span])) :
    Closed fs where
  wellFormed := h.wellFormed.of_prefix (List.prefix_append fs _)
  balanced := by
    have := h.balanced
    rw [countP_snoc, countP_snoc, not_beginsBlock (by simp [Fragment.ofText])] at this
    simpa [closes, Fragment.ofText] using this

theorem Closed.append_wellFormed (h : Closed fs) (hg : WellFormed gs) : WellFormed (fs ++ gs) where
  balanced := by
    intro before hpre
    rcases List.prefix_or_prefix_of_prefix hpre (List.prefix_append fs gs) with hpre' | ⟨more, rfl⟩
    · exact h.wellFormed.balanced before hpre'
    · have hle := hg.balanced more ((List.prefix_append_right_inj fs).1 hpre)
      simp only [List.countP_append, h.balanced]
      omega
  legal := by
    intro f hf
    rcases List.mem_append.1 hf with hf | hf
    · exact h.wellFormed.legal f hf
    · exact hg.legal f hf

theorem Closed.append_fault (h : Closed fs) (hf : Fault before f cause) :
    Fault (fs ++ before) f cause := by
  cases hf with
  | close kind none =>
    refine .close kind ?_
    simp only [List.countP_append, h.balanced]
    omega
  | marker kind misuse => exact .marker kind misuse

end Compile

open Compile

variable {fs gs before : List Fragment} {f : Fragment} {cause : SyntaxError.Cause} {data : Value}

namespace Brackets

theorem renderAll_append (s : Scope) (ms ns : List Node) :
    Node.renderAll s (ms ++ ns) =
      (do let first ← Node.renderAll s ms; return first ++ (← Node.renderAll s ns)) := by
  induction ms with
  | nil =>
    rw [List.nil_append, Node.renderAll]
    exact (ok_empty_append (Node.renderAll s ns)).symm
  | cons m ms ih =>
    rw [List.cons_append, renderAll_cons, ih, renderAll_cons]
    simp only [bind_assoc, pure_bind, String.append_assoc]

theorem emit_append (h : Closed fs) (s : Scope) (gs : List Fragment) :
    emit s (fs ++ gs) = (do let first ← emit s fs; return first ++ (← emit s gs)) := by
  obtain ⟨root, hrun⟩ := closed_iff_run.1 h
  rw [← renderAll_nodes, nodes_append hrun, renderAll_append, renderAll_nodes, renderAll_nodes]

theorem emit_single (s : Scope) (x : String) (span : Span) : emit s [.ofText x span] = .ok x := by
  rw [emit_text rfl, emit_nil]
  exact congrArg Except.ok String.append_empty

end Brackets

namespace Template

/-- The text of a stream of fragments, or what is wrong with it. -/
def renderFragments (fs : List Fragment) (data : Value) : Except RenderError String := do
  let t ← (ofFragments fs).mapError .malformed
  t.render data

theorem renderSource_eq (source : String) (data : Value) :
    renderSource source data = renderFragments (Fragment.ofSource source) data := rfl

theorem renderFragments_wellFormed (h : WellFormed fs) (data : Value) :
    renderFragments fs data = emit (.top data) fs := by
  obtain ⟨t, ht⟩ := h.ofFragments
  rw [renderFragments, ht, ← renderAll_nodes, ← ofFragments_eq_nodes ht]
  rfl

theorem renderFragments_fault (h : Fault before f cause) (hw : WellFormed before)
    (hpre : before ++ [f] <+: fs) (data : Value) :
    renderFragments fs data = .error (.malformed (.atFragment f cause)) := by
  rw [renderFragments, h.ofFragments hw hpre]
  rfl

/-- Further down a stream renders the same, or to the same error on a lower line. -/
theorem renderFragments_below (above : List Char) (fs : List Fragment) (data : Value) :
    renderFragments (fs.map (·.below above)) data =
      (renderFragments fs data).mapError (·.below (above.count '\n')) := by
  rcases wellFormed_or_fault fs with hw | ⟨before, f, cause, hpre, hw, hf⟩
  · rw [renderFragments_wellFormed hw, renderFragments_wellFormed hw.below, emit_below]
  · have hpre' := hpre.map (·.below above)
    rw [List.map_append] at hpre'
    rw [renderFragments_fault hf hw hpre, renderFragments_fault hf.below hw.below hpre']
    rfl

/-- A closed stream writes its text in front of what follows. -/
theorem renderFragments_append (h : Closed fs) {text : String}
    (hfs : renderFragments fs data = .ok text) (gs : List Fragment) :
    renderFragments (fs ++ gs) data = (renderFragments gs data).map (text ++ ·) := by
  rcases wellFormed_or_fault gs with hw | ⟨before, f, cause, hpre, hw, hf⟩
  · rw [renderFragments_wellFormed h.wellFormed] at hfs
    rw [renderFragments_wellFormed hw, renderFragments_wellFormed (h.append_wellFormed hw),
      emit_append h, hfs, ok_bind]
    cases emit (.top data) gs <;> rfl
  · have hpre' : fs ++ before ++ [f] <+: fs ++ gs := by
      rw [List.append_assoc, List.prefix_append_right_inj]
      exact hpre
    rw [renderFragments_fault hf hw hpre,
      renderFragments_fault (h.append_fault hf) (h.append_wellFormed hw) hpre']
    rfl

theorem renderFragments_text (x : String) (span : Span) (gs : List Fragment) (data : Value) :
    renderFragments (.ofText x span :: gs) data = (renderFragments gs data).map (x ++ ·) := by
  apply renderFragments_append (.text x span)
  rw [renderFragments_wellFormed (Closed.text x span).wellFormed, emit_single]

theorem renderFragments_snoc {x text : String} {span : Span} (h : Closed (fs ++ [.ofText x span]))
    (hfs : renderFragments (fs ++ [.ofText x span]) data = .ok text) :
    ∃ first, renderFragments fs data = .ok first ∧ text = first ++ x := by
  have hc := h.of_append_text
  rw [renderFragments_wellFormed h.wellFormed, emit_append hc] at hfs
  obtain ⟨first, hfirst, hrest⟩ := bind_eq_ok hfs
  rw [emit_single] at hrest
  refine ⟨first, ?_, (Except.ok.inj hrest).symm⟩
  rw [renderFragments_wellFormed hc.wellFormed, hfirst]

/-- Behind a closed template that ends a line, any other renders as it does alone: its text comes
behind that of the first, and its syntax errors are told as many lines further down. -/
theorem renderSource_append {s text : String} (hend : EndsLine s.toList)
    (hclosed : Closed (Fragment.ofSource s)) (hs : renderSource s data = .ok text) (t : String) :
    renderSource (s ++ t) data =
      match renderSource t data with
      | .ok rest => .ok (text ++ rest)
      | .error e => .error (e.below (s.toList.count '\n')) := by
  rw [renderSource_eq] at hs
  rw [renderSource_eq, renderSource_eq]
  rcases Fragment.ofSource_append hend t with
    happ | ⟨left, a, b, right, span, span', span'', hleft, hright, happ⟩
  · rw [happ, renderFragments_append hclosed hs, renderFragments_below]
    cases renderFragments (Fragment.ofSource t) data <;> rfl
  · -- the text at the end of the first and the one at the start of the second are one fragment
    rw [hleft] at hclosed hs
    have hl := hclosed.of_append_text
    obtain ⟨first, hfirst, rfl⟩ := renderFragments_snoc hclosed hs
    rw [happ, hright, renderFragments_append hl hfirst, renderFragments_text, renderFragments_text,
      renderFragments_below]
    cases renderFragments right data with
    | ok rest =>
      have hassoc : first ++ (a ++ b ++ rest) = first ++ a ++ (b ++ rest) := by
        simp only [String.append_assoc]
      exact congrArg Except.ok hassoc
    | error e => rfl

/-- A conditional in one line. -/
def lampLine : String := "\x7b% if 'a' %\x7dx\x7b% end %\x7d\n"

def lampHeader : Fragment := ⟨.opening, "\x7b% if 'a' %\x7d", "if 'a'", ⟨0, 12, 1, 1⟩⟩

def lampNodes : List Node :=
  [.text "\n", .conditional lampHeader (.truthy (.literal (.str "a"))) [.text "x"] []]

theorem run_lampLine :
    (Fragment.ofSource lampLine).foldlM State.step .start = .ok ⟨lampNodes, []⟩ := by
  have hsource : Fragment.ofSource lampLine =
      [lampHeader, .ofText "x" ⟨12, 13, 1, 13⟩,
        ⟨.closing, "\x7b% end %\x7d", "end", ⟨13, 22, 1, 14⟩⟩, .ofText "\n" ⟨22, 23, 1, 23⟩] := by
    decide +kernel
  have hmarker : openMarker lampHeader =
      .ok (.block (.conditional lampHeader (.truthy (.literal (.str "a"))))) := by
    have hword : lampHeader.keyword? = some "if" := by decide
    have hwords : lampHeader.words = ["if", "'a'"] := by decide
    have hliteral : Operand.ofText "'a'" = .literal (.str "a") := by rfl
    rw [openMarker, hword, ifHeader, hwords, ← hliteral]
    rfl
  rw [hsource]
  simp only [List.foldlM_cons, List.foldlM_nil, State.step]
  rw [show lampHeader.kind = .opening from rfl, hmarker]
  rfl

/-- Two lines, the second one with a close marker of no block. -/
def strayLines : String := "y\n\x7b% end %\x7d"

theorem renderSource_append_stray :
    EndsLine lampLine.toList ∧ Closed (Fragment.ofSource lampLine) ∧
      renderSource lampLine .none = .ok "x\n" ∧
      renderSource (lampLine ++ strayLines) .none =
        .error (.malformed ⟨.unmatchedClose, "\x7b% end %\x7d", 3, 1⟩) := by
  have hend : EndsLine lampLine.toList := by simp [EndsLine, lampLine]
  have hclosed : Closed (Fragment.ofSource lampLine) := closed_iff_run.2 ⟨lampNodes, run_lampLine⟩
  have hs : renderSource lampLine .none = .ok "x\n" := by
    rw [renderSource_eq, renderFragments, ofFragments, run_lampLine]
    rfl
  have hstray : Fragment.ofSource strayLines =
      [.ofText "y\n" ⟨0, 2, 1, 1⟩, ⟨.closing, "\x7b% end %\x7d", "end", ⟨2, 11, 2, 1⟩⟩] := by
    decide +kernel
  have ht : renderSource strayLines .none =
      .error (.malformed ⟨.unmatchedClose, "\x7b% end %\x7d", 2, 1⟩) := by
    rw [renderSource_eq, hstray]
    rfl
  have h := renderSource_append hend hclosed hs strayLines
  rw [ht] at h
  exact ⟨hend, hclosed, hs, h⟩

end Template

end Stencil
