import Stencil.Fallible
import Stencil.Page.Document

/-! The blocks of a page as brackets. A page that parses consists of balanced pieces and, behind
opening markers that are never closed, of more balanced pieces. The stack of the parser holds the
openings still to be closed, each with the balanced pieces that follow it. -/

namespace Stencil.Document

/-- Pieces in which all block markers have partners, and the segments that they stand for. -/
inductive Balanced : List Piece → List Segment → Prop where
  | nil : Balanced [] []
  | text {p : Piece} {t : String} {ps : List Piece} {ss : List Segment}
    (part : Part.ofPiece p = .text t) (rest : Balanced ps ss) : Balanced (p :: ps) (.text t :: ss)
  | parent {p : Piece} {name : String} {ps : List Piece} {ss : List Segment}
    (part : Part.ofPiece p = .parent name) (rest : Balanced ps ss) : Balanced (p :: ps) ss
  | block {p q : Piece} {name : String} {inside behind : List Piece} {children ss : List Segment}
    (opening : Part.ofPiece p = .opening name) (content : Balanced inside children)
    (closing : Part.ofPiece q = .closing) (rest : Balanced behind ss) :
    Balanced (p :: inside ++ q :: behind) (.block name children :: ss)

/-- What follows balanced pieces to the end of a page: opening markers without a partner, which are
text, each with balanced pieces behind it. -/
inductive Trailing : List Piece → List Segment → Prop where
  | nil : Trailing [] []
  | unclosed {p : Piece} {name : String} {ps qs : List Piece} {ss ts : List Segment}
    (opening : Part.ofPiece p = .opening name) (inside : Balanced ps ss) (rest : Trailing qs ts) :
    Trailing (p :: ps ++ qs) (.text p.text :: ss ++ ts)

variable {ps qs : List Piece} {ss ts root : List Segment} {frames : List Frame} {p : Piece}
  {s s' : State}

theorem Balanced.append (h : Balanced ps ss) (rest : Balanced qs ts) :
    Balanced (ps ++ qs) (ss ++ ts) := by
  induction h with
  | nil => exact rest
  | text part _ ih => exact .text part ih
  | parent part _ ih => exact .parent part ih
  | block opening content closing _ _ ih =>
    rw [List.append_assoc, List.cons_append]
    exact .block opening content closing ih

/-- The payload of a marker that names a parent. -/
def parentName? (p : Piece) : Option String :=
  match Part.ofPiece p with
  | .parent name => some name
  | _ => none

/-- What one piece can do to the stack. -/
theorem step_cases (h : s.step p = .ok s') :
    (∃ t, Part.ofPiece p = .text t ∧ s' = s.add [.text t]) ∨
      (∃ name, Part.ofPiece p = .parent name ∧ s' = ⟨name :: s.parents, s.root, s.frames⟩) ∨
      (∃ name, Part.ofPiece p = .opening name ∧
        s' = ⟨s.parents, s.root, ⟨name, p.text, []⟩ :: s.frames⟩) ∨
      (Part.ofPiece p = .closing ∧ s.close? = some s') := by
  unfold State.step at h
  cases hp : Part.ofPiece p with
  | text t =>
    rw [hp] at h
    exact .inl ⟨t, rfl, (Except.ok.inj h).symm⟩
  | parent name =>
    rw [hp] at h
    exact .inr (.inl ⟨name, rfl, (Except.ok.inj h).symm⟩)
  | opening name =>
    rw [hp] at h
    exact .inr (.inr (.inl ⟨name, rfl, (Except.ok.inj h).symm⟩))
  | closing =>
    rw [hp] at h
    dsimp only at h
    split at h
    · next s'' hclose =>
      obtain rfl := Except.ok.inj h
      exact .inr (.inr (.inr ⟨rfl, hclose⟩))
    · exact nomatch h
  | nameless =>
    rw [hp] at h
    exact nomatch h

theorem parents_add (segments : List Segment) (s : State) :
    (s.add segments).parents = s.parents := by
  obtain ⟨parents, root, _ | ⟨frame, frames⟩⟩ := s <;> rfl

theorem parents_step (h : s.step p = .ok s') :
    s'.parents.reverse = s.parents.reverse ++ (parentName? p).toList := by
  unfold parentName?
  obtain ⟨t, hp, rfl⟩ | ⟨name, hp, rfl⟩ | ⟨name, hp, rfl⟩ | ⟨hp, hclose⟩ := step_cases h
  · rw [hp, parents_add]
    exact (List.append_nil _).symm
  · rw [hp]
    exact List.reverse_cons
  · rw [hp]
    exact (List.append_nil _).symm
  · obtain ⟨parents, root, _ | ⟨frame, frames⟩⟩ := s
    · exact nomatch hclose
    · obtain rfl := Option.some.inj hclose
      rw [hp, parents_add]
      exact (List.append_nil _).symm

/-- The pieces read so far lead to this stack. -/
def Leads (root : List Segment) : List Frame → List Piece → Prop
  | [], read => Balanced read root.reverse
  | frame :: frames, read => ∃ outer p inner, read = outer ++ p :: inner ∧
      Part.ofPiece p = .opening frame.name ∧ p.text = frame.marker ∧
      Balanced inner frame.done.reverse ∧ Leads root frames outer

/-- Balanced pieces add to what is innermost. -/
theorem Leads.add {read : List Piece} (h : Leads s.root s.frames read) (more : Balanced ps ss) :
    Leads (s.add ss.reverse).root (s.add ss.reverse).frames (read ++ ps) := by
  obtain ⟨parents, root, _ | ⟨frame, frames⟩⟩ := s
  · show Balanced (read ++ ps) (ss.reverse ++ root).reverse
    rw [List.reverse_append, List.reverse_reverse]
    exact Balanced.append h more
  · obtain ⟨outer, p, inner, rfl, hopening, hmarker, hinner, houter⟩ := h
    refine ⟨outer, p, inner ++ ps, by simp, hopening, hmarker, ?_, houter⟩
    show Balanced (inner ++ ps) (ss.reverse ++ frame.done).reverse
    rw [List.reverse_append, List.reverse_reverse]
    exact hinner.append more

theorem Leads.step {read : List Piece} (h : Leads s.root s.frames read) (hs : s.step p = .ok s') :
    Leads s'.root s'.frames (read ++ [p]) := by
  obtain ⟨t, hp, rfl⟩ | ⟨name, hp, rfl⟩ | ⟨name, hp, rfl⟩ | ⟨hp, hclose⟩ := step_cases hs
  · exact h.add (.text hp .nil)
  · have hadd := h.add (.parent hp .nil)
    obtain ⟨parents, root, _ | ⟨frame, frames⟩⟩ := s <;> exact hadd
  · exact ⟨read, p, [], rfl, hp, rfl, .nil, h⟩
  · obtain ⟨parents, root, _ | ⟨frame, frames⟩⟩ := s
    · exact nomatch hclose
    · obtain rfl := Option.some.inj hclose
      obtain ⟨outer, q, inner, rfl, hopening, -, hinner, houter⟩ := h
      have hadd := Leads.add (s := ⟨parents, root, frames⟩) houter (.block hopening hinner hp .nil)
      rw [List.append_assoc]
      exact hadd

theorem leads_run {read : List Piece} (h : Leads s.root s.frames read)
    (hrun : ps.foldlM State.step s = .ok s') :
    Leads s'.root s'.frames (read ++ ps) ∧
      s'.parents.reverse = s.parents.reverse ++ ps.filterMap parentName? := by
  induction ps generalizing s read with
  | nil =>
    obtain rfl := Except.ok.inj hrun
    exact ⟨by rwa [List.append_nil], by simp⟩
  | cons p ps ih =>
    rw [List.foldlM_cons] at hrun
    obtain ⟨t, hstep, hrest⟩ := bind_eq_ok hrun
    obtain ⟨hleads, hparents⟩ := ih (h.step hstep) hrest
    rw [List.append_assoc] at hleads
    refine ⟨hleads, ?_⟩
    rw [hparents, parents_step hstep, List.append_assoc, List.filterMap_cons]
    cases parentName? p <;> rfl

/-- What is still open at the end becomes text again, in place. -/
theorem Leads.unwind {read : List Piece} (h : Leads root frames read) (rest : Trailing qs ts) :
    ∃ before after bs us, read ++ qs = before ++ after ∧ Balanced before bs ∧ Trailing after us ∧
      (State.unwind root ts.reverse frames).reverse = bs ++ us := by
  induction frames generalizing read qs ts with
  | nil => exact ⟨read, qs, root.reverse, ts, rfl, h, rest, by simp [State.unwind]⟩
  | cons frame frames ih =>
    obtain ⟨outer, p, inner, rfl, hopening, hmarker, hinner, houter⟩ := h
    have hunwind : State.unwind root ts.reverse (frame :: frames) =
        State.unwind root (.text p.text :: frame.done.reverse ++ ts).reverse frames := by
      simp [State.unwind, hmarker]
    rw [hunwind, List.append_assoc]
    exact ih houter (.unclosed hopening hinner rest)

/-- A page that parses is balanced up to the openings that are never closed. -/
theorem parse_eq_ok {source : String} {d : Document} (h : parse source = .ok d) :
    d.parents = (scan [parentMarker, blockMarker] source).filterMap parentName? ∧
      ∃ before after ss ts, scan [parentMarker, blockMarker] source = before ++ after ∧
        Balanced before ss ∧ Trailing after ts ∧ d.segments = ss ++ ts := by
  obtain ⟨s, hrun, hfinish⟩ := bind_eq_ok h
  obtain rfl := Except.ok.inj hfinish
  have hstart : Leads State.start.root State.start.frames [] := Balanced.nil
  obtain ⟨hleads, hparents⟩ := leads_run hstart hrun
  obtain ⟨before, after, ss, ts, hread, hbefore, hafter, hsegments⟩ := hleads.unwind .nil
  rw [List.nil_append, List.append_nil] at hread
  exact ⟨hparents, before, after, ss, ts, hread, hbefore, hafter, hsegments⟩

end Stencil.Document
