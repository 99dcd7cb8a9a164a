import Stencil.Template.Compile

/-! The bracket structure of a stream of fragments, read off without a stack: the body of a block
reaches to its close marker or to the end of the stream. An accepted stream compiles to the nodes
that this structure has. -/

namespace Stencil.Brackets

open Compile

/-- The loop or conditional that a fragment opens. -/
def header? (f : Fragment) : Option Header :=
  match f.kind, openMarker f with
  | .opening, .ok (.block header) => some header
  | _, _ => none

def opens (f : Fragment) : Bool := (header? f).isSome

def closes (f : Fragment) : Bool := f.kind = .closing

/-- The node of a fragment that stands by itself. -/
def leaf? (f : Fragment) : Option Node :=
  match f.kind, openMarker f with
  | .text, _ => some (.text f.raw)
  | .variable, _ => some (.variable f.clean)
  | .opening, .ok (.node n) => some n
  | _, _ => none

/-- The number of open blocks behind a fragment. -/
def depthAfter (depth : Nat) (f : Fragment) : Nat :=
  if opens f then depth + 1 else if closes f then depth - 1 else depth

theorem closes_of_opens {f : Fragment} (h : opens f) : closes f = false := by
  unfold opens header? at h
  unfold closes
  split at h
  · next hk _ => simp [hk]
  · cases h

theorem depthAfter_opens {depth : Nat} {f : Fragment} (h : opens f) :
    depthAfter depth f = depth + 1 := by
  rw [depthAfter, if_pos h]

theorem depthAfter_closes {depth : Nat} {f : Fragment} (h : closes f) :
    depthAfter (depth + 1) f = depth := by
  have ho : ¬opens f = true := fun ho => by simp [closes_of_opens ho] at h
  rw [depthAfter, if_neg ho, if_pos h, Nat.add_sub_cancel]

theorem depthAfter_leaf {depth : Nat} {f : Fragment} (ho : ¬opens f = true) (hc : ¬closes f = true) :
    depthAfter depth f = depth := by
  rw [depthAfter, if_neg ho, if_neg hc]

/-- Parts a stream, inside `depth` open blocks, in front of the first fragment outside all of
them that satisfies `stop`. -/
def cut (stop : Fragment → Bool) : (depth : Nat) → List Fragment → List Fragment × List Fragment
  | _, [] => ([], [])
  | depth, f :: fs =>
    if depth = 0 ∧ stop f then ([], f :: fs)
    else
      let (before, after) := cut stop (depthAfter depth f) fs
      (f :: before, after)

/-- What stands in a block, of the stream behind its opening marker. -/
def body (fs : List Fragment) : List Fragment := (cut closes 0 fs).1

/-- What follows the close marker of a block. -/
def behind (fs : List Fragment) : List Fragment := (cut closes 0 fs).2.tail

section

variable {stop : Fragment → Bool} {depth : Nat} {f c : Fragment} {fs before after : List Fragment}

theorem cut_stop (h : stop f) : cut stop 0 (f :: fs) = ([], f :: fs) := by
  rw [cut, if_pos ⟨rfl, h⟩]

theorem cut_cons (h : ¬(depth = 0 ∧ stop f)) :
    cut stop depth (f :: fs) =
      (f :: (cut stop (depthAfter depth f) fs).1, (cut stop (depthAfter depth f) fs).2) := by
  rw [cut, if_neg h]

theorem cut_append (stop : Fragment → Bool) (depth : Nat) (fs : List Fragment) :
    (cut stop depth fs).1 ++ (cut stop depth fs).2 = fs := by
  fun_induction cut stop depth fs with
  | case1 => rfl
  | case2 => rfl
  | case3 depth f fs h before after hcut ih =>
    rw [hcut] at ih
    rw [List.cons_append, ih]

theorem length_cut_le (stop : Fragment → Bool) (depth : Nat) (fs : List Fragment) :
    (cut stop depth fs).1.length ≤ fs.length ∧ (cut stop depth fs).2.tail.length ≤ fs.length := by
  have h := congrArg List.length (cut_append stop depth fs)
  rw [List.length_append] at h
  rw [List.length_tail]
  omega

/-- Where a cut falls does not hang on what follows it. -/
theorem cut_prefix (h : cut stop depth fs = (before, c :: after)) (rest : List Fragment) :
    cut stop depth (before ++ c :: rest) = (before, c :: rest) := by
  induction fs generalizing depth before with
  | nil => simp [cut] at h
  | cons f fs ih =>
    by_cases hs : depth = 0 ∧ stop f
    · obtain ⟨rfl, hf⟩ := hs
      rw [cut_stop hf] at h
      cases h
      exact cut_stop hf
    · rw [cut_cons hs] at h
      obtain ⟨rfl, hafter⟩ := Prod.mk.inj h
      have hcut := ih (Prod.ext rfl hafter)
      rw [List.cons_append, cut_cons hs, hcut]

theorem cut_all (h : cut stop depth fs = (before, [])) : cut stop depth fs = (fs, []) := by
  have hfs := cut_append stop depth fs
  rw [h, List.append_nil] at hfs
  rw [h, show before = fs from hfs]

/-- A cut inside one more block falls behind the close marker of that block. -/
theorem cut_succ (stop : Fragment → Bool) (depth : Nat) (fs : List Fragment) :
    cut stop (depth + 1) fs =
      match cut closes 0 fs with
      | (inner, []) => (inner, [])
      | (inner, c :: rest) => (inner ++ c :: (cut stop depth rest).1, (cut stop depth rest).2) := by
  induction hn : fs.length using Nat.strongRecOn generalizing stop depth fs with
  | _ n ih =>
    subst hn
    cases fs with
    | nil => rfl
    | cons f fs =>
      have hsucc : ¬(depth + 1 = 0 ∧ stop f) := fun h => absurd h.1 (Nat.succ_ne_zero depth)
      have ihfs := fun stop depth => ih fs.length (Nat.lt_succ_self _) stop depth fs rfl
      rw [cut_cons hsucc]
      by_cases hc : closes f
      · rw [cut_stop hc, depthAfter_closes hc]
        rfl
      rw [cut_cons fun h => hc h.2]
      by_cases ho : opens f
      · -- the block opened here ends first, then the one around it
        rw [depthAfter_opens ho, depthAfter_opens ho, ihfs stop (depth + 1), ihfs closes 0]
        have hlen := congrArg List.length (cut_append closes 0 fs)
        rcases hcut : cut closes 0 fs with ⟨inner, _ | ⟨c, rest⟩⟩
        · rfl
        · rw [hcut] at hlen
          simp only [List.length_append, List.length_cons] at hlen
          have hrest : rest.length < (f :: fs).length := by rw [List.length_cons]; omega
          simp only [ih rest.length hrest stop depth rest rfl]
          rcases cut closes 0 rest with ⟨inner', _ | ⟨c', rest'⟩⟩ <;> simp
      · rw [depthAfter_leaf ho hc, depthAfter_leaf ho hc, ihfs]
        rcases cut closes 0 fs with ⟨inner, _ | ⟨c, rest⟩⟩ <;> simp

end

/-- The nodes of a stream. A close marker outside all blocks and a marker that opens nothing stand
for no node; an accepted stream has neither. -/
def nodes : List Fragment → List Node
  | [] => []
  | f :: fs =>
    match header? f with
    | some header => header.close (nodes (body fs)) :: nodes (behind fs)
    | none => (leaf? f).toList ++ nodes fs
termination_by fs => fs.length
decreasing_by
  · exact Nat.lt_succ_of_le (length_cut_le closes 0 fs).1
  · exact Nat.lt_succ_of_le (length_cut_le closes 0 fs).2
  · exact Nat.lt_succ_self _

section

variable {f : Fragment} {fs : List Fragment} {header : Header} {n : Node}

theorem nodes_nil : nodes [] = [] := by rw [nodes]

theorem nodes_block (h : header? f = some header) :
    nodes (f :: fs) = header.close (nodes (body fs)) :: nodes (behind fs) := by
  rw [nodes, h]

theorem nodes_skip (h : header? f = none) : nodes (f :: fs) = (leaf? f).toList ++ nodes fs := by
  rw [nodes, h]

theorem header?_of_leaf? (h : leaf? f = some n) : header? f = none ∧ closes f = false := by
  unfold leaf? at h
  unfold header? closes
  split at h <;> simp_all

theorem nodes_leaf (h : leaf? f = some n) : nodes (f :: fs) = n :: nodes fs := by
  rw [nodes_skip (header?_of_leaf? h).1, h]
  rfl

theorem body_nil : body [] = [] := rfl

theorem behind_nil : behind [] = [] := rfl

theorem body_leaf (h : leaf? f = some n) : body (f :: fs) = f :: body fs := by
  obtain ⟨ho, hc⟩ := header?_of_leaf? h
  rw [body, cut_cons (by simp [hc]), depthAfter_leaf (by simp [opens, ho]) (by simp [hc])]
  rfl

theorem behind_leaf (h : leaf? f = some n) : behind (f :: fs) = behind fs := by
  obtain ⟨ho, hc⟩ := header?_of_leaf? h
  rw [behind, cut_cons (by simp [hc]), depthAfter_leaf (by simp [opens, ho]) (by simp [hc])]
  rfl

theorem body_closes (h : closes f) : body (f :: fs) = [] := by
  rw [body, cut_stop h]

theorem behind_closes (h : closes f) : behind (f :: fs) = fs := by
  rw [behind, cut_stop h]
  rfl

/-- A cut that starts with a block takes all of the block. -/
theorem nodes_cut_block (stop : Fragment → Bool) (h : header? f = some header) (hs : stop f = false)
    (fs : List Fragment) :
    nodes (cut stop 0 (f :: fs)).1 =
        header.close (nodes (body fs)) :: nodes (cut stop 0 (behind fs)).1 ∧
      (cut stop 0 (f :: fs)).2 = (cut stop 0 (behind fs)).2 := by
  rw [cut_cons (by simp [hs]), depthAfter_opens (by simp [opens, h]), cut_succ]
  rcases hcut : cut closes 0 fs with ⟨inner, _ | ⟨c, rest⟩⟩
  · have hfs := cut_all hcut
    rw [hcut] at hfs
    obtain ⟨rfl, -⟩ := Prod.mk.inj hfs
    simp [nodes_block h, body, behind, hcut, cut, nodes_nil]
  · have hbody := cut_prefix hcut (cut stop 0 rest).1
    simp [nodes_block h, body, behind, hcut, hbody]

end

/-! The stack. -/

/-- The nodes that a state comes to on the stream left, where `inner` stands in reverse at the end
of the innermost open block. -/
def resume (root : List Node) : (inner : List Node) → List Frame → List Fragment → List Node
  | inner, [], fs => (inner ++ root).reverse ++ nodes fs
  | inner, frame :: frames, fs =>
    resume root [frame.header.close ((inner ++ frame.done).reverse ++ nodes (body fs))] frames
      (behind fs)

/-- What one fragment can do to the stack. -/
theorem step_cases {s s' : State} {f : Fragment} (h : s.step f = .ok s') :
    (∃ n, leaf? f = some n ∧ s' = s.add n) ∨
      (∃ header, header? f = some header ∧ s' = s.enter header) ∨
      (closes f ∧ s.close? = some s') := by
  unfold State.step at h
  unfold leaf? header? closes
  cases hk : f.kind with
  | text =>
    rw [hk] at h
    exact .inl ⟨_, rfl, (Except.ok.inj h).symm⟩
  | «variable» =>
    rw [hk] at h
    exact .inl ⟨_, rfl, (Except.ok.inj h).symm⟩
  | closing =>
    rw [hk] at h
    dsimp only at h
    split at h
    · next s'' hclose => exact .inr (.inr ⟨rfl, hclose.trans (congrArg some (Except.ok.inj h))⟩)
    · cases h
  | opening =>
    rw [hk] at h
    cases ho : openMarker f with
    | error e => rw [ho] at h; cases h
    | ok opened =>
      rw [ho] at h
      cases opened with
      | block header => exact .inr (.inl ⟨header, rfl, (Except.ok.inj h).symm⟩)
      | node n => exact .inl ⟨n, rfl, (Except.ok.inj h).symm⟩

theorem resume_add (n : Node) (s : State) (fs : List Fragment) :
    resume (s.add n).root [] (s.add n).frames fs = resume s.root [n] s.frames fs := by
  obtain ⟨root, _ | ⟨frame, frames⟩⟩ := s <;> rfl

theorem resume_leaf {f : Fragment} {n : Node} (h : leaf? f = some n) (root : List Node)
    (frames : List Frame) (fs : List Fragment) :
    resume root [] frames (f :: fs) = resume root [n] frames fs := by
  cases frames with
  | nil => simp [resume, nodes_leaf h]
  | cons frame frames => simp [resume, body_leaf h, behind_leaf h, nodes_leaf h]

theorem resume_block {f : Fragment} {header : Header} (h : header? f = some header)
    (root : List Node) (frames : List Frame) (fs : List Fragment) :
    resume root [] frames (f :: fs) = resume root [] (⟨header, []⟩ :: frames) fs := by
  cases frames with
  | nil => simp [resume, nodes_block h]
  | cons frame frames =>
    have ho : closes f = false := closes_of_opens (by simp [opens, h])
    obtain ⟨hbefore, hafter⟩ := nodes_cut_block closes h ho fs
    have hbody : nodes (body (f :: fs)) = header.close (nodes (body fs)) :: nodes (body (behind fs)) :=
      hbefore
    have hbehind : behind (f :: fs) = behind (behind fs) := congrArg List.tail hafter
    simp [resume, hbody, hbehind]

theorem resume_close {f : Fragment} (h : closes f) (root : List Node) (frame : Frame)
    (frames : List Frame) (fs : List Fragment) :
    resume root [] (frame :: frames) (f :: fs) =
      resume root [frame.header.close frame.done.reverse] frames fs := by
  simp [resume, body_closes h, behind_closes h, nodes_nil]

/-- A step changes nothing in what the state comes to. -/
theorem resume_step {s s' : State} {f : Fragment} (h : s.step f = .ok s') (fs : List Fragment) :
    resume s.root [] s.frames (f :: fs) = resume s'.root [] s'.frames fs := by
  obtain ⟨n, hn, rfl⟩ | ⟨header, hh, rfl⟩ | ⟨hc, hclose⟩ := step_cases h
  · rw [resume_leaf hn, resume_add]
  · exact resume_block hh s.root s.frames fs
  · obtain ⟨root, _ | ⟨frame, frames⟩⟩ := s
    · cases hclose
    · obtain rfl := Option.some.inj hclose
      rw [resume_close hc, resume_add]

theorem resume_run {s s' : State} {fs : List Fragment} (h : fs.foldlM State.step s = .ok s')
    (rest : List Fragment) :
    resume s.root [] s.frames (fs ++ rest) = resume s'.root [] s'.frames rest := by
  induction fs generalizing s with
  | nil =>
    obtain rfl : s = s' := Except.ok.inj h
    rfl
  | cons f fs ih =>
    rw [List.foldlM_cons] at h
    cases hs : s.step f with
    | error e => rw [hs] at h; cases h
    | ok t =>
      rw [hs] at h
      rw [List.cons_append, resume_step hs, ih h]

theorem resume_nil (root inner : List Node) (frames : List Frame) :
    resume root inner frames [] = (State.closeAll root inner frames).reverse := by
  induction frames generalizing inner with
  | nil => simp [resume, State.closeAll, nodes_nil]
  | cons frame frames ih => simp [resume, State.closeAll, body_nil, behind_nil, nodes_nil, ih]

/-- The template of an accepted stream has the nodes of its bracket structure. -/
theorem ofFragments_eq_nodes {fs : List Fragment} {t : Template}
    (h : Template.ofFragments fs = .ok t) : t = nodes fs := by
  unfold Template.ofFragments at h
  cases hrun : fs.foldlM State.step .start with
  | error e => rw [hrun] at h; cases h
  | ok s =>
    rw [hrun] at h
    calc t = s.finish := (Except.ok.inj h).symm
      _ = resume s.root [] s.frames [] := (resume_nil s.root [] s.frames).symm
      _ = resume [] [] [] (fs ++ []) := (resume_run hrun []).symm
      _ = nodes fs := by simp [resume]

/-- Behind a run that leaves no block open, a stream has the nodes it has alone. -/
theorem nodes_append {fs : List Fragment} {root : List Node}
    (h : fs.foldlM State.step .start = .ok ⟨root, []⟩) (gs : List Fragment) :
    nodes (fs ++ gs) = nodes fs ++ nodes gs := by
  have hrun : ∀ rest, nodes (fs ++ rest) = root.reverse ++ nodes rest := by
    intro rest
    simpa [resume, State.start] using resume_run h rest
  have hfs := hrun []
  rw [List.append_nil, nodes_nil, List.append_nil] at hfs
  rw [hrun gs, hfs]

end Stencil.Brackets
