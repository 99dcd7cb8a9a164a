import Stencil.Proofs.Template.Arena
import Stencil.Proofs.Template.Brackets

/-! What a stream of fragments writes in a scope, by its bracket structure alone, and that the
compiled template renders to the same text or fault. -/

namespace Stencil.Brackets

open Compile

def isElse (f : Fragment) : Bool := f.kind = .opening ∧ f.keyword? = some "else"

/-- Of the body of a conditional, what stands before its first own `else` marker. -/
def beforeElse (fs : List Fragment) : List Fragment := (cut isElse 0 fs).1

def afterElse (fs : List Fragment) : List Fragment := (cut isElse 0 fs).2.tail

/-- The branch of a conditional that is taken, of the body of the whole. -/
def branch (yes : Bool) (fs : List Fragment) : List Fragment :=
  if yes then beforeElse fs else afterElse fs

theorem length_branch_le (yes : Bool) (fs : List Fragment) : (branch yes fs).length ≤ fs.length := by
  have h := length_cut_le isElse 0 fs
  cases yes
  · exact h.2
  · exact h.1

/-- The text of a stream. Only the branch taken is read on, and an `else` marker writes nothing. -/
def emit (s : Scope) : List Fragment → Except RenderError String
  | [] => .ok ""
  | f :: fs =>
    match f.kind with
    | .text => do return f.raw ++ (← emit s fs)
    | .variable => do return (s.resolve f.clean).display ++ (← emit s fs)
    | .closing => emit s fs
    | .opening =>
      match header? f with
      | some (.array items) => do
        let rounds ← (← items.items s).mapM fun item => emit (.loop item s) (body fs)
        return String.join rounds ++ (← emit s (behind fs))
      | some (.conditional header test) => do
        let yes ← test.test s header
        let chosen ← emit s (branch yes (body fs))
        return chosen ++ (← emit s (behind fs))
      | none => emit s fs
termination_by fs => fs.length
decreasing_by
  all_goals
    have hbody := length_cut_le closes 0 fs
    have hbranch := fun yes => length_branch_le yes (body fs)
    simp only [body, behind, List.length_cons] at hbranch ⊢
    grind

section

variable {s : Scope} {f : Fragment} {fs : List Fragment} {n : Node}

theorem emit_nil : emit s [] = .ok "" := by rw [emit]

theorem emit_text (h : f.kind = .text) :
    emit s (f :: fs) = (do return f.raw ++ (← emit s fs)) := by
  rw [emit, h]

theorem emit_variable (h : f.kind = .variable) :
    emit s (f :: fs) = (do return (s.resolve f.clean).display ++ (← emit s fs)) := by
  rw [emit, h]

theorem emit_closing (h : f.kind = .closing) : emit s (f :: fs) = emit s fs := by
  rw [emit, h]

theorem emit_inert (h : f.kind = .opening) (hh : header? f = none) :
    emit s (f :: fs) = emit s fs := by
  rw [emit, h]
  simp only [hh]

theorem kind_of_header? {header : Header} (h : header? f = some header) : f.kind = .opening := by
  unfold header? at h
  split at h
  · assumption
  · cases h

theorem emit_array {items : Operand} (h : header? f = some (.array items)) :
    emit s (f :: fs) = (do
      let rounds ← (← items.items s).mapM fun item => emit (.loop item s) (body fs)
      return String.join rounds ++ (← emit s (behind fs))) := by
  rw [emit, kind_of_header? h]
  simp only [h]

theorem emit_conditional {header : Fragment} {test : Condition}
    (h : header? f = some (.conditional header test)) :
    emit s (f :: fs) = (do
      let yes ← test.test s header
      let chosen ← emit s (branch yes (body fs))
      return chosen ++ (← emit s (behind fs))) := by
  rw [emit, kind_of_header? h]
  simp only [h]

theorem openMarker_eq_node (h : openMarker f = .ok (.node n)) :
    n = .elseMark ∧ f.keyword? = some "else" := by
  unfold openMarker at h
  dsimp only at h
  split at h
  · cases ha : arrayHeader f <;> rw [ha] at h <;> cases h
  split at h
  · cases hi : ifHeader f <;> rw [hi] at h <;> cases h
  split at h
  · next helse =>
    cases hk : f.keyword? with
    | none => rw [hk] at helse; exact absurd helse (by decide)
    | some word =>
      rw [hk, Option.getD_some] at helse
      exact ⟨by cases h; rfl, by rw [helse]⟩
  · cases h

theorem leaf?_text (h : f.kind = .text) : leaf? f = some (.text f.raw) := by
  unfold leaf?
  rw [h]

theorem leaf?_variable (h : f.kind = .variable) : leaf? f = some (.variable f.clean) := by
  unfold leaf?
  rw [h]

theorem leaf?_closing (h : f.kind = .closing) : leaf? f = none := by
  unfold leaf?
  rw [h]

theorem leaf?_opening (hk : f.kind = .opening) (h : leaf? f = some n) : n = .elseMark := by
  unfold leaf? at h
  rw [hk] at h
  split at h <;> try contradiction
  next ho =>
    cases h
    exact (openMarker_eq_node ho).1

/-- The `else` markers are the fragments with the node of one. -/
theorem leaf?_isElse (h : leaf? f = some n) : n.isElse = isElse f := by
  unfold leaf? at h
  unfold isElse
  split at h
  · next hk => cases h; simp [hk, Node.isElse]
  · next hk => cases h; simp [hk, Node.isElse]
  · next hk ho =>
    obtain ⟨rfl, hword⟩ := openMarker_eq_node ho
    cases h
    simp [hk, hword, Node.isElse]
  · cases h

theorem openMarker_else (h : isElse f) : openMarker f = .ok (.node .elseMark) := by
  unfold isElse at h
  obtain ⟨-, hword⟩ := of_decide_eq_true h
  unfold openMarker
  rw [hword]
  rfl

theorem leaf?_else (h : isElse f) : leaf? f = some .elseMark := by
  have ho := openMarker_else h
  unfold isElse at h
  obtain ⟨hk, -⟩ := of_decide_eq_true h
  unfold leaf?
  rw [hk, ho]

theorem isElse_of_header? {header : Header} (h : header? f = some header) : isElse f = false := by
  cases he : isElse f with
  | false => rfl
  | true =>
    have := (header?_of_leaf? (leaf?_else he)).1
    rw [h] at this
    cases this

theorem depthAfter_zero (h : header? f = none) : depthAfter 0 f = 0 := by
  simp [depthAfter, opens, h]

theorem isElse_close (header : Header) (ns : List Node) : (header.close ns).isElse = false := by
  cases header <;> rfl

end

/-- Both ways part a body at the same place: at the first `else` fragment of its own, and at the
first `else` node. -/
theorem nodes_atElse (fs : List Fragment) :
    nodes (beforeElse fs) = (nodes fs).takeWhile (!·.isElse) ∧
      nodes (afterElse fs) = ((nodes fs).dropWhile (!·.isElse)).tail := by
  induction hn : fs.length using Nat.strongRecOn generalizing fs with
  | _ m ih =>
    subst hn
    cases fs with
    | nil => simp [beforeElse, afterElse, cut, nodes_nil]
    | cons f fs =>
      cases hh : header? f with
      | some header =>
        obtain ⟨hbefore, hafter⟩ := nodes_cut_block isElse hh (isElse_of_header? hh) fs
        have hlen : (behind fs).length < (f :: fs).length :=
          Nat.lt_succ_of_le (length_cut_le closes 0 fs).2
        obtain ⟨ihbefore, ihafter⟩ := ih _ hlen (behind fs) rfl
        rw [nodes_block hh]
        unfold beforeElse afterElse at *
        rw [hbefore, hafter, ihbefore, ihafter]
        simp [isElse_close]
      | none =>
        by_cases he : isElse f
        · rw [beforeElse, afterElse, cut_stop he, nodes_leaf (leaf?_else he)]
          simp [nodes_nil, Node.isElse]
        · obtain ⟨ihbefore, ihafter⟩ := ih _ (Nat.lt_succ_self _) fs rfl
          have hcut : cut isElse 0 (f :: fs) =
              (f :: (cut isElse (depthAfter 0 f) fs).1, (cut isElse (depthAfter 0 f) fs).2) :=
            cut_cons fun h => he h.2
          rw [depthAfter_zero hh] at hcut
          have hbefore : beforeElse (f :: fs) = f :: beforeElse fs := congrArg Prod.fst hcut
          have hafter : afterElse (f :: fs) = afterElse fs := congrArg (·.2.tail) hcut
          rw [hbefore, hafter, nodes_skip hh, nodes_skip hh, ihbefore, ihafter]
          cases hl : leaf? f with
          | none => simp
          | some n =>
            have hn : n.isElse = false := by rw [leaf?_isElse hl]; simpa using he
            simp [hn]

/-- What renders to nothing adds nothing to what follows. -/
theorem ok_empty_append (rest : Except RenderError String) :
    (do let first ← Except.ok ""; return first ++ (← rest)) = rest := by
  cases rest <;> simp [bind, Except.bind, pure, Except.pure]

theorem render_elseMark (s : Scope) : Node.render s .elseMark = .ok "" := by
  rw [Node.render]

theorem renderAll_cons (s : Scope) (n : Node) (ns : List Node) :
    Node.renderAll s (n :: ns) =
      (do let first ← n.render s; return first ++ (← Node.renderAll s ns)) := by
  rw [Node.renderAll]

theorem renderAll_elseMark (s : Scope) (ns : List Node) :
    Node.renderAll s (.elseMark :: ns) = Node.renderAll s ns := by
  rw [renderAll_cons, render_elseMark]
  exact ok_empty_append (Node.renderAll s ns)

/-- The `else` marker in front of the second branch writes nothing. -/
theorem renderAll_dropWhile (s : Scope) (ns : List Node) :
    Node.renderAll s (ns.dropWhile (!·.isElse)) =
      Node.renderAll s (ns.dropWhile (!·.isElse)).tail := by
  induction ns with
  | nil => rfl
  | cons n ns ih =>
    rw [List.dropWhile_cons]
    split
    · exact ih
    · next h =>
      cases n with
      | elseMark => exact renderAll_elseMark s ns
      | _ => exact absurd rfl h

theorem renderAll_nodes (s : Scope) (fs : List Fragment) :
    Node.renderAll s (nodes fs) = emit s fs := by
  induction hn : fs.length using Nat.strongRecOn generalizing s fs with
  | _ m ih =>
    subst hn
    cases fs with
    | nil => rw [nodes_nil, emit_nil, Node.renderAll]
    | cons f fs =>
      have ihfs := fun s => ih _ (Nat.lt_succ_self fs.length) s fs rfl
      have hbody := length_cut_le closes 0 fs
      have ihbody := fun s => ih _ (Nat.lt_succ_of_le hbody.1) s (body fs) rfl
      have ihbehind := fun s => ih _ (Nat.lt_succ_of_le hbody.2) s (behind fs) rfl
      cases hh : header? f with
      | none =>
        rw [nodes_skip hh]
        cases hk : f.kind with
        | text =>
          rw [emit_text hk, leaf?_text hk, ← ihfs]
          exact (renderAll_cons s _ _).trans (by rw [Node.render]; rfl)
        | «variable» =>
          rw [emit_variable hk, leaf?_variable hk, ← ihfs]
          exact (renderAll_cons s _ _).trans (by rw [Node.render]; rfl)
        | closing =>
          rw [emit_closing hk, leaf?_closing hk, ← ihfs]
          rfl
        | opening =>
          rw [emit_inert hk hh, ← ihfs]
          cases hl : leaf? f with
          | none => rfl
          | some n =>
            rw [leaf?_opening hk hl]
            exact renderAll_elseMark s (nodes fs)
      | some header =>
        rw [nodes_block hh, renderAll_cons, ihbehind]
        cases header with
        | array items =>
          rw [emit_array hh, Header.close, Node.render, funext fun item => ihbody (.loop item s)]
          simp
        | conditional header test =>
          obtain ⟨hbefore, hafter⟩ := nodes_atElse (body fs)
          have ihbranch := fun yes =>
            ih _ (Nat.lt_succ_of_le (Nat.le_trans (length_branch_le yes (body fs)) hbody.1)) s
              (branch yes (body fs)) rfl
          rw [emit_conditional hh, Header.close, Node.ofCondition, Node.render, renderAll_dropWhile,
            ← hbefore, ← hafter]
          simp only [bind_assoc]
          congr 1
          funext yes
          rw [← ihbranch yes]
          cases yes <;> rfl

/-- An accepted stream renders, in every scope, to the text or the first fault that its bracket
structure gives, along the nested template as well as along the numbers of its outline. -/
theorem render_eq_emit {fs : List Fragment} {t : Template}
    (h : Template.ofFragments fs = .ok t) (s : Scope) :
    Node.renderAll s t = emit s fs ∧ t.renderOutline s = emit s fs := by
  have ht : Node.renderAll s t = emit s fs := by
    rw [ofFragments_eq_nodes h, renderAll_nodes]
  exact ⟨ht, t.renderOutline_eq s ▸ ht⟩

/-- A marker or a text with nothing around it. -/
def lone (kind : Fragment.Kind) (clean : String) : Fragment := ⟨kind, clean, clean, ⟨0, 0, 1, 1⟩⟩

/-- A loop and a conditional with two `else` markers, both left open. -/
def openLoop : List Fragment :=
  [lone .opening "array 'ab'", lone .opening "if item", lone .variable "item",
    lone .opening "else", lone .text "-", lone .opening "else", lone .text "+"]

def openLoopTree : Template :=
  [.array (.literal (.str "ab"))
    [.conditional (lone .opening "if item") (.truthy (.name "item")) [.variable "item"]
      [.elseMark, .text "-", .elseMark, .text "+"]]]

set_option maxRecDepth 2000 in
theorem ofFragments_openLoop : Template.ofFragments openLoop = .ok openLoopTree := by
  have harray : openMarker (lone .opening "array 'ab'") =
      .ok (.block (.array (.literal (.str "ab")))) := by
    have hword : (lone .opening "array 'ab'").keyword? = some "array" := by decide
    have hrest : afterKeyword (lone .opening "array 'ab'").clean.toList = "'ab'".toList := by cbv
    have hlit : Operand.ofText (String.ofList "'ab'".toList) = .literal (.str "ab") := by rfl
    rw [openMarker, hword, arrayHeader, hrest, hlit]
    rfl
  have hif : openMarker (lone .opening "if item") =
      .ok (.block (.conditional (lone .opening "if item") (.truthy (.name "item")))) := by
    have hword : (lone .opening "if item").keyword? = some "if" := by decide
    have hwords : (lone .opening "if item").words = ["if", "item"] := by decide
    have hname : Operand.ofText "item" = .name "item" := by rfl
    have hheader : ifHeader (lone .opening "if item") =
        .ok (.conditional (lone .opening "if item") (.truthy (.name "item"))) := by
      rw [ifHeader, hwords, ← hname]
      rfl
    rw [openMarker, hword, hheader]
    rfl
  have helse : openMarker (lone .opening "else") = .ok (.node .elseMark) := by
    have hword : (lone .opening "else").keyword? = some "else" := by decide
    exact openMarker_else (decide_eq_true ⟨rfl, hword⟩)
  simp only [Template.ofFragments, openLoop, List.foldlM_cons, List.foldlM_nil]
  simp only [State.step, harray, hif, helse]
  rfl

theorem render_eq_emit_openLoop :
    Template.ofFragments openLoop = .ok openLoopTree ∧
      Node.renderAll (.top .none) openLoopTree = emit (.top .none) openLoop ∧
      openLoopTree.renderOutline (.top .none) = emit (.top .none) openLoop ∧
      emit (.top .none) openLoop = .ok "ab" := by
  have h := render_eq_emit ofFragments_openLoop (.top .none)
  exact ⟨ofFragments_openLoop, h.1, h.2, h.1 ▸ rfl⟩

end Stencil.Brackets
