import Mathlib.Data.List.Forall2
import Mathlib.Data.List.TakeWhile
import Stencil.Fallible
import Stencil.Proofs.Template.Meaning
import Stencil.Proofs.Template.Numbering

/-! The outline of a compiled stream is an ordered tree: the root and a node for each fragment that
is no close marker, numbered as the fragments stand, each below one earlier node, and met in this
order on a walk from the root. -/

namespace Stencil.Outline

open Compile Brackets

/-- What a fragment stands for; a close marker stands for nothing. -/
def builds? (f : Fragment) : Option Opened := ((header? f).map .block).or ((leaf? f).map .node)

def Entry.BuiltFrom (e : Entry) (f : Fragment) : Prop := ∃ o, builds? f = some o ∧ e.top? = some o

/-! Nodes and the fragments they are built from. -/

section

variable {f : Fragment} {fs : List Fragment} {header : Header} {n : Node}

theorem builds?_block (h : header? f = some header) : builds? f = some (.block header) := by
  simp [builds?, h]

theorem builds?_leaf (h : leaf? f = some n) : builds? f = some (.node n) := by
  simp [builds?, h, (header?_of_leaf? h).1]

theorem body_close (header : Header) (ns : List Node) : (header.close ns).body = ns := by
  cases header with
  | array items => rfl
  | conditional f test => exact List.takeWhile_append_dropWhile

theorem top_close (header : Header) (ns : List Node) : (header.close ns).top = .block header := by
  cases header with
  | _ => rfl

theorem leaf_cases (h : leaf? f = some n) :
    n = .text f.raw ∨ n = .variable f.clean ∨ n = .elseMark := by
  unfold leaf? at h
  split at h
  · exact .inl (Option.some.inj h).symm
  · exact .inr (.inl (Option.some.inj h).symm)
  · next ho =>
    obtain rfl := Option.some.inj h
    exact .inr (.inr (openMarker_eq_node ho).1)
  · cases h

theorem entry_leaf (h : leaf? f = some n) (next : Nat) :
    ∃ e, entries next n = [e] ∧ e.BuiltFrom f := by
  have hbuilds := builds?_leaf h
  rcases leaf_cases h with rfl | rfl | rfl
  · exact ⟨_, rfl, _, hbuilds, rfl⟩
  · exact ⟨_, rfl, _, hbuilds, rfl⟩
  · exact ⟨_, rfl, _, hbuilds, rfl⟩

/-- A cut stops in front of a fragment that stops it. -/
theorem stop_of_cut {stop : Fragment → Bool} {depth : Nat} {c : Fragment} {rest : List Fragment}
    (h : (cut stop depth fs).2 = c :: rest) : stop c = true := by
  fun_induction cut stop depth fs with
  | case1 => cases h
  | case2 depth f fs hstop =>
    obtain ⟨rfl, -⟩ := List.cons.inj h
    exact hstop.2
  | case3 depth f fs hstop before after hcut ih =>
    rw [hcut] at ih
    exact ih h

/-- The fragments of a block and those behind it are all but its close marker. -/
theorem filter_body_behind (fs : List Fragment) :
    fs.filter (!closes ·) = (body fs).filter (!closes ·) ++ (behind fs).filter (!closes ·) := by
  have happ := cut_append closes 0 fs
  unfold body behind
  cases hcut : (cut closes 0 fs).2 with
  | nil =>
    rw [hcut, List.append_nil] at happ
    simp [happ]
  | cons c rest =>
    have hc := stop_of_cut hcut
    rw [hcut] at happ
    conv_lhs => rw [← happ]
    simp [hc]

theorem body_subset (fs : List Fragment) : body fs ⊆ fs := by
  conv_rhs => rw [← cut_append closes 0 fs]
  exact List.subset_append_left _ _

theorem behind_subset (fs : List Fragment) : behind fs ⊆ fs := by
  conv_rhs => rw [← cut_append closes 0 fs]
  intro f hf
  exact List.mem_append_right _ (List.mem_of_mem_tail hf)

theorem built_nodes (h : ∀ f ∈ fs, closes f ∨ (builds? f).isSome) (next : Nat) :
    List.Forall₂ Entry.BuiltFrom (entriesList next (nodes fs)) (fs.filter (!closes ·)) := by
  fun_induction nodes fs generalizing next with
  | case1 => exact .nil
  | case2 f fs header hh ihbody ihbehind =>
    obtain ⟨shape, he, htop, -⟩ := entries_eq next (header.close (nodes (body fs)))
    rw [top_close] at htop
    rw [body_close] at he htop
    have ho : closes f = false := closes_of_opens (by simp [opens, hh])
    have hfs := (List.forall_mem_cons.1 h).2
    have hbody := ihbody (fun g hg => hfs g (body_subset fs hg)) (next + 1)
    have hbehind := ihbehind (fun g hg => hfs g (behind_subset fs hg))
      (next + size (header.close (nodes (body fs))))
    rw [entriesList, he, List.cons_append, List.filter_cons_of_pos (by simp [ho]),
      filter_body_behind fs]
    exact .cons ⟨_, builds?_block hh, htop⟩ (List.rel_append hbody hbehind)
  | case3 f fs hh ih =>
    obtain ⟨hf, hfs⟩ := List.forall_mem_cons.1 h
    cases hl : leaf? f with
    | none =>
      have hc : closes f = true := by simpa [builds?, hh, hl] using hf
      rw [List.filter_cons_of_neg (by simp [hc])]
      exact ih hfs next
    | some n =>
      obtain ⟨e, he, hbuilt⟩ := entry_leaf hl next
      rw [List.filter_cons_of_pos (by simp [(header?_of_leaf? hl).2])]
      show List.Forall₂ _ (entriesList next (n :: nodes fs)) _
      rw [entriesList, he]
      exact .cons hbuilt (ih hfs (next + size n))

theorem partsAtElse_close (header : Header) (ns : List Node) : PartsAtElse (header.close ns) := by
  cases header with
  | array items => trivial
  | conditional f test =>
    constructor
    · intro n hn
      simpa using List.mem_takeWhile_imp hn
    · intro n hn
      rw [← List.find?_eq_head?_dropWhile_not] at hn
      exact List.find?_some hn

theorem parted_nodes (fs : List Fragment) : Throughout PartsAtElse (nodes fs) := by
  fun_induction nodes fs with
  | case1 => exact .nil
  | case2 f fs header hh ihbody ihbehind =>
    refine .cons (partsAtElse_close header _) ?_ ihbehind
    rw [body_close]
    exact ihbody
  | case3 f fs hh ih =>
    cases hl : leaf? f with
    | none => exact ih
    | some n =>
      refine .cons ?_ ?_ ih
      · rcases leaf_cases hl with rfl | rfl | rfl <;> trivial
      · rcases leaf_cases hl with rfl | rfl | rfl <;> exact .nil

theorem builds_step {s s' : State} (h : s.step f = .ok s') : closes f ∨ (builds? f).isSome := by
  obtain ⟨n, hn, -⟩ | ⟨header, hh, -⟩ | ⟨hc, -⟩ := step_cases h
  · exact .inr (by simp [builds?_leaf hn])
  · exact .inr (by simp [builds?_block hh])
  · exact .inl hc

theorem builds_run {s s' : State} (h : fs.foldlM State.step s = .ok s') :
    ∀ f ∈ fs, closes f ∨ (builds? f).isSome := by
  induction fs generalizing s with
  | nil => simp
  | cons f fs ih =>
    rw [List.foldlM_cons] at h
    obtain ⟨t, hstep, hrun⟩ := bind_eq_ok h
    intro g hg
    rcases List.mem_cons.1 hg with rfl | hg
    · exact builds_step hstep
    · exact ih hrun g hg

theorem builds_of_accepted {t : Template} (h : Template.ofFragments fs = .ok t) :
    ∀ f ∈ fs, closes f ∨ (builds? f).isSome := by
  obtain ⟨s, hrun, -⟩ := bind_eq_ok h
  exact builds_run hrun

end

/-- An outline that is an ordered tree built from a stream of fragments. -/
structure Ordered (fs : List Fragment) (es : List Entry) : Prop where
  root : ∃ children, es.head? = some ⟨0, .root, children⟩
  count : es.length = (fs.filter (!closes ·)).length + 1
  /-- Behind the root there is an entry for each fragment that is no close marker, in order. -/
  built : List.Forall₂ Entry.BuiltFrom es.tail (fs.filter (!closes ·))
  numbered : es.map (·.id) = List.range es.length
  /-- Every entry but the root is among the children of the entries, and that once. -/
  owned : (es.flatMap (·.children)).Perm (List.range' 1 (es.length - 1))
  below : ∀ e ∈ es, ∀ id ∈ e.children, e.id < id
  scopes : ∀ e ∈ es, e.children ≠ [] → e.shape = .root ∨ e.opensScope
  preorder : walk es es.length 0 = List.range es.length
  branches : ∀ e ∈ es, e.Branches es

theorem outline_ordered {fs : List Fragment} {t : Template}
    (h : Template.ofFragments fs = .ok t) : Ordered fs t.outline := by
  have hlen : t.outline.length = sizes t + 1 := by
    rw [Template.outline, List.length_cons, length_entriesList]
  have hheld : Holds t.outline 1 (entriesList 1 t) := ⟨[], by simp [Template.outline]⟩
  have hnodes := ofFragments_eq_nodes h
  have hbuilt : List.Forall₂ Entry.BuiltFrom (entriesList 1 t) (fs.filter (!closes ·)) := by
    rw [hnodes]
    exact built_nodes (builds_of_accepted h) 1
  have hrange : List.range (sizes t + 1) = 0 :: List.range' 1 (sizes t) := by
    rw [List.range_eq_range', List.range'_succ]
  constructor
  · exact ⟨_, rfl⟩
  · rw [Template.outline, List.length_cons, hbuilt.length_eq]
  · exact hbuilt
  · rw [hlen, hrange, ← id_entriesList]
    rfl
  · rw [hlen, Nat.add_sub_cancel, Template.outline, List.flatMap_cons]
    exact children_entriesList 1 t
  · intro e he id hid
    rcases List.mem_cons.1 he with rfl | he
    · exact le_of_mem_ids hid
    · exact id_lt_children he hid
  · intro e he hne
    rcases List.mem_cons.1 he with rfl | he
    · exact .inl rfl
    · exact .inr (opensScope_of_children he hne)
  · have hroot : t.outline[0]? = some ⟨0, .root, ids 1 t⟩ := rfl
    rw [hlen, hrange, walk, hroot]
    dsimp only
    rw [walk_ids (Nat.le_refl _) hheld]
  · intro e he
    rcases List.mem_cons.1 he with rfl | he
    · intro _ _ _ _ hshape
      cases hshape
    · have hparted : Throughout PartsAtElse t := hnodes ▸ parted_nodes fs
      exact branches_entriesList hparted hheld he

/-- A loop around a conditional with two `else` markers, all left open. -/
theorem outline_ordered_openLoop :
    Template.ofFragments openLoop = .ok openLoopTree ∧ Ordered openLoop openLoopTree.outline ∧
      openLoopTree.outline.map (·.children) = [[1], [2], [3, 4, 5, 6, 7], [], [], [], [], []] ∧
      ∃ header test, openLoopTree.outline[2]?.map (·.shape) =
        some (.conditional header test [3] [5, 7]) :=
  ⟨ofFragments_openLoop, outline_ordered ofFragments_openLoop, rfl, _, _, rfl⟩

end Stencil.Outline
