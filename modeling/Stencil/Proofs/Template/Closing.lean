import Stencil.Proofs.Bounds.Compiler

/-! Blocks left open. The end of a stream closes them as close markers there would: as many of these
as there are open blocks change nothing, and the next one is refused. -/

namespace Stencil

open Brackets

namespace Compile

/-- The number of blocks that a stream begins and does not close. -/
def openBlocks (fs : List Fragment) : Nat := fs.countP beginsBlock - fs.countP closes

variable {s s' : State} {fs more : List Fragment} {t : Template} {c : Fragment}

theorem step_closing (hc : closes c) (h : s.close? = some s') : s.step c = .ok s' := by
  unfold State.step
  simp only [show c.kind = .closing from of_decide_eq_true hc, h]

theorem step_unmatched (hc : closes c) (h : s.close? = none) :
    s.step c = .error (.atFragment c .unmatchedClose) := by
  unfold State.step
  simp only [show c.kind = .closing from of_decide_eq_true hc, h]

theorem run_closing (hmore : ∀ c ∈ more, closes c) (hlength : more.length ≤ s.frames.length) :
    ∃ s', more.foldlM State.step s = .ok s' ∧ s'.frames.length + more.length = s.frames.length ∧
      s'.finish = s.finish := by
  induction more generalizing s with
  | nil => exact ⟨s, rfl, rfl, rfl⟩
  | cons c more ih =>
    obtain ⟨hc, hmore⟩ := List.forall_mem_cons.1 hmore
    rw [List.length_cons] at hlength
    cases hclose : s.close? with
    | none =>
      obtain ⟨root, _ | ⟨frame, frames⟩⟩ := s
      · exact absurd hlength (Nat.not_succ_le_zero _)
      · cases hclose
    | some s₁ =>
      obtain ⟨hopen, hfinish⟩ := State.finish_close? hclose
      obtain ⟨s', hrun, hleft, hend⟩ := ih (s := s₁) hmore (by omega)
      refine ⟨s', ?_, ?_, hend.trans hfinish⟩
      · rw [List.foldlM_cons, step_closing hc hclose]
        exact hrun
      · rw [List.length_cons]
        omega

theorem run_of_ofFragments (h : Template.ofFragments fs = .ok t) :
    ∃ s, fs.foldlM State.step .start = .ok s ∧ s.frames.length = openBlocks fs ∧ s.finish = t := by
  obtain ⟨s, hrun, hbehind⟩ := (wellFormed_of_ofFragments h).run
  have hopen : s.frames.length + fs.countP closes = fs.countP beginsBlock := hbehind
  rw [Template.ofFragments, hrun] at h
  refine ⟨s, hrun, ?_, Except.ok.inj h⟩
  rw [openBlocks]
  omega

end Compile

open Compile

variable {fs : List Fragment} {t : Template}

/-- Behind an accepted stream close markers stand for blocks left open: up to their number the
template and its outline stay the same, branches and all, and the first marker beyond it is
refused. -/
theorem Template.ofFragments_append_closing (h : ofFragments fs = .ok t) (more : List Fragment)
    (hmore : ∀ c ∈ more, closes c) :
    (more.length ≤ openBlocks fs → ofFragments (fs ++ more) = .ok t ∧
      Checked.build (fs ++ more) = Checked.build fs) ∧
      ∀ c, more[openBlocks fs]? = some c →
        ofFragments (fs ++ more) = .error (.atFragment c .unmatchedClose) := by
  obtain ⟨s, hrun, hopen, hfinish⟩ := run_of_ofFragments h
  constructor
  · intro hlength
    obtain ⟨s', hclose, -, hend⟩ := run_closing hmore (hopen ▸ hlength)
    have happ : ofFragments (fs ++ more) = .ok t := by
      rw [ofFragments, List.foldlM_append, hrun, ok_bind, hclose, ok_bind, hend, hfinish]
      rfl
    refine ⟨happ, ?_⟩
    rw [Checked.build_eq, Checked.build_eq, happ, h]
  · intro c hc
    obtain ⟨hlt, hget⟩ := List.getElem?_eq_some_iff.1 hc
    -- the markers in front of this one close all blocks
    have hsplit : more = more.take (openBlocks fs) ++ c :: more.drop (openBlocks fs + 1) := by
      rw [← hget, ← List.drop_eq_getElem_cons hlt, List.take_append_drop]
    have htake : (more.take (openBlocks fs)).length = s.frames.length := by
      rw [List.length_take, hopen]
      omega
    obtain ⟨⟨root, frames⟩, hclose, hleft, -⟩ :=
      run_closing (fun d hd => hmore d (List.mem_of_mem_take hd)) htake.le
    obtain rfl : frames = [] := by
      apply List.eq_nil_of_length_eq_zero
      rw [htake] at hleft
      exact Nat.right_eq_add.1 hleft.symm
    have hstep : State.step ⟨root, []⟩ c = .error (.atFragment c .unmatchedClose) :=
      step_unmatched (hmore c (List.mem_of_getElem? hc)) rfl
    rw [hsplit, ofFragments, List.foldlM_append, hrun, ok_bind, List.foldlM_append, hclose, ok_bind,
      List.foldlM_cons, hstep]
    rfl

/-- A conditional in a loop, both left open, behind which three markers close. -/
theorem Template.ofFragments_append_closing_openLoop :
    ofFragments openLoop = .ok openLoopTree ∧ openBlocks openLoop = 2 ∧
      ofFragments (openLoop ++ [lone .closing "end", lone .closing "endarray"]) =
        .ok openLoopTree ∧
      ofFragments (openLoop ++
        [lone .closing "end", lone .closing "endarray", lone .closing "endif"]) =
          .error (.atFragment (lone .closing "endif") .unmatchedClose) := by
  have hopen : openBlocks openLoop = 2 := by decide +kernel
  obtain ⟨htwo, -⟩ := ofFragments_append_closing ofFragments_openLoop
    [lone .closing "end", lone .closing "endarray"] (by decide)
  obtain ⟨-, hthree⟩ := ofFragments_append_closing ofFragments_openLoop
    [lone .closing "end", lone .closing "endarray", lone .closing "endif"] (by decide)
  rw [hopen] at htwo hthree
  exact ⟨ofFragments_openLoop, hopen, (htwo (Nat.le_refl 2)).1, hthree _ rfl⟩

end Stencil
