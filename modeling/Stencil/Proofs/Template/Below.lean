import Stencil.Proofs.Template.Faults

/-! Templates further down. Lines put above a template change nothing in it but line numbers: it
compiles as before or is refused for the same fault, and renders to the same text or error. -/

namespace Stencil

def SyntaxError.below (lines : Nat) (e : SyntaxError) : SyntaxError :=
  ⟨e.cause, e.marker, e.line + lines, e.column⟩

/-- Only a syntax error tells a line. -/
def RenderError.below (lines : Nat) : RenderError → RenderError
  | malformed e => malformed (e.below lines)
  | incomparable lhs op rhs => incomparable lhs op rhs
  | notIterable expression found => notIterable expression found

variable {above : List Char}

/-! Headers. -/

namespace Compile

def Header.below (above : List Char) : Header → Header
  | array items => array items
  | conditional header test => conditional (header.below above) test

def Opened.below (above : List Char) : Opened → Opened
  | block header => block (header.below above)
  | node n => node n

/-- What is read further down: the same, or the same error on a lower line. -/
def lowered {α : Type} (above : List Char) (move : α → α) (x : Except SyntaxError α) :
    Except SyntaxError α :=
  (x.map move).mapError (·.below (above.count '\n'))

theorem arrayHeader_below (f : Fragment) :
    arrayHeader (f.below above) = lowered above (·.below above) (arrayHeader f) := by
  unfold arrayHeader
  rw [f.clean_below]
  generalize afterKeyword f.clean.toList = rest
  dsimp only
  by_cases hempty : rest.isEmpty
  · rw [if_pos hempty, if_pos hempty]
    rfl
  rw [if_neg hempty, if_neg hempty]
  cases Operand.ofText (String.ofList rest) with
  | literal v => rfl
  | name name =>
    by_cases hblank : rest.any Text.isBlank
    · dsimp only
      rw [if_pos hblank, if_pos hblank]
      rfl
    · dsimp only
      rw [if_neg hblank, if_neg hblank]
      rfl

theorem ifHeader_below (f : Fragment) :
    ifHeader (f.below above) = lowered above (·.below above) (ifHeader f) := by
  unfold ifHeader
  rw [f.words_below]
  rcases f.words.drop 1 with _ | ⟨x, _ | ⟨y, _ | ⟨z, _ | ⟨w, ws⟩⟩⟩⟩ <;> rfl

theorem openMarker_below (f : Fragment) :
    openMarker (f.below above) = lowered above (·.below above) (openMarker f) := by
  unfold openMarker
  rw [f.keyword?_below, arrayHeader_below, ifHeader_below]
  generalize f.keyword?.getD "" = keyword
  dsimp only
  by_cases harray : keyword = "array"
  · rw [if_pos harray, if_pos harray]
    cases arrayHeader f <;> rfl
  by_cases hif : keyword = "if"
  · rw [if_neg harray, if_neg harray, if_pos hif, if_pos hif]
    cases ifHeader f <;> rfl
  rw [if_neg harray, if_neg harray, if_neg hif, if_neg hif]
  by_cases helse : keyword = "else"
  · rw [if_pos helse, if_pos helse]
    rfl
  · rw [if_neg helse, if_neg helse]
    rfl

/-! Streams. -/

open Brackets

theorem Legal.below {f : Fragment} (h : Legal f) : Legal (f.below above) := by
  cases h with
  | condition keyword arity => exact .condition keyword arity
  | loop keyword nonempty single => exact .loop keyword nonempty single
  | otherwise keyword => exact .otherwise keyword

theorem Misuse.below {f : Fragment} {cause : SyntaxError.Cause} (h : Misuse f cause) :
    Misuse (f.below above) cause := by
  cases h with
  | keyword hif harray helse => exact .keyword hif harray helse
  | arity keyword hone hthree => exact .arity keyword hone hthree
  | empty keyword hempty => exact .empty keyword hempty
  | several keyword blank literal => exact .several keyword blank literal

theorem countP_below {p : Fragment → Bool} (hp : ∀ f, p (f.below above) = p f)
    (fs : List Fragment) : (fs.map (·.below above)).countP p = fs.countP p := by
  rw [List.countP_map]
  apply List.countP_congr
  intro f _
  simp [hp]

variable {fs before : List Fragment} {f : Fragment} {cause : SyntaxError.Cause}

theorem Fault.below (h : Fault before f cause) :
    Fault (before.map (·.below above)) (f.below above) cause := by
  cases h with
  | close kind none =>
    refine .close kind ?_
    rwa [countP_below fun _ => rfl, countP_below fun _ => rfl]
  | marker kind misuse => exact .marker kind misuse.below

theorem WellFormed.below (h : WellFormed fs) : WellFormed (fs.map (·.below above)) where
  balanced := by
    intro before hpre
    obtain ⟨first, hfirst, rfl⟩ := List.prefix_map_iff.1 hpre
    rw [countP_below fun _ => rfl, countP_below fun _ => rfl]
    exact h.balanced first hfirst
  legal := by
    intro f hf hk
    obtain ⟨g, hg, rfl⟩ := List.mem_map.1 hf
    exact (h.legal g hg hk).below

end Compile

namespace Brackets

open Compile

theorem header?_below (f : Fragment) :
    header? (f.below above) = (header? f).map (·.below above) := by
  unfold header?
  rw [f.kind_below, openMarker_below]
  cases f.kind with
  | opening =>
    cases openMarker f with
    | error e => rfl
    | ok opened => cases opened <;> rfl
  | _ => rfl

theorem depthAfter_below (depth : Nat) (f : Fragment) :
    depthAfter depth (f.below above) = depthAfter depth f := by
  have hopens : opens (f.below above) = opens f := by
    rw [opens, header?_below, Option.isSome_map, opens]
  have hcloses : closes (f.below above) = closes f := rfl
  rw [depthAfter, hopens, hcloses, depthAfter]

theorem cut_below {stop : Fragment → Bool} (hstop : ∀ f, stop (f.below above) = stop f)
    (depth : Nat) (fs : List Fragment) :
    cut stop depth (fs.map (·.below above)) =
      ((cut stop depth fs).1.map (·.below above), (cut stop depth fs).2.map (·.below above)) := by
  induction fs generalizing depth with
  | nil => rfl
  | cons f fs ih =>
    rw [List.map_cons]
    by_cases h : depth = 0 ∧ stop f
    · obtain ⟨rfl, hf⟩ := h
      rw [cut_stop hf, cut_stop ((hstop f).trans hf)]
      rfl
    · rw [cut_cons h, cut_cons (by rwa [hstop]), depthAfter_below, ih]
      rfl

theorem body_below (fs : List Fragment) :
    body (fs.map (·.below above)) = (body fs).map (·.below above) := by
  rw [body, cut_below fun _ => rfl, body]

theorem behind_below (fs : List Fragment) :
    behind (fs.map (·.below above)) = (behind fs).map (·.below above) := by
  rw [behind, cut_below fun _ => rfl, behind, List.map_tail]

theorem branch_below (yes : Bool) (fs : List Fragment) :
    branch yes (fs.map (·.below above)) = (branch yes fs).map (·.below above) := by
  have hcut : cut isElse 0 (fs.map (·.below above)) = _ := cut_below (fun _ => rfl) 0 fs
  cases yes <;> simp [branch, beforeElse, afterElse, hcut]

end Brackets

/-! Rendering. -/

theorem Operator.test_below (lines : Nat) (op : Operator) (a b : Value) :
    (op.test a b).mapError (·.below lines) = op.test a b := by
  unfold Operator.test
  cases Value.compare? a b <;> cases op <;> rfl

theorem Operand.items_below (lines : Nat) (s : Scope) (x : Operand) :
    (x.items s).mapError (·.below lines) = x.items s := by
  unfold Operand.items
  cases (x.evaluate s).iterate? <;> rfl

theorem Condition.test_below (s : Scope) (header : Fragment) (test : Condition) :
    test.test s (header.below above) =
      (test.test s header).mapError (·.below (above.count '\n')) := by
  cases test with
  | truthy x => rfl
  | compare lhs op rhs =>
    rw [Condition.test, Condition.test]
    cases Operator.ofSymbol? op with
    | none => rfl
    | some o => exact (o.test_below _ _ _).symm

namespace Brackets

open Compile

/-- A stream writes the same further down; of its faults, those in a header are told lower. -/
theorem emit_below (s : Scope) (fs : List Fragment) :
    emit s (fs.map (·.below above)) = (emit s fs).mapError (·.below (above.count '\n')) := by
  fun_induction emit s fs with
  | case1 => exact emit_nil
  | case2 s f fs hk ih =>
    rw [List.map_cons, emit_text (f := f.below above) hk, ih, mapError_bind]
    rfl
  | case3 s f fs hk ih =>
    rw [List.map_cons, emit_variable (f := f.below above) hk, ih, mapError_bind]
    rfl
  | case4 s f fs hk ih => rw [List.map_cons, emit_closing (f := f.below above) hk, ih]
  | case5 s f fs hk items hh ihbody ihbehind =>
    have hbelow : header? (f.below above) = some (.array items) := by
      simp [header?_below, hh, Header.below]
    rw [List.map_cons, emit_array hbelow, body_below, behind_below, funext ihbody, ihbehind]
    simp only [mapError_bind, mapError_mapM, Operand.items_below]
    rfl
  | case6 s f fs hk header test hh ihbranch ihbehind =>
    have hbelow : header? (f.below above) = some (.conditional (header.below above) test) := by
      simp [header?_below, hh, Header.below]
    rw [List.map_cons, emit_conditional hbelow, body_below, behind_below, test.test_below, ihbehind]
    simp only [mapError_bind, branch_below, ihbranch]
    rfl
  | case7 s f fs hk hh ih =>
    have hbelow : header? (f.below above) = none := by simp [header?_below, hh]
    rw [List.map_cons, emit_inert (f := f.below above) hk hbelow, ih]

end Brackets

end Stencil
