import Stencil.Command.Run
import Stencil.Proofs.Page.Ascent
import Stencil.Proofs.Page.Expansion

/-! Checking a page and assembling it. Both put the page together and compile it, so both find the
same faults up to there and word them alike; what is left to go wrong is the rendering, which only
assembling tries. -/

namespace Stencil

namespace Page

variable {loader : Loader} {page text : String} {c : Climb} {v : Visit String}
  {chain : List String} {pieces : List Piece} {e : Error}

/-- Whether a fault is one of rendering. -/
def Error.isRender : Error → Bool
  | render _ => true
  | _ => false

/-! Nothing before the rendering has a fault of rendering. -/

theorem not_isRender_of_load (h : loader.load page = .error e) : e.isRender = false := by
  obtain ⟨detail, rfl⟩ := Loader.load_eq_error h
  rfl

theorem not_isRender_of_loadDocument (h : loadDocument loader page = .error e) :
    e.isRender = false := by
  rcases loadDocument_eq_error h with ⟨detail, rfl⟩ | ⟨fault, rfl⟩
  · rfl
  · rfl

theorem not_isRender_of_parent? (h : c.parent? = .error e) : e.isRender = false := by
  unfold Climb.parent? at h
  split at h
  · exact nomatch h
  · exact nomatch h
  · obtain rfl := Except.error.inj h
    rfl

theorem Climbs.not_isRender (h : Climbs loader c v) (hv : v.result = .error e) :
    e.isRender = false := by
  induction h with
  | severalParents hparent =>
    obtain rfl := Except.error.inj hv
    exact not_isRender_of_parent? hparent
  | top => exact nomatch hv
  | duplicate =>
    obtain rfl := Except.error.inj hv
    rfl
  | loop =>
    obtain rfl := Except.error.inj hv
    rfl
  | unreadable _ _ _ load =>
    obtain rfl := Except.error.inj hv
    exact not_isRender_of_loadDocument load
  | up _ _ _ _ _ ih => exact ih hv

theorem not_isRender_of_inherit (h : (inherit loader page).result = .error e) :
    e.isRender = false := by
  have hascends := inherit_ascends loader page
  generalize inherit loader page = v at h hascends
  cases hascends with
  | unreadable load =>
    rw [← Except.error.inj h]
    exact not_isRender_of_loadDocument load
  | climbs _ rest => exact rest.not_isRender h

theorem Faults.not_isRender (h : Faults loader chain pieces e) : e.isRender = false := by
  induction h with
  | loop => rfl
  | missing _ _ load => exact not_isRender_of_load load
  | inside _ _ _ _ ih => exact ih
  | later _ _ ih => exact ih

theorem not_isRender_of_expandIncludes (h : expandIncludes loader page text = .error e) :
    e.isRender = false := by
  have hends := expandIncludes_expands loader page text
  rw [h] at hends
  exact Faults.not_isRender hends

theorem not_isRender_of_flatten (h : (flatten loader page).result = .error e) :
    e.isRender = false := by
  rcases bind_eq_error h with hinherit | ⟨text, -, hexpand⟩
  · exact not_isRender_of_inherit hinherit
  · exact not_isRender_of_expandIncludes hexpand

/-- Assembling, step by step. -/
theorem assemble_result (loader : Loader) (page : String) (data : Value) :
    (assemble loader page data).result = match (flatten loader page).result with
      | .error e => .error e
      | .ok source => match Template.compile source with
        | .error fault => .error (.malformed fault)
        | .ok t => (t.render data).mapError .render := by
  rw [assemble, Visit.bind]
  cases (flatten loader page).result with
  | error e => rfl
  | ok source =>
    dsimp only [Except.bind]
    rw [compile]
    cases Template.compile source with
    | error fault => rfl
    | ok t => rfl

end Page

namespace Command

open Files

variable {page : String} {t u : String}

/-- The outcome of checking a page without faults. -/
def inOrder (page : String) : Outcome := ⟨0, "", line ("OK: " ++ page)⟩

/-- A fault of a template is worded as it is when it is one of a page. -/
theorem message_malformed (fault : SyntaxError) :
    (Page.Error.malformed fault).message = fault.message := by
  unfold Page.Error.message
  rfl

/-- Checking, step by step. -/
theorem runCheck_eq (page root : String) (s : Store) :
    runCheck page root s = match (Page.flatten (Site.loader s root) page).result with
      | .error e => failure e.message
      | .ok source => match Template.compile source with
        | .error fault => failure fault.message
        | .ok _ => inOrder page := by
  unfold runCheck checkPage
  cases (Page.flatten (Site.loader s root) page).result with
  | error e => dsimp only [Except.bind]
  | ok source =>
    dsimp only [Except.bind]
    rw [Page.compile]
    cases Template.compile source with
    | error fault =>
      dsimp only [Except.mapError]
      rw [message_malformed]
    | ok t => dsimp only [Except.mapError, inOrder]

theorem failure_inj : failure t = failure u ↔ t = u := by
  constructor
  · intro h
    have herr : "Error: " ++ t ++ "\n" = "Error: " ++ u ++ "\n" := congrArg Outcome.err h
    simpa using herr
  · exact congrArg failure

theorem failure_ne_inOrder : failure t ≠ inOrder page := fun h => nomatch congrArg Outcome.exit h

/-- What checking a page and assembling it have in common. -/
structure Agrees (page root : String) (data : Value) (s : Store) : Prop where
  fails (t : String) : run s (.check page root) = (failure t, s) ↔
    ∃ e, (Page.assemble (Site.loader s root) page data).result = .error e ∧
      e.isRender = false ∧ e.message = t
  passes : run s (.check page root) = (inOrder page, s) ↔
    (∃ text, (Page.assemble (Site.loader s root) page data).result = .ok text) ∨
      ∃ e, (Page.assemble (Site.loader s root) page data).result = .error e ∧ e.isRender

theorem Agrees.of_fault {root : String} {data : Value} {s : Store} {e : Page.Error}
    (hcheck : runCheck page root s = failure e.message)
    (hassemble : (Page.assemble (Site.loader s root) page data).result = .error e)
    (he : e.isRender = false) : Agrees page root data s := by
  refine ⟨fun t => ?_, ?_⟩
  · rw [run, hcheck, hassemble, Prod.mk.injEq, failure_inj]
    constructor
    · rintro ⟨rfl, -⟩
      exact ⟨e, rfl, he, rfl⟩
    · rintro ⟨_, h, -, rfl⟩
      obtain rfl := Except.error.inj h
      exact ⟨rfl, rfl⟩
  · rw [run, hcheck, hassemble]
    constructor
    · exact fun h => absurd (Prod.mk.inj h).1 failure_ne_inOrder
    · rintro (⟨_, h⟩ | ⟨_, h, hrender⟩)
      · exact nomatch h
      · obtain rfl := Except.error.inj h
        rw [he] at hrender
        exact nomatch hrender

/-- A page passes the check if and only if it can be assembled up to the rendering, and the text it
fails with is that of the fault that assembling meets before. -/
theorem check_agrees_assemble (page root : String) (data : Value) (s : Store) :
    Agrees page root data s := by
  have hcheck := runCheck_eq page root s
  have hassemble := Page.assemble_result (Site.loader s root) page data
  cases hflatten : (Page.flatten (Site.loader s root) page).result with
  | error e =>
    rw [hflatten] at hcheck hassemble
    exact .of_fault hcheck hassemble (Page.not_isRender_of_flatten hflatten)
  | ok source =>
    rw [hflatten] at hcheck hassemble
    dsimp only at hcheck hassemble
    cases hcompile : Template.compile source with
    | error fault =>
      rw [hcompile] at hcheck hassemble
      dsimp only at hcheck hassemble
      rw [← message_malformed] at hcheck
      exact .of_fault hcheck hassemble rfl
    | ok template =>
      rw [hcompile] at hcheck hassemble
      dsimp only at hcheck hassemble
      refine ⟨fun t => ?_, ?_⟩
      · rw [run, hcheck]
        constructor
        · exact fun h => absurd (Prod.mk.inj h).1.symm failure_ne_inOrder
        · rintro ⟨e, he, hrender, -⟩
          rw [hassemble] at he
          obtain ⟨fault, -, rfl⟩ := mapError_eq_error he
          exact nomatch hrender
      · rw [run, hcheck, hassemble]
        refine ⟨fun _ => ?_, fun _ => rfl⟩
        cases template.render data with
        | ok text => exact .inl ⟨text, rfl⟩
        | error fault => exact .inr ⟨.render fault, rfl, rfl⟩

end Command

end Stencil
