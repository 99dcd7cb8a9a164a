import Stencil.Proofs.Files.Changes

/-! Runs of steps on a store. What a run leaves behind is composed of what its steps leave behind,
however the run ends. Making a directory with all that lead to it only adds directories. -/

namespace Stencil.Files

variable {ε α β : Type} {within : Location → Prop} {s s' : Store} {path : String}

namespace Action

theorem run_bind (x : Action ε α) (f : α → Action ε β) (s : Store) :
    (x >>= f).run s = match x.run s with
      | (.ok a, s') => (f a).run s'
      | (.error e, s') => (.error e, s') := by
  show (ExceptT.bindCont f (x s).1) (x s).2 = _
  unfold Action.run ExceptT.run
  rcases x s with ⟨_ | _, _⟩ <;> rfl

theorem run_get (s : Store) : run (get : Action ε Store) s = (.ok s, s) := rfl

theorem run_change (f : Store → Except Fault Store) (describe : Fault → ε) (s : Store) :
    (change f describe).run s = match f s with
      | .ok s' => (.ok (), s')
      | .error fault => (.error (describe fault), s) := by
  rw [change, run_bind, run_get]
  dsimp only
  cases f s <;> rfl

theorem run_look (f : Store → Except ε α) (s : Store) : (look f).run s = (f s, s) := by
  rw [look, run_bind, run_get]
  dsimp only
  cases f s <;> rfl

theorem run_adapt {ε' : Type} (g : ε → ε') (x : Action ε α) (s : Store) :
    run (ExceptT.adapt g x) s = ((x.run s).1.mapError g, (x.run s).2) := rfl

theorem run_bind_of_ok {x : Action ε α} {a : α} (h : x.run s = (.ok a, s'))
    (f : α → Action ε β) : (x >>= f).run s = (f a).run s' := by
  rw [run_bind, h]

theorem run_bind_of_error {x : Action ε α} {e : ε} (h : x.run s = (.error e, s'))
    (f : α → Action ε β) : (x >>= f).run s = (.error e, s') := by
  rw [run_bind, h]

theorem run_bind_eq_ok {x : Action ε α} {f : α → Action ε β} {b : β}
    (h : (x >>= f).run s = (.ok b, s')) :
    ∃ a between, x.run s = (.ok a, between) ∧ (f a).run between = (.ok b, s') := by
  rw [run_bind] at h
  split at h
  · next a between hx => exact ⟨a, between, hx, h⟩
  · exact nomatch h

theorem exists_run_eq_ok {x : Action ε α} {f : α → β} {b : β}
    (h : (x.run s).1.toOption.map f = some b) :
    ∃ a, x.run s = (.ok a, (x.run s).2) ∧ f a = b :=
  let ⟨a, ha, hf⟩ := Option.map_eq_some_iff.1 h
  ⟨a, Prod.ext (eq_ok_of_toOption ha) rfl, hf⟩

theorem evolves_bind {x : Action ε α} {f : α → Action ε β} (hx : Evolves within s (x.run s).2)
    (hf : ∀ a s', x.run s = (.ok a, s') → Evolves within s' ((f a).run s').2) :
    Evolves within s ((x >>= f).run s).2 := by
  rw [run_bind]
  split
  · next a s' hrun =>
    rw [hrun] at hx
    exact hx.trans (hf a s' hrun)
  · next e s' hrun =>
    rw [hrun] at hx
    exact hx

theorem evolves_change {f : Store → Except Fault Store} {describe : Fault → ε}
    (h : ∀ s', f s = .ok s' → Evolves within s s') :
    Evolves within s ((change f describe).run s).2 := by
  rw [run_change]
  split
  · next s' hs' => exact h s' hs'
  · exact .refl within s

/-- Looking changes nothing. -/
theorem evolves_look_bind {look : Store → Except ε α} {f : α → Action ε β}
    (h : ∀ a, look s = .ok a → Evolves within s ((f a).run s).2) :
    Evolves within s ((Action.look look >>= f).run s).2 := by
  refine evolves_bind (by rw [run_look]; exact .refl _ s) fun a s' hrun => ?_
  rw [run_look] at hrun
  obtain ⟨hlook, rfl⟩ := Prod.mk.inj hrun
  exact h a hlook

/-! Steps for the members of a list. -/

theorem evolves_foldlM {f : β → α → Action ε β} {as : List α}
    (h : ∀ a ∈ as, ∀ b s', Evolves within s s' → Evolves within s' ((f b a).run s').2) (b : β) :
    Evolves within s (run (as.foldlM f b) s).2 := by
  suffices ∀ b s', Evolves within s s' → Evolves within s' (run (as.foldlM f b) s').2 from
    this b s (.refl within s)
  induction as with
  | nil => exact fun b s' _ => .refl within s'
  | cons a as ih =>
    obtain ⟨ha, has⟩ := List.forall_mem_cons.1 h
    intro b s' hs'
    have hfirst := ha b s' hs'
    rw [List.foldlM_cons]
    refine evolves_bind hfirst fun b' s'' hrun => ih has b' s'' (hs'.trans ?_)
    rw [hrun] at hfirst
    exact hfirst

/-- The step for one member, between those for the members before and after it. -/
theorem run_foldlM_split {before after : List α} {a : α} {f : β → α → Action ε β} {b b' : β}
    (h : run ((before ++ a :: after).foldlM f b) s = (.ok b', s')) :
    ∃ first mid next mid', run (before.foldlM f b) s = (.ok first, mid) ∧
      (f first a).run mid = (.ok next, mid') ∧
      run (after.foldlM f next) mid' = (.ok b', s') := by
  rw [List.foldlM_append] at h
  obtain ⟨first, mid, hbefore, h⟩ := run_bind_eq_ok h
  rw [List.foldlM_cons] at h
  obtain ⟨next, mid', ha, hafter⟩ := run_bind_eq_ok h
  exact ⟨first, mid, next, mid', hbefore, ha, hafter⟩

theorem forM_eq_foldlM (names : List String) (f : String → Action ε Unit) :
    names.forM f = names.foldlM (fun _ name => f name) () := by
  induction names with
  | nil => rfl
  | cons name names ih => exact congrArg (f name >>= ·) (funext fun _ => ih)

theorem evolves_forM {names : List String} {f : String → Action ε Unit}
    (h : ∀ name ∈ names, ∀ s', Evolves within s s' → Evolves within s' ((f name).run s').2) :
    Evolves within s ((names.forM f).run s).2 := by
  rw [forM_eq_foldlM]
  exact evolves_foldlM (fun name hname _ => h name hname) ()

theorem run_forM_split {before after : List String} {name : String} {f : String → Action ε Unit}
    (h : ((before ++ name :: after).forM f).run s = (.ok (), s')) :
    ∃ mid mid', (before.forM f).run s = (.ok (), mid) ∧ (f name).run mid = (.ok (), mid') ∧
      (after.forM f).run mid' = (.ok (), s') := by
  simp only [forM_eq_foldlM] at h ⊢
  obtain ⟨_, mid, _, mid', hbefore, hname, hafter⟩ := run_foldlM_split h
  exact ⟨mid, mid', hbefore, hname, hafter⟩

/-- What every step keeps, all of them keep. -/
theorem forM_keeps {P : Store → Prop} {names : List String} {f : String → Action ε Unit}
    (h : ∀ name ∈ names, ∀ mid mid', P mid → (f name).run mid = (.ok (), mid') → P mid')
    (hs : P s) (hrun : (names.forM f).run s = (.ok (), s')) : P s' := by
  induction names generalizing s with
  | nil =>
    cases hrun
    exact hs
  | cons name names ih =>
    obtain ⟨hname, hnames⟩ := List.forall_mem_cons.1 h
    obtain ⟨_, mid, hfirst, hrest⟩ := run_bind_eq_ok hrun
    exact ih hnames (hname s mid hs hfirst) hrest

end Action

/-! Making directories. -/

/-- Making the directories above, then this one unless that made it as well. -/
def makeBelow (depth : Nat) (up path : String) : Action Fault Unit := do
  makeWithParents depth up
  unless (← get).isDirectory path do
    Action.change (·.makeDirectory path) id

theorem run_makeWithParents_succ (depth : Nat) (path : String) (s : Store) :
    (makeWithParents (depth + 1) path).run s =
      if path.isEmpty then (.ok (), s)
      else match s.makeDirectory path with
        | .ok s' => (.ok (), s')
        | .error .notFound =>
          match Path.parent? path with
          | none => (.error .notFound, s)
          | some up => (makeBelow depth up path).run s
        | .error fault => if s.isDirectory path then (.ok (), s) else (.error fault, s) := by
  rw [makeWithParents]
  split
  · rfl
  · rw [Action.run_bind, Action.run_get]
    dsimp only
    cases s.makeDirectory path with
    | ok s' => rfl
    | error fault =>
      cases fault with
      | notFound =>
        dsimp only
        cases Path.parent? path with
        | none => rfl
        | some up => rfl
      | _ =>
        dsimp only
        split <;> rfl

theorem run_unless (s : Store) (path : String) :
    (do unless (← get).isDirectory path do Action.change (·.makeDirectory path) id :
      Action Fault Unit).run s =
    if s.isDirectory path then (.ok (), s)
    else (Action.change (·.makeDirectory path) id).run s := by
  rw [Action.run_bind, Action.run_get]
  dsimp only
  split <;> rfl

theorem evolves_makeWithParents (depth : Nat) (path : String) (s : Store) :
    Evolves (fun _ => False) s ((makeWithParents depth path).run s).2 := by
  induction depth generalizing path s with
  | zero => exact .refl _ s
  | succ depth ih =>
    rw [run_makeWithParents_succ]
    split
    · exact .refl _ s
    · split
      · next s' hmake => exact evolves_makeDirectory hmake
      · split
        · exact .refl _ s
        · refine Action.evolves_bind (ih _ s) fun _ s' _ => ?_
          rw [run_unless]
          split
          · exact .refl _ s'
          · exact Action.evolves_change fun _ => evolves_makeDirectory
      · split <;> exact .refl _ s

theorem isDirectory_of_makeWithParents {depth : Nat} (hpath : path ≠ "")
    (h : (makeWithParents depth path).run s = (.ok (), s')) : s'.isDirectory path := by
  cases depth with
  | zero => exact nomatch h
  | succ depth =>
    rw [run_makeWithParents_succ, if_neg (by simpa using hpath)] at h
    split at h
    · next hmake =>
      cases h
      exact Store.isDirectory_of_makeDirectory hmake
    · split at h
      · exact nomatch h
      · obtain ⟨_, between, -, hrest⟩ := Action.run_bind_eq_ok h
        rw [run_unless] at hrest
        split at hrest
        · next hthere => cases hrest; exact hthere
        · rw [Action.run_change] at hrest
          split at hrest
          · next hmake =>
            cases hrest
            exact Store.isDirectory_of_makeDirectory hmake
          · exact nomatch hrest
    · split at h
      · next hthere => cases h; exact hthere
      · exact nomatch h

theorem evolves_makeDirectories (path : String) (s : Store) :
    Evolves (fun _ => False) s ((makeDirectories path).run s).2 :=
  evolves_makeWithParents _ path s

theorem isDirectory_of_makeDirectories (hpath : path ≠ "")
    (h : (makeDirectories path).run s = (.ok (), s')) : s'.isDirectory path :=
  isDirectory_of_makeWithParents hpath h

theorem Store.find?_of_isDirectory (h : s.isDirectory path) :
    ∃ entries, s.find? path = .ok (.directory entries) := by
  unfold Store.isDirectory at h
  split at h
  · next entries hfind => exact ⟨entries, hfind⟩
  · exact nomatch h

/-- A directory that is there is left alone. -/
theorem makeDirectories_of_isDirectory (h : s.isDirectory path) :
    (makeDirectories path).run s = (.ok (), s) := by
  obtain ⟨entries, hfind⟩ := Store.find?_of_isDirectory h
  obtain ⟨place, hplace, hrest⟩ := bind_eq_ok hfind
  cases place with
  | free loc => exact nomatch hrest
  | taken loc e =>
    have hmake : s.makeDirectory path = .error .alreadyExists := by
      rw [Store.makeDirectory, hplace]
      rfl
    have hpath : ¬ path.isEmpty := by simpa using (Store.locate_eq_ok hplace).1
    rw [makeDirectories, run_makeWithParents_succ, if_neg hpath, hmake]
    dsimp only
    rw [if_pos h]

end Stencil.Files
