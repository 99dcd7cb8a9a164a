/-! Work that can fail. What ended well did so in each of its steps, and what failed did so in one
of them. -/

namespace Stencil

variable {ε α β : Type} {x : Except ε α} {f : α → Except ε β}

theorem ok_bind (a : α) (f : α → Except ε β) : (.ok a >>= f) = f a := rfl

theorem bind_eq_ok {b : β} (h : (x >>= f) = .ok b) : ∃ a, x = .ok a ∧ f a = .ok b := by
  cases x with
  | error e => exact nomatch h
  | ok a => exact ⟨a, rfl, h⟩

theorem bind_eq_error {e : ε} (h : (x >>= f) = .error e) :
    x = .error e ∨ ∃ a, x = .ok a ∧ f a = .error e := by
  cases x with
  | error e' => exact .inl (congrArg Except.error (Except.error.inj h))
  | ok a => exact .inr ⟨a, rfl, h⟩

theorem eq_ok_of_toOption {a : α} (h : x.toOption = some a) : x = .ok a := by
  cases x with
  | error e => exact nomatch h
  | ok a' => exact congrArg Except.ok (Option.some.inj h)

theorem mapError_eq_ok {ε' : Type} {g : ε → ε'} {a : α} (h : x.mapError g = .ok a) :
    x = .ok a := by
  cases x with
  | error e => exact nomatch h
  | ok a' => exact congrArg Except.ok (Except.ok.inj h)

theorem mapError_eq_error {ε' : Type} {g : ε → ε'} {e' : ε'} (h : x.mapError g = .error e') :
    ∃ e, x = .error e ∧ e' = g e := by
  cases x with
  | error e => exact ⟨e, rfl, (Except.error.inj h).symm⟩
  | ok a => exact nomatch h

theorem mapError_bind {ε' : Type} (g : ε → ε') (x : Except ε α) (f : α → Except ε β) :
    (x >>= f).mapError g = x.mapError g >>= fun a => (f a).mapError g := by
  cases x <;> rfl

theorem mapError_mapM {ε' : Type} (g : ε → ε') (f : α → Except ε β) (xs : List α) :
    (xs.mapM f).mapError g = xs.mapM fun x => (f x).mapError g := by
  induction xs with
  | nil => rfl
  | cons x xs ih =>
    rw [List.mapM_cons, List.mapM_cons, mapError_bind, ← ih]
    congr 1
    funext b
    rw [mapError_bind]
    rfl

/-- A run fails at the first step that fails. -/
theorem foldlM_eq_error_iff {f : β → α → Except ε β} {xs : List α} {b : β} {e : ε} :
    xs.foldlM f b = .error e ↔ ∃ before x after b', xs = before ++ x :: after ∧
      before.foldlM f b = .ok b' ∧ f b' x = .error e := by
  constructor
  · intro h
    induction xs generalizing b with
    | nil => exact nomatch h
    | cons x xs ih =>
      rw [List.foldlM_cons] at h
      rcases bind_eq_error h with hstep | ⟨b₁, hstep, hrest⟩
      · exact ⟨[], x, xs, b, rfl, rfl, hstep⟩
      · obtain ⟨before, y, after, b', rfl, hrun, herror⟩ := ih hrest
        refine ⟨x :: before, y, after, b', rfl, ?_, herror⟩
        rw [List.foldlM_cons, hstep, ok_bind, hrun]
  · rintro ⟨before, x, after, b', rfl, hrun, herror⟩
    rw [List.foldlM_append, hrun, ok_bind, List.foldlM_cons, herror]
    rfl

theorem foldlM_append_eq_ok {f : β → α → Except ε β} {xs ys : List α} {b b' : β}
    (h : (xs ++ ys).foldlM f b = .ok b') :
    ∃ b₁, xs.foldlM f b = .ok b₁ ∧ ys.foldlM f b₁ = .ok b' := by
  rw [List.foldlM_append] at h
  exact bind_eq_ok h

/-! Work that also has accesses in it. -/

/-- Such work has no result where an access fails; a fault of its own is a result. -/
abbrev Checked (ε α : Type) := ExceptT ε Option α

namespace Checked

variable {ε α β : Type}

/-- Work in which no access can fail. -/
def of (x : Except ε α) : Checked ε α := ExceptT.mk (some x)

/-- The result of an access, or none. -/
def access (x : Option α) : Checked ε α := ExceptT.mk (x.map .ok)

theorem of_ok_bind (a : α) (f : α → Checked ε β) : (of (.ok a) >>= f) = f a := rfl

theorem access_some_bind (a : α) (f : α → Checked ε β) : (access (some a) >>= f) = f a := rfl

/-- Steps without failing accesses make work without any. -/
theorem of_mapM (f : α → Except ε β) (as : List α) :
    (as.mapM fun a => (of (f a))) = of (as.mapM f) := by
  induction as with
  | nil => rfl
  | cons a as ih =>
    rw [List.mapM_cons, List.mapM_cons, ih]
    cases f a with
    | error e => rfl
    | ok b => cases as.mapM f <;> rfl

end Checked

end Stencil
