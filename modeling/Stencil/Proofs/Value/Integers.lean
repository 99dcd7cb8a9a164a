import Stencil.Proofs.Number.Rounding
import Stencil.Proofs.Value.Order

/-! Whole numbers in comparisons. They compare as the floating-point numbers they are rounded to, so
an operator answers as it should wherever two of them are not rounded to one number, and else as on
one and the same number. Inside lists the other items have to be the same to the operator. -/

namespace Stencil

namespace Value

variable {xs us ys vs : List Value} {u v : Value}

theorem compareLists?_append (h : compareLists? xs us = some .eq) :
    compareLists? (xs ++ ys) (us ++ vs) = compareLists? ys vs := by
  induction xs generalizing us with
  | nil =>
    cases us with
    | nil => rfl
    | cons u us => cases h
  | cons x xs ih =>
    cases us with
    | nil => cases h
    | cons u us =>
      rw [compareLists?] at h
      split at h
      · next hhead => rw [List.cons_append, List.cons_append, compareLists?, hhead, ih h]
      · next hne => exact absurd h hne

theorem eqLists_append (h : eqLists xs us = true) :
    eqLists (xs ++ ys) (us ++ vs) = eqLists ys vs := by
  induction xs generalizing us with
  | nil =>
    cases us with
    | nil => rfl
    | cons u us => cases h
  | cons x xs ih =>
    cases us with
    | nil => cases h
    | cons u us =>
      obtain ⟨hhead, hrest⟩ := Bool.and_eq_true_iff.1 h
      rw [List.cons_append, List.cons_append, eqLists, hhead, Bool.true_and, ih hrest]

/-- Among items that stand level the two in the middle decide. -/
theorem compare?_among (hbefore : compareLists? xs us = some .eq)
    (hbehind : compareLists? ys vs = some .eq) :
    compare? (list (xs ++ u :: ys)) (list (us ++ v :: vs)) = compare? u v := by
  rw [compare?, compareLists?_append hbefore, compareLists?, hbehind]
  split
  · next hlevel => rw [hlevel]
  · rfl

theorem eq_among (hbefore : eqLists xs us = true) (hbehind : eqLists ys vs = true) :
    eq (list (xs ++ u :: ys)) (list (us ++ v :: vs)) = eq u v := by
  rw [eq, eqLists_append hbefore, eqLists, hbehind, Bool.and_true]

end Value

namespace Operator

/-- Whether two whole numbers stand in the relation that an operator names. -/
def relates : Operator → Int → Int → Bool
  | lt, a, b => a < b
  | gt, a, b => a > b
  | eq, a, b => a = b
  | ne, a, b => a ≠ b
  | le, a, b => a ≤ b
  | ge, a, b => a ≥ b

/-- Items that are the same to an operator: equal ones, and level ones where it needs an order. -/
def Same : Operator → List Value → List Value → Prop
  | eq, xs, us | ne, xs, us => Value.eqLists xs us = true
  | lt, xs, us | gt, xs, us | le, xs, us | ge, xs, us => Value.compareLists? xs us = some .eq

/-- An operator answers on two values as it should on two whole numbers, and as on one number if
both are rounded to one. -/
structure AnswersAs (op : Operator) (a b : Int64) (u v : Value) : Prop where
  exact : a = b ∨ Double.ofInt a.toInt ≠ Double.ofInt b.toInt →
    op.test u v = .ok (op.relates a.toInt b.toInt)
  merged : Double.ofInt a.toInt = Double.ofInt b.toInt →
    op.test u v = .ok (op.relates a.toInt a.toInt)

variable {op : Operator} {a b : Int64} {u v : Value} {m n : Int}

theorem eq_of_compare (h : Value.compare? u v = some (compare m n)) :
    Value.eq u v = decide (m = n) := by
  rw [Bool.eq_iff_iff, decide_eq_true_eq, ← (Value.compare?_eq_some_iff.1 h).eq_iff]
  exact compare_eq_iff_eq

theorem test_of_eq (hop : op = .eq ∨ op = .ne) (h : Value.eq u v = decide (m = n)) :
    op.test u v = .ok (op.relates m n) := by
  rcases hop with rfl | rfl
  · exact congrArg Except.ok h
  · refine congrArg Except.ok ?_
    rw [h, relates, decide_not]

/-- Where two values compare as two whole numbers do, every operator answers as on these. -/
theorem test_of_compare (h : Value.compare? u v = some (compare m n)) :
    op.test u v = .ok (op.relates m n) := by
  have heq := eq_of_compare h
  have hordered {p : Ordering → Bool} {r : Prop} [Decidable r]
      (hp : p (compare m n) = true ↔ r) : p (compare m n) = decide r :=
    Bool.eq_iff_iff.2 (hp.trans decide_eq_true_iff.symm)
  cases op with
  | eq => exact test_of_eq (.inl rfl) heq
  | ne => exact test_of_eq (.inr rfl) heq
  | lt =>
    simp only [test, h, relates]
    exact congrArg Except.ok (hordered (Ordering.isLT_iff_eq_lt.trans compare_lt_iff_lt))
  | gt =>
    simp only [test, h, relates]
    exact congrArg Except.ok (hordered (Ordering.isGT_iff_eq_gt.trans compare_gt_iff_gt))
  | le =>
    simp only [test, h, relates]
    exact congrArg Except.ok (hordered Std.isLE_compare)
  | ge =>
    simp only [test, h, relates]
    exact congrArg Except.ok (hordered Std.isGE_compare)

theorem relates_congr {m' n' : Int} (hlt : m < n ↔ m' < n') (heq : m = n ↔ m' = n') :
    op.relates m n = op.relates m' n' := by
  cases op <;> simp only [relates, decide_eq_decide] <;> omega

theorem answersAs_of_keys (h : op.test u v =
    .ok (op.relates (Double.ofInt a.toInt).key (Double.ofInt b.toInt).key)) :
    op.AnswersAs a b u v := by
  refine ⟨fun hexact => h.trans (congrArg Except.ok ?_), fun hmerged => ?_⟩
  · rcases hexact with rfl | hne
    · exact relates_congr (by simp) (by simp)
    · refine relates_congr ?_ ?_
      · rw [← compare_lt_iff_lt, Double.compare_key_ofInt hne, compare_lt_iff_lt]
      · rw [← compare_eq_iff_eq, Double.compare_key_ofInt hne, compare_eq_iff_eq]
  · rw [h, hmerged]
    exact congrArg Except.ok (relates_congr (by simp) (by simp))

theorem compare?_int (a b : Int64) : Value.compare? (.int a) (.int b) =
    some (compare (Double.ofInt a.toInt).key (Double.ofInt b.toInt).key) :=
  (Value.compare_numbers rfl rfl).1.trans (Double.compare?_eq_some_iff.2
    ⟨Double.isNaN_ofInt _, Double.isNaN_ofInt _, rfl⟩)

theorem answersAs_int (op : Operator) (a b : Int64) : op.AnswersAs a b (.int a) (.int b) :=
  answersAs_of_keys (test_of_compare (compare?_int a b))

theorem answersAs_among {xs us ys vs : List Value} (hbefore : op.Same xs us)
    (hbehind : op.Same ys vs) (a b : Int64) :
    op.AnswersAs a b (.list (xs ++ .int a :: ys)) (.list (us ++ .int b :: vs)) := by
  have heq := eq_of_compare (compare?_int a b)
  refine answersAs_of_keys ?_
  cases op with
  | eq => exact test_of_eq (.inl rfl) ((Value.eq_among hbefore hbehind).trans heq)
  | ne => exact test_of_eq (.inr rfl) ((Value.eq_among hbefore hbehind).trans heq)
  | lt | gt | le | ge =>
    exact test_of_compare ((Value.compare?_among hbefore hbehind).trans (compare?_int a b))

/-- Every operator answers on whole numbers, and on lists that are the same but for one of them, as
it should on the numbers, unless different ones are rounded to one floating-point number; then it
answers as on equal ones. No number below `2 ^ 53` is rounded to one with another. -/
theorem test_integers (op : Operator) (a b : Int64) :
    op.AnswersAs a b (.int a) (.int b) ∧
      (∀ xs us ys vs, op.Same xs us → op.Same ys vs →
        op.AnswersAs a b (.list (xs ++ .int a :: ys)) (.list (us ++ .int b :: vs))) ∧
      (a.toInt.natAbs < 2 ^ 53 ∨ b.toInt.natAbs < 2 ^ 53 →
        Double.ofInt a.toInt = Double.ofInt b.toInt → a = b) :=
  ⟨answersAs_int op a b, fun _ _ _ _ hbefore hbehind => answersAs_among hbefore hbehind a b,
    fun hexact h => Int64.toInt_inj.1 (Double.ofInt_inj_of_lt hexact h)⟩

/-- The greatest number below `2 ^ 53` and the least above it, in lists with other items. -/
theorem test_integers_listed :
    Operator.lt.Same [.str "x", .list []] [.str "x", .list []] ∧
      Operator.lt.Same [.int 1] [.float ⟨0x3FF0000000000000⟩] ∧
      Operator.lt.test (.list [.str "x", .list [], .int 9007199254740991, .int 1])
        (.list [.str "x", .list [], .int 9007199254740993, .float ⟨0x3FF0000000000000⟩]) =
          .ok true := by
  have hbefore : Operator.lt.Same [.str "x", .list []] [.str "x", .list []] := by
    show Value.compareLists? _ _ = some .eq
    decide +kernel
  have hbehind : Operator.lt.Same [.int 1] [.float ⟨0x3FF0000000000000⟩] := by
    show Value.compareLists? _ _ = some .eq
    decide +kernel
  obtain ⟨-, hlists, hsmall⟩ := test_integers .lt 9007199254740991 9007199254740993
  have hdistinct := mt (hsmall (.inl (by decide))) (by decide)
  exact ⟨hbefore, hbehind, (hlists _ _ _ _ hbefore hbehind).exact (.inr hdistinct)⟩

theorem not_test_integers : ¬ ∀ (op : Operator) (a b : Int64),
    op.test (.int a) (.int b) = .ok (op.relates a.toInt b.toInt) := by
  intro h
  have heq : Value.eq (.int 9007199254740992) (.int 9007199254740993) = false :=
    Except.ok.inj (h .eq 9007199254740992 9007199254740993)
  exact absurd heq (by decide +kernel)

end Operator

end Stencil
