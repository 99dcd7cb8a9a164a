import Stencil.Render

/-! The order of values. Comparing is a relation between two values and an outcome, which has one
case for each kind of value that has an order. Turned round it has the outcome turned round, two
steps none of which goes down make one, and the values that stand level are those that are equal.
So the operators have an answer all together or not at all. -/

namespace Stencil

theorem eq_lt_of_isLE {o : Ordering} (hle : o.isLE) (hne : o ≠ .eq) : o = .lt := by
  cases o with
  | lt => rfl
  | eq => exact absurd rfl hne
  | gt => cases hle

theorem then_eq_ite {o o' : Ordering} (hle : o.isLE) (hle' : o'.isLE) :
    o.then o' = if o = .eq ∧ o' = .eq then .eq else .lt := by
  cases o with
  | lt => rfl
  | eq =>
    cases o' with
    | lt => rfl
    | eq => rfl
    | gt => cases hle'
  | gt => cases hle

/-- Of two steps none of which goes down the first that goes up decides. -/
theorem compare_then {α : Type} [Ord α] [Std.TransOrd α] {x y z : α} (hxy : (compare x y).isLE)
    (hyz : (compare y z).isLE) : compare x z = (compare x y).then (compare y z) := by
  cases h : compare x y with
  | lt => exact Std.TransCmp.lt_of_lt_of_isLE h hyz
  | eq => exact Std.TransCmp.congr_left h
  | gt =>
    rw [h] at hxy
    cases hxy

theorem Double.compare?_eq_some_iff {x y : Double} {o : Ordering} :
    compare? x y = some o ↔ x.isNaN = false ∧ y.isNaN = false ∧ compare x.key y.key = o := by
  rw [compare?]
  cases x.isNaN with
  | true => simp
  | false =>
    cases y.isNaN with
    | true => simp
    | false => exact ⟨fun h => ⟨rfl, rfl, Option.some.inj h⟩, fun h => congrArg some h.2.2⟩

namespace Value

mutual

/-- What comparing two values comes to. -/
inductive Compares : Value → Value → Ordering → Prop where
  | bool (a b : Bool) : Compares (bool a) (bool b) (compare a b)
  | str (a b : String) : Compares (str a) (str b) (compare a b)
  | number {a b : Value} {x y : Double} (first : a.asDouble? = some x)
    (second : b.asDouble? = some y) (finite : x.isNaN = false) (finite' : y.isNaN = false) :
    Compares a b (compare x.key y.key)
  | list {as bs : List Value} {o : Ordering} (items : ComparesLists as bs o) :
    Compares (list as) (list bs) o

inductive ComparesLists : List Value → List Value → Ordering → Prop where
  | nil : ComparesLists [] [] .eq
  | short (b : Value) (bs : List Value) : ComparesLists [] (b :: bs) .lt
  | long (a : Value) (as : List Value) : ComparesLists (a :: as) [] .gt
  | level {a b : Value} {as bs : List Value} {o : Ordering} (head : Compares a b .eq)
    (rest : ComparesLists as bs o) : ComparesLists (a :: as) (b :: bs) o
  | decided {a b : Value} {as bs : List Value} {o : Ordering} (head : Compares a b o)
    (hne : o ≠ .eq) : ComparesLists (a :: as) (b :: bs) o

end

section

variable {a b c : Value} {as bs cs : List Value} {x y : Double} {o o' : Ordering}

/-! The relation is what comparing computes. -/

theorem Compares.of_compareNumbers? (h : compareNumbers? a b = some o) : Compares a b o := by
  obtain ⟨x, hx, h⟩ := Option.bind_eq_some_iff.1 h
  obtain ⟨y, hy, h⟩ := Option.bind_eq_some_iff.1 h
  obtain ⟨finite, finite', rfl⟩ := Double.compare?_eq_some_iff.1 h
  exact .number hx hy finite finite'

theorem isNumber_of_asDouble? (h : a.asDouble? = some x) :
    (∃ n, a = int n) ∨ a = float x := by
  cases a with
  | int n => exact .inl ⟨n, rfl⟩
  | float x => exact .inr (congrArg float (Option.some.inj h))
  | _ => cases h

/-- Two numbers compare, and are equal, as floating-point numbers. -/
theorem compare_numbers (first : a.asDouble? = some x) (second : b.asDouble? = some y) :
    compare? a b = Double.compare? x y ∧ eq a b = (Double.compare? x y == some .eq) := by
  have hnumbers : compareNumbers? a b = Double.compare? x y := by
    rw [compareNumbers?, first, second]
    rfl
  rw [← hnumbers]
  obtain ⟨m, rfl⟩ | rfl := isNumber_of_asDouble? first <;>
    obtain ⟨n, rfl⟩ | rfl := isNumber_of_asDouble? second <;> exact ⟨rfl, rfl⟩

mutual

theorem Compares.of_compare? : (a b : Value) → {o : Ordering} → compare? a b = some o →
    Compares a b o := by
  intro a b o h
  unfold compare? at h
  split at h
  · cases h
    exact .bool _ _
  · cases h
    exact .str _ _
  · exact .list (ComparesLists.of_compareLists? _ _ h)
  · exact .of_compareNumbers? h
termination_by a => sizeOf a

theorem ComparesLists.of_compareLists? : (as bs : List Value) → {o : Ordering} →
    compareLists? as bs = some o → ComparesLists as bs o
  | [], [], o, h => by
    cases h
    exact .nil
  | [], b :: bs, o, h => by
    cases h
    exact .short b bs
  | a :: as, [], o, h => by
    cases h
    exact .long a as
  | a :: as, b :: bs, o, h => by
    rw [compareLists?] at h
    split at h
    · next hhead => exact .level (.of_compare? a b hhead) (.of_compareLists? as bs h)
    · next hne => exact .decided (.of_compare? a b h) fun heq => hne (heq ▸ h)
termination_by as => sizeOf as

end

mutual

theorem Compares.compare?_eq : {a b : Value} → {o : Ordering} → Compares a b o →
    compare? a b = some o
  | _, _, _, .bool _ _ => rfl
  | _, _, _, .str _ _ => rfl
  | _, _, _, .number first second finite finite' => by
    rw [(compare_numbers first second).1]
    exact Double.compare?_eq_some_iff.2 ⟨finite, finite', rfl⟩
  | _, _, _, .list items => items.compareLists?_eq

theorem ComparesLists.compareLists?_eq : {as bs : List Value} → {o : Ordering} →
    ComparesLists as bs o → compareLists? as bs = some o
  | _, _, _, .nil => rfl
  | _, _, _, .short _ _ => rfl
  | _, _, _, .long _ _ => rfl
  | _, _, _, .level head rest => by
    rw [compareLists?, head.compare?_eq]
    exact rest.compareLists?_eq
  | _, _, o, .decided head hne => by
    rw [compareLists?, head.compare?_eq]
    cases o with
    | eq => exact absurd rfl hne
    | lt => rfl
    | gt => rfl

end

theorem compare?_eq_some_iff : compare? a b = some o ↔ Compares a b o :=
  ⟨Compares.of_compare? a b, Compares.compare?_eq⟩

/-! Turned round. -/

mutual

theorem Compares.swap : {a b : Value} → {o : Ordering} → Compares a b o → Compares b a o.swap
  | _, _, _, .bool a b => by
    rw [← Std.OrientedCmp.eq_swap]
    exact .bool b a
  | _, _, _, .str a b => by
    rw [← Std.OrientedCmp.eq_swap]
    exact .str b a
  | _, _, _, .number first second finite finite' => by
    rw [← Std.OrientedCmp.eq_swap]
    exact .number second first finite' finite
  | _, _, _, .list items => .list items.swap

theorem ComparesLists.swap : {as bs : List Value} → {o : Ordering} → ComparesLists as bs o →
    ComparesLists bs as o.swap
  | _, _, _, .nil => .nil
  | _, _, _, .short b bs => .long b bs
  | _, _, _, .long a as => .short a as
  | _, _, _, .level head rest => .level head.swap rest.swap
  | _, _, _, .decided head hne => .decided head.swap fun h => hne (Ordering.swap_eq_eq.1 h)

end

/-! One step after another. -/

mutual

theorem Compares.trans : {a b c : Value} → {o o' : Ordering} → Compares a b o →
    Compares b c o' → o.isLE → o'.isLE → Compares a c (o.then o')
  | _, _, _, _, _, .bool a b, h, hle, hle' => by
    cases h with
    | bool _ c =>
      rw [← compare_then hle hle']
      exact .bool a c
    | number first => cases first
  | _, _, _, _, _, .str a b, h, hle, hle' => by
    cases h with
    | str _ c =>
      rw [← compare_then hle hle']
      exact .str a c
    | number first => cases first
  | _, _, _, _, _, .number first second finite finite', h, hle, hle' => by
    cases h with
    | bool _ _ => cases second
    | str _ _ => cases second
    | number again third _ finite'' =>
      obtain rfl := Option.some.inj (second.symm.trans again)
      rw [← compare_then hle hle']
      exact .number first third finite finite''
    | list _ => cases second
  | _, _, _, _, _, .list items, h, hle, hle' => by
    cases h with
    | number first => cases first
    | list items' => exact .list (items.trans items' hle hle')

theorem ComparesLists.trans : {as bs cs : List Value} → {o o' : Ordering} →
    ComparesLists as bs o → ComparesLists bs cs o' → o.isLE → o'.isLE →
      ComparesLists as cs (o.then o')
  | _, _, _, _, _, .nil, h, _, _ => h
  | _, _, _, _, _, .short b bs, h, _, hle' => by
    cases h with
    | long _ _ => cases hle'
    | level _ _ => exact .short _ _
    | decided _ _ => exact .short _ _
  | _, _, _, _, _, .long _ _, _, hle, _ => nomatch hle
  | _, _, _, _, _, .level head rest, h, hle, hle' => by
    cases h with
    | long _ _ => cases hle'
    | level head' rest' => exact .level (head.trans head' rfl rfl) (rest.trans rest' hle hle')
    | decided head' hne =>
      -- the first items go up, whatever the lists behind the level ones before came to
      obtain rfl := eq_lt_of_isLE hle' hne
      rw [then_eq_ite hle hle', if_neg (nomatch ·.2)]
      exact .decided (head.trans head' rfl rfl) (by decide)
  | _, _, _, _, _, .decided head hne, h, hle, hle' => by
    obtain rfl := eq_lt_of_isLE hle hne
    change ComparesLists _ _ .lt
    cases h with
    | long _ _ => cases hle'
    | level head' _ => exact .decided (head.trans head' rfl rfl) hne
    | decided head' _ => exact .decided (head.trans head' rfl hle') hne

end

/-! Level and equal. -/

mutual

theorem Compares.eq_iff : {a b : Value} → {o : Ordering} → Compares a b o →
    (o = .eq ↔ eq a b = true)
  | _, _, _, .bool _ _ => Std.compare_eq_iff_eq.trans beq_iff_eq.symm
  | _, _, _, .str _ _ => Std.compare_eq_iff_eq.trans beq_iff_eq.symm
  | _, _, _, .number first second finite finite' => by
    rw [(compare_numbers first second).2, beq_iff_eq, Double.compare?_eq_some_iff]
    exact ⟨fun h => ⟨finite, finite', h⟩, fun h => h.2.2⟩
  | _, _, _, .list items => items.eqLists_iff

theorem ComparesLists.eqLists_iff : {as bs : List Value} → {o : Ordering} →
    ComparesLists as bs o → (o = .eq ↔ eqLists as bs = true)
  | _, _, _, .nil => ⟨fun _ => rfl, fun _ => rfl⟩
  | _, _, _, .short _ _ => by simp [eqLists]
  | _, _, _, .long _ _ => by simp [eqLists]
  | _, _, _, .level head rest => by
    rw [eqLists, head.eq_iff.1 rfl, Bool.true_and]
    exact rest.eqLists_iff
  | _, _, _, .decided head hne => by
    rw [eqLists, Bool.eq_false_iff.2 (mt head.eq_iff.2 hne), Bool.false_and]
    exact ⟨fun h => absurd h hne, fun h => absurd h Bool.false_ne_true⟩

end

theorem compare?_swap (a b : Value) : compare? b a = (compare? a b).map Ordering.swap := by
  cases h : compare? a b with
  | some o => exact (compare?_eq_some_iff.1 h).swap.compare?_eq
  | none =>
    cases h' : compare? b a with
    | none => rfl
    | some o => cases h.symm.trans (compare?_eq_some_iff.1 h').swap.compare?_eq

end

end Value

namespace Operator

/-- The operators that need values with an order. -/
def ordering : List Operator := [lt, gt, le, ge]

/-- Operators that all have an answer: one of less, equal and greater holds, and the others say what
follows from these. -/
structure Decides (a b : Value) (less equal greater : Bool) : Prop where
  lt : lt.test a b = .ok less
  eq : eq.test a b = .ok equal
  gt : gt.test a b = .ok greater
  one : [less, equal, greater].count true = 1
  le : le.test a b = .ok (less || equal)
  ge : ge.test a b = .ok (greater || equal)

variable {a b : Value} {op : Operator}

theorem test_unordered (h : Value.compare? a b = none) (hop : op ∈ ordering) :
    op.test a b = .error (.incomparable a.typeName op.symbol b.typeName) := by
  obtain rfl | rfl | rfl | rfl : op = .lt ∨ op = .gt ∨ op = .le ∨ op = .ge := by
    simpa [ordering] using hop
  all_goals
    rw [test]
    simp only [h]

theorem decides_of_compare? {o : Ordering} (h : Value.compare? a b = some o) :
    Decides a b (o == .lt) (o == .eq) (o == .gt) := by
  have heq : Value.eq a b = (o == .eq) := by
    rw [Bool.eq_iff_iff, beq_iff_eq, ← (Value.compare?_eq_some_iff.1 h).eq_iff]
  have hone : [o == .lt, o == .eq, o == .gt].count true = 1 := by cases o <;> rfl
  refine ⟨?_, ?_, ?_, hone, ?_, ?_⟩ <;> simp only [test, h, heq] <;> cases o <;> rfl

end Operator

/-- Comparing is a partial order: turned round it has the outcome turned round, steps that do not go
down go together, and where there is an outcome it is level if and only if the values are equal.
Either none of the operators that need an order has an answer, or all of them have, and these fit
together. -/
theorem Value.compare_partialOrder (a b c : Value) :
    compare? b a = (compare? a b).map Ordering.swap ∧
      (∀ o o', compare? a b = some o → compare? b c = some o' → o.isLE → o'.isLE →
        compare? a c = some (if o = .eq ∧ o' = .eq then .eq else .lt)) ∧
      (∀ o, compare? a b = some o → (o = .eq ↔ eq a b = true)) ∧
      ((∀ op ∈ Operator.ordering,
          op.test a b = .error (.incomparable a.typeName op.symbol b.typeName)) ∨
        ∃ less equal greater, Operator.Decides a b less equal greater) := by
  refine ⟨compare?_swap a b, fun o o' h h' hle hle' => ?_, fun o h => ?_, ?_⟩
  · rw [← then_eq_ite hle hle']
    exact ((compare?_eq_some_iff.1 h).trans (compare?_eq_some_iff.1 h') hle hle').compare?_eq
  · exact (compare?_eq_some_iff.1 h).eq_iff
  · cases h : compare? a b with
    | none => exact .inl fun op => Operator.test_unordered h
    | some o => exact .inr ⟨_, _, _, Operator.decides_of_compare? h⟩

/-- Lists with a whole number and the floating-point number it equals, which items without an order
follow behind those that decide. -/
theorem Value.compare_partialOrder_mixed :
    compare? (list [int 1, list [str "x"], none])
        (list [float ⟨0x3FF0000000000000⟩, list [str "x", int 0]]) = some .lt ∧
      compare? (list [float ⟨0x3FF0000000000000⟩, list [str "x", int 0]])
        (list [int 1, list [str "x", float Double.zero], map []]) = some .lt ∧
      compare? (list [int 1, list [str "x"], none])
        (list [int 1, list [str "x", float Double.zero], map []]) = some .lt := by
  have hfirst : compare? (list [int 1, list [str "x"], none])
      (list [float ⟨0x3FF0000000000000⟩, list [str "x", int 0]]) = some .lt := by decide +kernel
  have hsecond : compare? (list [float ⟨0x3FF0000000000000⟩, list [str "x", int 0]])
      (list [int 1, list [str "x", float Double.zero], map []]) = some .lt := by decide +kernel
  obtain ⟨-, htrans, -, -⟩ := Value.compare_partialOrder (list [int 1, list [str "x"], none])
    (list [float ⟨0x3FF0000000000000⟩, list [str "x", int 0]])
    (list [int 1, list [str "x", float Double.zero], map []])
  exact ⟨hfirst, hsecond, htrans _ _ hfirst hsecond rfl rfl⟩

end Stencil
