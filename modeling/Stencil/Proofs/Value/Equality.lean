import Mathlib.Data.List.Forall2
import Stencil.Proofs.Number.Rounding
import Stencil.Proofs.Value.Order
import Stencil.Proofs.Value.Parts

/-! Equality of values. A whole number and a floating-point number can be equal, at any depth of
lists and maps. Equal values are true or false together, compare alike, and lookups and loops find
equal values in them. Only a NaN keeps a value from being equal to itself. -/

namespace Stencil

namespace Double

variable {x y : Double}

theorem level_iff : compare? x y = some .eq ↔ x.isNaN = false ∧ y.isNaN = false ∧ x.key = y.key := by
  rw [compare?_eq_some_iff, Std.compare_eq_iff_eq]

/-- Numbers that stand level compare with every other one alike. -/
theorem compare?_congr (h : compare? x y = some .eq) (z : Double) : compare? x z = compare? y z := by
  obtain ⟨hx, hy, hkey⟩ := level_iff.1 h
  rw [compare?, compare?, hx, hy, hkey]

end Double

namespace Value

mutual

/-- Values that are equal, whichever way their numbers are written. -/
inductive Equals : Value → Value → Prop where
  | none : Equals none none
  | bool (b : Bool) : Equals (bool b) (bool b)
  | str (s : String) : Equals (str s) (str s)
  | number {a b : Value} {x y : Double} (first : a.asDouble? = some x)
    (second : b.asDouble? = some y) (level : Double.compare? x y = some .eq) : Equals a b
  | list {as bs : List Value} (items : EqualsLists as bs) : Equals (list as) (list bs)
  | map {as bs : List (String × Value)} (entries : EqualsEntries as bs) : Equals (map as) (map bs)

inductive EqualsLists : List Value → List Value → Prop where
  | nil : EqualsLists [] []
  | cons {a b : Value} {as bs : List Value} (head : Equals a b) (rest : EqualsLists as bs) :
    EqualsLists (a :: as) (b :: bs)

inductive EqualsEntries : List (String × Value) → List (String × Value) → Prop where
  | nil : EqualsEntries [] []
  | cons (key : String) {a b : Value} {as bs : List (String × Value)} (value : Equals a b)
    (rest : EqualsEntries as bs) : EqualsEntries ((key, a) :: as) ((key, b) :: bs)

end

variable {a b c : Value} {as bs : List Value} {es fs : List (String × Value)} {x : Double}

/-! The relation is what the test for equality computes. -/

theorem Equals.of_compareNumbers? (h : (compareNumbers? a b == some .eq) = true) : Equals a b := by
  obtain ⟨x, hx, h⟩ := Option.bind_eq_some_iff.1 (beq_iff_eq.1 h)
  obtain ⟨y, hy, h⟩ := Option.bind_eq_some_iff.1 h
  exact .number hx hy h

mutual

theorem Equals.of_eq : (a b : Value) → eq a b = true → Equals a b := by
  intro a b h
  unfold eq at h
  split at h
  · exact .none
  · obtain rfl := beq_iff_eq.1 h
    exact .bool _
  · obtain rfl := beq_iff_eq.1 h
    exact .str _
  · exact .list (EqualsLists.of_eqLists _ _ h)
  · exact .map (EqualsEntries.of_eqEntries _ _ h)
  · exact .of_compareNumbers? h
termination_by a => sizeOf a

theorem EqualsLists.of_eqLists : (as bs : List Value) → eqLists as bs = true → EqualsLists as bs
  | [], [], _ => .nil
  | a :: as, b :: bs, h => by
    obtain ⟨hhead, hrest⟩ := Bool.and_eq_true_iff.1 h
    exact .cons (.of_eq a b hhead) (.of_eqLists as bs hrest)
termination_by as => sizeOf as

theorem EqualsEntries.of_eqEntries : (es fs : List (String × Value)) → eqEntries es fs = true →
    EqualsEntries es fs
  | [], [], _ => .nil
  | (k, a) :: es, (l, b) :: fs, h => by
    obtain ⟨hhead, hrest⟩ := Bool.and_eq_true_iff.1 h
    obtain ⟨hkey, hvalue⟩ := Bool.and_eq_true_iff.1 hhead
    obtain rfl : k = l := beq_iff_eq.1 hkey
    exact .cons k (.of_eq a b hvalue) (.of_eqEntries es fs hrest)
termination_by es => sizeOf es

end

mutual

theorem Equals.eq_eq : {a b : Value} → Equals a b → eq a b = true
  | _, _, .none => rfl
  | _, _, .bool b => beq_self_eq_true b
  | _, _, .str s => beq_self_eq_true s
  | _, _, .number first second level => by
    rw [(compare_numbers first second).2, level]
    rfl
  | _, _, .list items => items.eqLists_eq
  | _, _, .map entries => entries.eqEntries_eq

theorem EqualsLists.eqLists_eq : {as bs : List Value} → EqualsLists as bs → eqLists as bs = true
  | _, _, .nil => rfl
  | _, _, .cons head rest => by rw [eqLists, head.eq_eq, rest.eqLists_eq, Bool.true_and]

theorem EqualsEntries.eqEntries_eq : {es fs : List (String × Value)} → EqualsEntries es fs →
    eqEntries es fs = true
  | _, _, .nil => rfl
  | _, _, .cons key value rest => by
    rw [eqEntries, beq_self_eq_true, value.eq_eq, rest.eqEntries_eq, Bool.true_and, Bool.true_and]

end

theorem eq_iff_equals : eq a b = true ↔ Equals a b := ⟨Equals.of_eq a b, Equals.eq_eq⟩

/-! Turned round, and one step after another. -/

mutual

theorem Equals.symm : {a b : Value} → Equals a b → Equals b a
  | _, _, .none => .none
  | _, _, .bool b => .bool b
  | _, _, .str s => .str s
  | _, _, .number first second level =>
    have h := Double.level_iff.1 level
    .number second first (Double.level_iff.2 ⟨h.2.1, h.1, h.2.2.symm⟩)
  | _, _, .list items => .list items.symm
  | _, _, .map entries => .map entries.symm

theorem EqualsLists.symm : {as bs : List Value} → EqualsLists as bs → EqualsLists bs as
  | _, _, .nil => .nil
  | _, _, .cons head rest => .cons head.symm rest.symm

theorem EqualsEntries.symm : {es fs : List (String × Value)} → EqualsEntries es fs →
    EqualsEntries fs es
  | _, _, .nil => .nil
  | _, _, .cons key value rest => .cons key value.symm rest.symm

end

mutual

theorem Equals.trans : {a b c : Value} → Equals a b → Equals b c → Equals a c
  | _, _, _, .none, h => h
  | _, _, _, .bool _, h => h
  | _, _, _, .str _, h => h
  | _, _, _, .number first second level, h => by
    cases h with
    | number again third level' =>
      obtain rfl := Option.some.inj (second.symm.trans again)
      exact .number first third ((Double.compare?_congr level _).trans level')
    | _ => cases second
  | _, _, _, .list items, h => by
    cases h with
    | number first => cases first
    | list items' => exact .list (items.trans items')
  | _, _, _, .map entries, h => by
    cases h with
    | number first => cases first
    | map entries' => exact .map (entries.trans entries')

theorem EqualsLists.trans : {as bs cs : List Value} → EqualsLists as bs → EqualsLists bs cs →
    EqualsLists as cs
  | _, _, _, .nil, h => h
  | _, _, _, .cons head rest, .cons head' rest' => .cons (head.trans head') (rest.trans rest')

theorem EqualsEntries.trans : {es fs gs : List (String × Value)} → EqualsEntries es fs →
    EqualsEntries fs gs → EqualsEntries es gs
  | _, _, _, .nil, h => h
  | _, _, _, .cons key value rest, .cons _ value' rest' =>
    .cons key (value.trans value') (rest.trans rest')

end

/-! Equal to itself. -/

/-- No part of the value is a NaN. -/
def NaNFree (v : Value) : Prop := ∀ x, Part (float x) v → x.isNaN = false

mutual

theorem Equals.refl : (v : Value) → NaNFree v → Equals v v
  | none, _ => .none
  | bool b, _ => .bool b
  | str s, _ => .str s
  | int _, _ => .number rfl rfl (Double.level_iff.2 ⟨Double.isNaN_ofInt _, Double.isNaN_ofInt _, rfl⟩)
  | float x, h => .number rfl rfl (Double.level_iff.2 ⟨h x (.self _), h x (.self _), rfl⟩)
  | list items, h => .list (.refl items fun _ hv x hx => h x (.item hv hx))
  | map entries, h => .map (.refl entries fun _ he x hx => h x (.entry he hx))

theorem EqualsLists.refl : (vs : List Value) → (∀ v ∈ vs, NaNFree v) → EqualsLists vs vs
  | [], _ => .nil
  | v :: vs, h => .cons (.refl v (h v List.mem_cons_self))
      (.refl vs fun u hu => h u (List.mem_cons_of_mem v hu))

theorem EqualsEntries.refl : (es : List (String × Value)) → (∀ e ∈ es, NaNFree e.2) →
    EqualsEntries es es
  | [], _ => .nil
  | (key, v) :: es, h => .cons key (.refl v (h (key, v) List.mem_cons_self))
      (.refl es fun e he => h e (List.mem_cons_of_mem _ he))

end

theorem EqualsLists.self_of_mem (h : EqualsLists as as) : ∀ v ∈ as, Equals v v := by
  induction as with
  | nil => exact fun _ hv => absurd hv List.not_mem_nil
  | cons a as ih =>
    cases h with
    | cons head rest => exact List.forall_mem_cons.2 ⟨head, ih rest⟩

theorem EqualsEntries.self_of_mem (h : EqualsEntries es es) : ∀ e ∈ es, Equals e.2 e.2 := by
  induction es with
  | nil => exact fun _ he => absurd he List.not_mem_nil
  | cons e es ih =>
    cases h with
    | cons key value rest => exact List.forall_mem_cons.2 ⟨value, ih rest⟩

/-- What is equal to itself holds only parts that are. -/
theorem Equals.self_of_part (h : Equals b b) (part : Part a b) : Equals a a := by
  induction part with
  | self => exact h
  | item hv _ ih =>
    cases h with
    | number first => cases first
    | list items => exact ih (items.self_of_mem _ hv)
  | entry he _ ih =>
    cases h with
    | number first => cases first
    | map entries => exact ih (entries.self_of_mem _ he)

theorem equals_self_iff : Equals a a ↔ NaNFree a := by
  refine ⟨fun h x part => ?_, Equals.refl a⟩
  cases h.self_of_part part with
  | number first _ level =>
    obtain rfl := Option.some.inj first
    exact (Double.level_iff.1 level).1

/-! Truth. -/

theorem isTruthy_number (h : a.asDouble? = some x) : a.isTruthy = !decide (x.key = 0) := by
  obtain ⟨n, rfl⟩ | rfl := isNumber_of_asDouble? h
  · obtain rfl := Option.some.inj h
    have hzero : n = 0 ↔ (Double.ofInt n.toInt).key = 0 := by
      rw [Double.key_ofInt_eq_zero_iff, ← Int64.toInt_zero, Int64.toInt_inj]
    show (!decide (n = 0)) = _
    rw [decide_eq_decide.2 hzero]
  · show (!decide (x.magnitude = 0)) = _
    rw [decide_eq_decide.2 Double.key_eq_zero_iff.symm]

theorem Equals.isTruthy_eq (h : Equals a b) : a.isTruthy = b.isTruthy := by
  cases h with
  | none | bool | str => rfl
  | number first second level =>
    rw [isTruthy_number first, isTruthy_number second, (Double.level_iff.1 level).2.2]
  | list items => cases items <;> rfl
  | map entries => cases entries <;> rfl

/-! Order. -/

theorem compare?_number (h : a.asDouble? = some x) (c : Value) :
    compare? a c = c.asDouble?.bind (Double.compare? x) := by
  obtain ⟨n, rfl⟩ | rfl := isNumber_of_asDouble? h
  · obtain rfl := Option.some.inj h
    cases c <;> rfl
  · cases c <;> rfl

mutual

theorem Equals.compare?_congr : {a b : Value} → Equals a b → (c : Value) →
    compare? a c = compare? b c
  | _, _, .none, _ => rfl
  | _, _, .bool _, _ => rfl
  | _, _, .str _, _ => rfl
  | _, _, .number first second level, c => by
    rw [compare?_number first, compare?_number second, funext (Double.compare?_congr level)]
  | _, _, .list items, c => by
    cases c with
    | list cs => exact items.compareLists?_congr cs
    | _ => rfl
  | _, _, .map _, c => by cases c <;> rfl

theorem EqualsLists.compareLists?_congr : {as bs : List Value} → EqualsLists as bs →
    (cs : List Value) → compareLists? as cs = compareLists? bs cs
  | _, _, .nil, _ => rfl
  | _, _, .cons _ _, [] => rfl
  | _, _, .cons head rest, c :: cs => by
    rw [compareLists?, compareLists?, head.compare?_congr c, rest.compareLists?_congr cs]

end

/-! Lookups and loops. -/

theorem EqualsLists.getElem? (h : EqualsLists as bs) (i : Nat) : Option.Rel Equals as[i]? bs[i]? := by
  induction i generalizing as bs with
  | zero =>
    cases h with
    | nil => exact .none
    | cons head _ => exact .some head
  | succ i ih =>
    cases h with
    | nil => exact .none
    | cons _ rest => exact ih rest

theorem EqualsEntries.get? (h : EqualsEntries es fs) (key : String) :
    Option.Rel Equals (Table.get? es key) (Table.get? fs key) := by
  induction es generalizing fs with
  | nil =>
    cases h
    exact .none
  | cons e es ih =>
    cases h with
    | cons k value rest =>
      rw [Table.get?_cons, Table.get?_cons]
      split
      · exact .some value
      · exact ih rest

theorem EqualsEntries.keys_eq (h : EqualsEntries es fs) : Table.keys es = Table.keys fs := by
  induction es generalizing fs with
  | nil =>
    cases h
    rfl
  | cons e es ih =>
    cases h with
    | cons key _ rest => exact congrArg (key :: ·) (ih rest)

theorem EqualsLists.forall₂ (h : EqualsLists as bs) : List.Forall₂ Equals as bs := by
  induction as generalizing bs with
  | nil =>
    cases h
    exact .nil
  | cons a as ih =>
    cases h with
    | cons head rest => exact .cons head (ih rest)

theorem Equals.get? (h : Equals a b) (key : String) :
    Option.Rel Equals (a.get? key) (b.get? key) := by
  cases h with
  | none | bool | str | list => exact .none
  | number first second =>
    obtain ⟨m, rfl⟩ | rfl := isNumber_of_asDouble? first <;>
      obtain ⟨n, rfl⟩ | rfl := isNumber_of_asDouble? second <;> exact .none
  | map entries => exact entries.get? key

theorem Equals.segment? (h : Equals a b) (key : String) :
    Option.Rel Equals (a.segment? key) (b.segment? key) := by
  cases h with
  | none | bool | str => exact .none
  | number first second =>
    obtain ⟨m, rfl⟩ | rfl := isNumber_of_asDouble? first <;>
      obtain ⟨n, rfl⟩ | rfl := isNumber_of_asDouble? second <;> exact .none
  | list items =>
    rw [Value.segment?, Value.segment?]
    cases index? key.toList with
    | none => exact .none
    | some i => exact items.getElem? i
  | map entries => exact entries.get? key

theorem forall₂_strs (ss : List String) : List.Forall₂ Equals (ss.map str) (ss.map str) :=
  List.forall₂_map_left_iff.2 (List.forall₂_map_right_iff.2 (List.forall₂_same.2 fun s _ => .str s))

theorem Equals.iterate? (h : Equals a b) :
    Option.Rel (List.Forall₂ Equals) a.iterate? b.iterate? := by
  cases h with
  | none => exact .some .nil
  | bool => exact .none
  | str s =>
    have hchars := forall₂_strs (s.toList.map fun c => c.toString)
    rw [List.map_map] at hchars
    exact .some hchars
  | number first second =>
    obtain ⟨m, rfl⟩ | rfl := isNumber_of_asDouble? first <;>
      obtain ⟨n, rfl⟩ | rfl := isNumber_of_asDouble? second <;> exact .none
  | list items => exact .some items.forall₂
  | map entries =>
    rw [Value.iterate?, Value.iterate?, entries.keys_eq]
    exact .some (forall₂_strs _)

/-- Two values that are told apart by nothing but the names of their types and their texts. -/
structure Alike (a b : Value) : Prop where
  truth : a.isTruthy = b.isTruthy
  order : ∀ c, compare? a c = compare? b c
  entry : ∀ key, Option.Rel (eq · · = true) (a.get? key) (b.get? key)
  segment : ∀ key, Option.Rel (eq · · = true) (a.segment? key) (b.segment? key)
  items : Option.Rel (List.Forall₂ (eq · · = true)) a.iterate? b.iterate?

theorem eq_eq_equals : (eq · · = true) = Equals :=
  funext fun _ => funext fun _ => propext eq_iff_equals

theorem Equals.alike (h : Equals a b) : Alike a b where
  truth := h.isTruthy_eq
  order := h.compare?_congr
  entry key := eq_eq_equals ▸ h.get? key
  segment key := eq_eq_equals ▸ h.segment? key
  items := eq_eq_equals ▸ h.iterate?

end Value

/-- Equality goes both ways and from one value to the next, only a NaN somewhere in a value keeps
it from being equal to itself, and equal values behave alike. -/
theorem Value.eq_respected (a b c : Value) :
    eq b a = eq a b ∧ (eq a b = true → eq b c = true → eq a c = true) ∧
      (eq a a = true ↔ NaNFree a) ∧ (eq a b = true → Alike a b) := by
  have hsymm : eq b a = eq a b := by
    rw [Bool.eq_iff_iff, eq_iff_equals, eq_iff_equals]
    exact ⟨Equals.symm, Equals.symm⟩
  refine ⟨hsymm, fun h h' => ?_, eq_iff_equals.trans equals_self_iff, fun h => ?_⟩
  · exact ((Equals.of_eq a b h).trans (Equals.of_eq b c h')).eq_eq
  · exact (Equals.of_eq a b h).alike

/-- Lists with the same numbers, one of them zero and in a map, which are whole in one list where
they are floating-point numbers in the next. The first zero is the negative one. -/
theorem Value.eq_respected_mixed :
    eq (list [int 1, map [("k", float ⟨0x8000000000000000⟩)]])
        (list [float ⟨0x3FF0000000000000⟩, map [("k", int 0)]]) = true ∧
      eq (list [float ⟨0x3FF0000000000000⟩, map [("k", int 0)]])
        (list [int 1, map [("k", float Double.zero)]]) = true ∧
      eq (list [int 1, map [("k", float ⟨0x8000000000000000⟩)]])
        (list [int 1, map [("k", float Double.zero)]]) = true ∧
      Alike (list [int 1, map [("k", float ⟨0x8000000000000000⟩)]])
        (list [float ⟨0x3FF0000000000000⟩, map [("k", int 0)]]) := by
  have hfirst : eq (list [int 1, map [("k", float ⟨0x8000000000000000⟩)]])
      (list [float ⟨0x3FF0000000000000⟩, map [("k", int 0)]]) = true := by decide +kernel
  have hsecond : eq (list [float ⟨0x3FF0000000000000⟩, map [("k", int 0)]])
      (list [int 1, map [("k", float Double.zero)]]) = true := by decide +kernel
  obtain ⟨-, htrans, -, halike⟩ := eq_respected
    (list [int 1, map [("k", float ⟨0x8000000000000000⟩)]])
    (list [float ⟨0x3FF0000000000000⟩, map [("k", int 0)]])
    (list [int 1, map [("k", float Double.zero)]])
  exact ⟨hfirst, hsecond, htrans hfirst hsecond, halike hfirst⟩

end Stencil
