import Stencil.Proofs.Scope.Outward
import Stencil.Proofs.Value.Parts

/-! Empty segments. Loop scopes, lists and values of other kinds hold nothing under an empty segment,
but a map is asked for it like for any other key. So a name with an empty segment has the empty text
unless a map that the segments before it lead to has an entry with the empty key. -/

namespace Stencil

namespace Value

variable {u v w : Value}

theorem segment?_empty (v : Value) : v.segment? "" = v.get? "" := by
  cases v <;> rfl

theorem part_of_foldlM {keys : List String} (h : keys.foldlM segment? v = some u) : Part u v := by
  induction keys generalizing v with
  | nil =>
    obtain rfl := Option.some.inj h
    exact .self v
  | cons key keys ih =>
    obtain ⟨w, hw, hu⟩ := Option.bind_eq_some_iff.1 h
    exact (ih hu).trans (part_of_segment? hw)

end Value

namespace Scope

variable {s : Scope} {v : Value}

/-- The value that a path leads to in a scope. The path of no segments leads to the data that a
scope is over, and in the scope of a loop to nothing. -/
def reach? (s : Scope) : List String → Option Value
  | [] =>
    match s with
    | top data => some data
    | loop _ _ => none
  | key :: keys => s.follow? (key :: keys)

/-- What stands at any depth in the items and the data of a chain of scopes. -/
inductive Holds : Scope → Value → Prop where
  | data {data v : Value} (part : v.Part data) : Holds (top data) v
  | item {item v : Value} {outer : Scope} (part : v.Part item) : Holds (loop item outer) v
  | outer {item v : Value} {outer : Scope} (h : Holds outer v) : Holds (loop item outer) v

theorem lookup?_empty (s : Scope) : s.lookup? "" = (s.reach? []).bind (·.get? "") := by
  cases s with
  | top data => exact data.segment?_empty
  | loop item outer => rfl

/-- At an empty segment a path goes on only from a map, by its entry for the empty key. -/
theorem follow?_empty (s : Scope) (before after : List String) :
    s.follow? (before ++ "" :: after) =
      ((s.reach? before).bind (·.get? "")).bind (after.foldlM Value.segment?) := by
  cases before with
  | nil =>
    rw [← lookup?_empty]
    rfl
  | cons key keys =>
    rw [List.cons_append, follow?, reach?, follow?]
    cases s.lookup? key with
    | none => rfl
    | some found =>
      show (keys ++ "" :: after).foldlM Value.segment? found =
        ((keys.foldlM Value.segment? found).bind (·.get? "")).bind (after.foldlM Value.segment?)
      rw [List.foldlM_append, Option.bind_assoc]
      simp only [List.foldlM_cons, Value.segment?_empty]
      rfl

theorem Holds.of_reach? {keys : List String} (h : s.reach? keys = some v) : s.Holds v := by
  cases keys with
  | nil =>
    cases s with
    | top data =>
      obtain rfl := Option.some.inj h
      exact .data (.self _)
    | loop => cases h
  | cons key keys =>
    obtain ⟨w, hw, hv⟩ := Option.bind_eq_some_iff.1 h
    have hpart := Value.part_of_foldlM hv
    cases s with
    | top data => exact .data (hpart.trans (Value.part_of_segment? hw))
    | loop item outer =>
      rw [lookup?] at hw
      split at hw
      · obtain rfl := Option.some.inj hw
        exact .item hpart
      · cases hw

/-- Further out there is nothing new but the empty map outside all data. -/
theorem Holds.of_outer (h : s.outer.Holds v) : s.Holds v ∨ v = .map [] := by
  cases s with
  | loop item outer => exact .inl (.outer h)
  | top data =>
    cases h with
    | data part =>
      cases hentry : data.get? ".." with
      | some entry =>
        rw [hentry, Option.getD_some] at part
        exact .inl (.data (part.trans (Value.part_of_get? hentry)))
      | none =>
        rw [hentry, Option.getD_none] at part
        cases part with
        | self => exact .inr rfl
        | entry hmem => cases hmem

theorem Holds.of_out {n : Nat} (h : (s.out n).Holds v) : s.Holds v ∨ v = .map [] := by
  induction n generalizing s with
  | zero => exact .inl h
  | succ n ih => exact (ih h).elim of_outer .inr

end Scope

open Scope

/-- A name with an empty segment has the value that lies behind the entry with the empty key, of the
map that the segments before lead to, and the empty text where that is no map with such an entry. In
scopes in which no map has such an entry it always has the empty text. -/
theorem Scope.resolve_emptySegment (s : Scope) {name : String} {before after : List String}
    (h : segments name = before ++ "" :: after) :
    (∀ v entry, (s.out (ascents name.toList)).reach? before = some v → v.get? "" = some entry →
        s.resolve name = (after.foldlM Value.segment? entry).getD .empty) ∧
      ((∀ v, (s.out (ascents name.toList)).reach? before = some v → v.get? "" = none) →
        s.resolve name = .empty) ∧
      ((∀ v, s.Holds v → v.get? "" = none) → s.resolve name = .empty) := by
  have hname := s.resolve_eq name
  rw [h, follow?_empty] at hname
  have habsent : (∀ v, (s.out (ascents name.toList)).reach? before = some v → v.get? "" = none) →
      s.resolve name = .empty := by
    intro hnone
    rw [hname, Option.bind_eq_none_iff.2 hnone]
    rfl
  refine ⟨fun v entry hv hentry => ?_, habsent, fun hnone => habsent fun v hv => ?_⟩
  · rw [hname, hv, Option.bind_some, hentry]
    rfl
  · rcases (Holds.of_reach? hv).of_out with hheld | rfl
    · exact hnone v hheld
    · rfl

/-- A map with an entry for the empty key in it, seen from a loop. -/
def blankScope : Scope :=
  .loop (.str "i") (.top (.map [("a", .map [("", .list [.str "x"])])]))

/-- The same without that entry. -/
def filledScope : Scope :=
  .loop (.str "i") (.top (.map [("a", .map [("b", .list [.str "x"])])]))

theorem Scope.holds_filledScope {v : Value} (h : filledScope.Holds v) : v.get? "" = none := by
  cases h with
  | item part => cases part with
    | self => rfl
  | outer h => cases h with
    | data part => cases part with
      | self => rfl
      | entry hmem part =>
        obtain ⟨-, rfl⟩ := Prod.mk.inj (List.mem_singleton.1 hmem)
        cases part with
        | self => rfl
        | entry hmem part =>
          obtain ⟨-, rfl⟩ := Prod.mk.inj (List.mem_singleton.1 hmem)
          cases part with
          | self => rfl
          | item hmem part =>
            obtain rfl := List.mem_singleton.1 hmem
            cases part with
            | self => rfl

theorem Scope.resolve_emptySegment_between :
    segments "..a..0" = ["a"] ++ "" :: ["0"] ∧
      blankScope.resolve "..a..0" = .str "x" ∧
      (∀ v, filledScope.Holds v → v.get? "" = none) ∧ filledScope.resolve "..a..0" = .empty := by
  have hsegments : segments "..a..0" = ["a"] ++ "" :: ["0"] := by decide +kernel
  obtain ⟨hblank, -, -⟩ := resolve_emptySegment blankScope hsegments
  obtain ⟨-, -, hfilled⟩ := resolve_emptySegment filledScope hsegments
  have hnone : ∀ v, filledScope.Holds v → v.get? "" = none := fun _ => holds_filledScope
  exact ⟨hsegments, hblank _ _ rfl rfl, hnone, hfilled hnone⟩

theorem Scope.not_resolve_emptySegment :
    ¬ ∀ (s : Scope) (name : String), "" ∈ segments name → s.resolve name = .empty := by
  intro h
  have hfound : Value.str "x" = .str "" :=
    h (.top (.map [("a", .map [("", .str "x")])])) "a." (by decide +kernel)
  exact absurd (Value.str.inj hfound) (by decide)

end Stencil
