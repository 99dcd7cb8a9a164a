import Stencil.Proofs.Scope.Outward

/-! Names step by step. A segment more at the end of a name leads one step on from the value of the
name before it, and a `..` more at its start leads one round of a loop further out. -/

namespace Stencil

namespace Value

/-- The value behind so many more segments, or the empty text where one of them is missing. -/
def atPath (v : Value) (keys : List String) : Value := (keys.foldlM segment? v).getD empty

theorem atPath_singleton (v : Value) (key : String) :
    v.atPath [key] = (v.segment? key).getD empty := by
  rw [atPath, List.foldlM_cons]
  cases v.segment? key <;> rfl

/-- The empty text, which missing values have, holds nothing. -/
theorem getD_atPath (found : Option Value) {key : String} {keys : List String} :
    (found.getD empty).atPath (key :: keys) =
      (found >>= (key :: keys).foldlM segment?).getD empty := by
  cases found <;> rfl

end Value

namespace Scope

variable {s t : Scope} {cs : List Char} {name : String} {keys : List String}

/-- The number of rounds of loops that a scope stands in. -/
def rounds : Scope → Nat
  | top _ => 0
  | loop _ outer => outer.rounds + 1

/-- The scope so many rounds further out; there is none outside the data. -/
def enclosing? : Scope → Nat → Option Scope
  | s, 0 => some s
  | loop _ outer, n + 1 => outer.enclosing? n
  | top _, _ + 1 => none

/-- A name with so many `..` put in front. -/
def ascend (n : Nat) (name : String) : String := String.join (List.replicate n "..") ++ name

/-- A name with more segments behind it. -/
def extend (name : String) (keys : List String) : String :=
  keys.foldl (fun name key => name ++ "." ++ key) name

/-! Segments at the end. They leave the `..` at the start as they are, unless the name before them
is made of points alone and they go on with its last one. -/

theorem append_ne_ascend (h : ∃ c ∈ cs, c ≠ '.') (hhere : ∀ rest, cs ≠ '.' :: '.' :: rest)
    (more rest : List Char) : cs ++ more ≠ '.' :: '.' :: rest := by
  intro heq
  match cs with
  | [] => simp at h
  | [c] =>
    obtain ⟨d, hd, hne⟩ := h
    exact hne ((List.mem_singleton.1 hd).trans (List.cons.inj heq).1)
  | c :: d :: cs =>
    obtain ⟨rfl, htail⟩ := List.cons.inj heq
    obtain ⟨rfl, -⟩ := List.cons.inj htail
    exact hhere cs rfl

theorem ascents_append (h : ∃ c ∈ cs, c ≠ '.') (more : List Char) :
    ascents (cs ++ more) = ascents cs ∧ stem (cs ++ more) = stem cs ++ more := by
  induction cs using ascents.induct with
  | case1 rest ih =>
    obtain ⟨hascents, hstem⟩ := ih (by simpa using h)
    exact ⟨congrArg (· + 1) hascents, hstem⟩
  | case2 cs hhere =>
    have hmore := append_ne_ascend h hhere more
    rw [ascents_here hhere, ascents_here hmore, stem_here hhere, stem_here hmore]
    exact ⟨rfl, rfl⟩

theorem segments_append (h : ∃ c ∈ name.toList, c ≠ '.') {key : String} (hkey : '.' ∉ key.toList) :
    segments (name ++ "." ++ key) = segments name ++ [key] := by
  have hlist : (name ++ "." ++ key).toList = name.toList ++ '.' :: key.toList := by simp
  rw [segments, hlist, (ascents_append h _).2, Text.splitBy_append (by rfl), splitBy_undotted hkey,
    List.map_append, List.map_singleton, String.ofList_toList, segments]

theorem extend_keeps (h : ∃ c ∈ name.toList, c ≠ '.') (hkeys : ∀ key ∈ keys, '.' ∉ key.toList) :
    ascents (extend name keys).toList = ascents name.toList ∧
      segments (extend name keys) = segments name ++ keys := by
  induction keys generalizing name with
  | nil => exact ⟨rfl, (List.append_nil _).symm⟩
  | cons key keys ih =>
    obtain ⟨hkey, hkeys⟩ := List.forall_mem_cons.1 hkeys
    have hlist : (name ++ "." ++ key).toList = name.toList ++ ('.' :: key.toList) := by simp
    have hone : ∃ c ∈ (name ++ "." ++ key).toList, c ≠ '.' := by
      obtain ⟨c, hc, hne⟩ := h
      exact ⟨c, hlist ▸ List.mem_append_left _ hc, hne⟩
    obtain ⟨hascents, hsegments⟩ := ih hone hkeys
    rw [segments_append h hkey, List.append_assoc] at hsegments
    rw [hlist, (ascents_append h _).1] at hascents
    exact ⟨hascents, hsegments⟩

theorem follow?_append (s : Scope) {before : List String} (h : before ≠ []) (after : List String) :
    s.follow? (before ++ after) = s.follow? before >>= after.foldlM Value.segment? := by
  cases before with
  | nil => exact absurd rfl h
  | cons key keys =>
    rw [List.cons_append, follow?, follow?]
    cases s.lookup? key with
    | none => rfl
    | some found => exact List.foldlM_append

theorem segments_ne_nil (name : String) : segments name ≠ [] := by
  rw [segments, ne_eq, List.map_eq_nil_iff]
  exact Text.splitBy_ne_nil _ _

/-- A name with more segments behind it has the value that they lead to from the value of the
name. -/
theorem resolve_extend (s : Scope) (h : ∃ c ∈ name.toList, c ≠ '.')
    (hkeys : ∀ key ∈ keys, '.' ∉ key.toList) :
    s.resolve (extend name keys) = (s.resolve name).atPath keys := by
  obtain ⟨hascents, hsegments⟩ := extend_keeps h hkeys
  cases keys with
  | nil => rfl
  | cons key keys =>
    rw [resolve_eq, hascents, hsegments, follow?_append _ (segments_ne_nil name), resolve_eq s name,
      Value.getD_atPath]

/-! Points in front. -/

theorem toList_ascend (n : Nat) (name : String) :
    (ascend (n + 1) name).toList = '.' :: '.' :: (ascend n name).toList := by
  simp [ascend, List.replicate_succ]

theorem exists_enclosing? {n : Nat} (h : n ≤ s.rounds) : ∃ t, s.enclosing? n = some t := by
  induction n generalizing s with
  | zero => exact ⟨s, by cases s <;> rfl⟩
  | succ n ih =>
    cases s with
    | top data => exact absurd h (Nat.not_succ_le_zero n)
    | loop item outer => exact ih (Nat.le_of_succ_le_succ h)

theorem resolve_ascend {n : Nat} (h : s.enclosing? n = some t) (name : String) :
    s.resolve (ascend n name) = t.resolve name := by
  induction n generalizing s with
  | zero =>
    obtain rfl : s = t := by cases s <;> exact Option.some.inj h
    rw [ascend, List.replicate_zero, String.join_nil, String.empty_append]
  | succ n ih =>
    cases s with
    | top data => cases h
    | loop item outer =>
      rw [resolve, toList_ascend, resolveChars_ascend]
      exact ih h

end Scope

open Scope

/-- A segment behind a name that is not all points leads one step on from its value, any number of
them so many steps, and a missing one to the empty text; and `..` in front of a name, up to as many
as there are rounds of loops, leads to its value that many rounds further out. -/
theorem Scope.resolve_stepwise (s : Scope) :
    (∀ name key : String, (∃ c ∈ name.toList, c ≠ '.') → '.' ∉ key.toList →
        s.resolve (name ++ "." ++ key) = ((s.resolve name).segment? key).getD .empty) ∧
      (∀ (name : String) (keys : List String), (∃ c ∈ name.toList, c ≠ '.') →
        (∀ key ∈ keys, '.' ∉ key.toList) →
          s.resolve (extend name keys) = (s.resolve name).atPath keys) ∧
      ∀ n ≤ s.rounds, ∃ t, s.enclosing? n = some t ∧
        ∀ name, s.resolve (ascend n name) = t.resolve name := by
  refine ⟨fun name key h hkey => ?_, fun name keys h hkeys => s.resolve_extend h hkeys,
    fun n hn => ?_⟩
  · rw [← Value.atPath_singleton]
    exact s.resolve_extend h (List.forall_mem_singleton.2 hkey)
  · obtain ⟨t, ht⟩ := exists_enclosing? hn
    exact ⟨t, ht, resolve_ascend ht⟩

/-- A list in the data around two loops. -/
def shelfScope : Scope :=
  .loop (.str "i") (.loop (.str "o") (.top (.map [("b", .list [.str "x"])])))

theorem Scope.resolve_stepwise_shelf :
    (∃ c ∈ "....b".toList, c ≠ '.') ∧ '.' ∉ "+0".toList ∧ (∀ key ∈ ["0", "0"], '.' ∉ key.toList) ∧
      2 ≤ shelfScope.rounds ∧ shelfScope.resolve ("....b" ++ "." ++ "+0") = .str "x" ∧
      shelfScope.resolve (extend "....b" ["0", "0"]) = .empty ∧
      shelfScope.resolve (ascend 2 "b.0") = .str "x" := by
  have hname : ∃ c ∈ "....b".toList, c ≠ '.' := ⟨'b', by decide, by decide⟩
  have hkey : '.' ∉ "+0".toList := by decide
  have hkeys : ∀ key ∈ ["0", "0"], '.' ∉ key.toList := by decide
  have hrounds : 2 ≤ shelfScope.rounds := by decide
  obtain ⟨hstep, hpath, hascend⟩ := resolve_stepwise shelfScope
  obtain ⟨t, ht, hresolve⟩ := hascend 2 hrounds
  obtain rfl := Option.some.inj ht
  exact ⟨hname, hkey, hkeys, hrounds, hstep _ _ hname hkey, hpath _ _ hname hkeys, hresolve "b.0"⟩

end Stencil
