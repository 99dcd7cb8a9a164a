import Stencil.Proofs.Scope.Nested

/-! Keys that a template does not mention. A name asks a map for its first segment, behind the
leading `..`, and for what lies outside; nothing walks over the map as a whole. So maps that differ
under one other key render a template alike, at any depth of loops. -/

namespace Stencil

namespace Table

variable {α : Type} {t : Table α}

/-- The table without the entry for a key. -/
def erase (key : String) (t : Table α) : Table α := t.filter (·.1 != key)

theorem get?_erase (key k : String) (t : Table α) :
    (erase key t).get? k = if k = key then none else t.get? k := by
  induction t with
  | nil => simp [erase, get?]
  | cons e t ih =>
    unfold erase at ih ⊢
    rw [List.filter_cons]
    split
    · next hne =>
      have hne : e.1 ≠ key := by simpa using hne
      rw [get?_cons, get?_cons, ih]
      split
      · next hk => rw [if_neg (hk ▸ hne)]
      · rfl
    · next heq =>
      have heq : e.1 = key := by simpa using heq
      rw [ih, get?_cons]
      split
      · rfl
      · next hk => rw [if_neg (heq ▸ hk)]

/-- Two tables in which the same is found under every key but one. -/
def SameBut (key : String) (t u : Table α) : Prop := ∀ k, k ≠ key → t.get? k = u.get? k

theorem sameBut_insert (key : String) (value : α) (t : Table α) :
    SameBut key (insert key value t) t := by
  intro k hk
  rw [get?_insert, if_neg hk]

theorem sameBut_erase (key : String) (t : Table α) : SameBut key (erase key t) t := by
  intro k hk
  rw [get?_erase, if_neg hk]

end Table

/-- The first part ends before the first place to split at. -/
theorem Text.splitBy_eq_takeWhile (p : Char → Bool) (cs : List Char) :
    ∃ parts, splitBy p cs = cs.takeWhile (!p ·) :: parts := by
  induction cs with
  | nil => exact ⟨[], rfl⟩
  | cons c cs ih =>
    obtain ⟨parts, hparts⟩ := ih
    rw [splitBy, List.takeWhile_cons, hparts]
    cases p c with
    | true => exact ⟨_, rfl⟩
    | false => exact ⟨parts, rfl⟩

namespace Scope

variable {key k : String} {s s' : Scope}

/-- The first segment of a name, behind its leading `..`. -/
def firstSegment : List Char → String
  | '.' :: '.' :: rest => firstSegment rest
  | name => String.ofList (name.takeWhile (· != '.'))

/-- One scope, or two over maps that differ under one key. -/
inductive SameBut (key : String) : Scope → Scope → Prop where
  | same (s : Scope) : SameBut key s s
  | top {t u : Table Value} (h : t.SameBut key u) : SameBut key (.top (.map t)) (.top (.map u))
  | loop {s s' : Scope} (item : Value) (h : SameBut key s s') :
    SameBut key (.loop item s) (.loop item s')

theorem SameBut.outer (hkey : key ≠ "..") (h : SameBut key s s') :
    SameBut key s.outer s'.outer := by
  cases h with
  | same => exact .same _
  | @top t u h =>
    -- both maps have one entry for `..`, and beyond it there is one scope
    have hentry : (Value.map t).get? ".." = (Value.map u).get? ".." := h ".." (Ne.symm hkey)
    rw [Scope.outer, Scope.outer, hentry]
    exact .same _
  | loop _ h => exact h

theorem SameBut.lookup? (h : SameBut key s s') (hk : k ≠ key) : s.lookup? k = s'.lookup? k := by
  cases h with
  | same => rfl
  | top h => exact h k hk
  | loop => rfl

theorem firstSegment_here {cs : List Char} (h : ∀ rest, cs ≠ '.' :: '.' :: rest) :
    firstSegment cs = String.ofList (cs.takeWhile (· != '.')) := by
  unfold firstSegment
  split
  · next rest => exact absurd rfl (h rest)
  · rfl

/-- Such scopes give a name one value if it starts with another key. -/
theorem SameBut.resolveChars (hkey : key ≠ "..") {cs : List Char} (h : SameBut key s s')
    (hcs : firstSegment cs ≠ key) : s.resolveChars cs = s'.resolveChars cs := by
  induction cs using firstSegment.induct generalizing s s' with
  | case1 rest ih =>
    rw [firstSegment] at hcs
    rw [resolveChars_ascend, resolveChars_ascend]
    exact ih (h.outer hkey) hcs
  | case2 cs hhere =>
    rw [firstSegment_here hhere] at hcs
    obtain ⟨parts, hparts⟩ := Text.splitBy_eq_takeWhile (· == '.') cs
    rw [resolveChars_here s hhere, resolveChars_here s' hhere, hparts, List.map_cons, follow?,
      follow?]
    exact congrArg (fun found => Option.getD (found >>= _) Value.empty) (h.lookup? hcs)

end Scope

/-- The first segments of the names in a template. -/
def Template.firstSegments (t : Template) : List String :=
  (Node.allNames 0 t).map fun p => Scope.firstSegment p.2.toList

theorem Template.render_sameBut {t : Template} {key : String} (hkey : key ≠ "..")
    (h : key ∉ t.firstSegments) {c d : Table Value} (hsame : c.SameBut key d) :
    t.render (.map c) = t.render (.map d) := by
  have hloop : Scope.LoopClosed fun _ s s' => s.SameBut key s' := fun _ _ _ item h => .loop item h
  have hfixes : Scope.Fixes (fun _ s s' => s.SameBut key s') (Node.allNames 0 t) := by
    intro p hp s s' hs
    exact hs.resolveChars hkey fun heq => h (List.mem_map.2 ⟨p, hp, heq⟩)
  exact Node.renderAll_congr hloop (.top hsame) t hfixes

/-- What a map holds under a key that no name of a template starts with makes no difference,
whether the key is there or not. -/
theorem Template.render_unmentioned (t : Template) (entries : Table Value) {key : String}
    (hkey : key ≠ "..") (h : key ∉ t.firstSegments) (v : Value) :
    t.render (.map (Table.insert key v entries)) = t.render (.map entries) ∧
      t.render (.map (Table.erase key entries)) = t.render (.map entries) :=
  ⟨render_sameBut hkey h (Table.sameBut_insert key v entries),
    render_sameBut hkey h (Table.sameBut_erase key entries)⟩

/-- A loop that looks at its items, at the map around it and at the entry of that map for `..`. -/
def roundsTemplate : Template :=
  [.array (.name "xs") [.variable "item", .variable "..title", .variable "....title"]]

def roundsEntries : Table Value :=
  [("..", .map [("title", .str "out")]), ("key", .bool true), ("title", .str "in"),
    ("xs", .list [.str "a", .str "b"])]

theorem Template.render_unmentioned_rounds : "key" ≠ ".." ∧
    "key" ∉ roundsTemplate.firstSegments ∧
    roundsTemplate.render (.map (Table.insert "key" .none roundsEntries)) =
      roundsTemplate.render (.map roundsEntries) ∧
    roundsTemplate.render (.map (Table.erase "key" roundsEntries)) =
      roundsTemplate.render (.map roundsEntries) :=
  have hkey : "key" ≠ ".." := by decide
  have hnames : "key" ∉ roundsTemplate.firstSegments := by decide +kernel
  ⟨hkey, hnames, render_unmentioned roundsTemplate roundsEntries hkey hnames .none⟩

end Stencil
