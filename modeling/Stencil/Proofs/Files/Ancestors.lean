import Stencil.Proofs.Files.Address

/-! The paths above a path: what is left without some of its last parts. A path without `..` leads
to where each of them does, or below; with `..` a path above may lead further down. -/

namespace Stencil

/-- A path, and what is left of it without some of its last parts. -/
inductive Path.Ancestor : String → String → Prop where
  | self {path : String} : Ancestor path path
  | above {path up ancestor : String} (parent : parent? path = some up)
    (rest : Ancestor up ancestor) : Ancestor path ancestor

namespace Files

variable {s : Store} {path up : String} {parts : List String} {loc : Location}

/-- A path, or one above it, leads to a location or below it. -/
def Store.LeadsThrough (s : Store) (path : String) (loc : Location) : Prop :=
  ∃ up, Path.Ancestor path up ∧ loc <+: s.address up

theorem Store.LeadsThrough.of_parent (hparent : Path.parent? path = some up)
    (h : s.LeadsThrough up loc) : s.LeadsThrough path loc :=
  let ⟨ancestor, habove, hloc⟩ := h
  ⟨ancestor, .above hparent habove, hloc⟩

theorem prefix_dropIdleEnd (parts : List String) : Path.dropIdleEnd parts <+: parts := by
  rw [Path.dropIdleEnd, ← List.reverse_suffix, List.reverse_reverse]
  exact List.dropWhile_suffix _

/-! Parts and what they are joined to. -/

theorem parts_ofParts (hne : parts ≠ []) (hwhole : ∀ part ∈ parts, '/' ∉ part.toList) :
    Path.parts (Path.ofParts parts) = parts := by
  induction parts with
  | nil => exact absurd rfl hne
  | cons part rest ih =>
    obtain ⟨hpart, hrest⟩ := List.forall_mem_cons.1 hwhole
    cases rest with
    | nil => exact parts_of_whole hpart
    | cons next rest =>
      have hnext : Path.parts ("/".intercalate (next :: rest)) = next :: rest :=
        ih (List.cons_ne_nil next rest) hrest
      rw [Path.ofParts, String.intercalate_cons_cons, parts_slash, parts_of_whole hpart, hnext]
      rfl

/-- An absolute path has nothing before its first slash. -/
theorem isAbsolute_iff :
    Path.isAbsolute path ↔ ∃ part rest, Path.parts path = "" :: part :: rest := by
  rw [Path.isAbsolute, Path.parts]
  cases path.toList with
  | nil => simp [Text.splitBy]
  | cons c cs =>
    obtain ⟨part, rest, hparts⟩ := List.exists_cons_of_ne_nil (Text.splitBy_ne_nil (· == '/') cs)
    cases hslash : c == '/' with
    | true => simp [Text.splitBy, hslash, hparts]
    | false => simp [Text.splitBy, hslash, hparts]

theorem parts_ne_nil (path : String) : Path.parts path ≠ [] := fun h =>
  Text.splitBy_ne_nil _ _ (List.map_eq_nil_iff.1 h)

/-- The start of a path, if it is more than the slash in front, is a path that starts alike. -/
theorem starts_alike {front : List String} (hfront : front <+: Path.parts path) (hne : front ≠ [])
    (hroot : front ≠ [""]) : Path.isAbsolute (Path.ofParts front) = Path.isAbsolute path ∧
      Path.parts (Path.ofParts front) <+: Path.parts path := by
  have hparts : Path.parts (Path.ofParts front) = front :=
    parts_ofParts hne fun part hpart => whole_of_mem_parts (hfront.subset hpart)
  rw [hparts]
  refine ⟨?_, hfront⟩
  obtain ⟨more, hmore⟩ := hfront
  rw [Bool.eq_iff_iff, isAbsolute_iff, isAbsolute_iff, hparts, ← hmore]
  rcases front with _ | ⟨first, _ | ⟨second, front⟩⟩
  · exact absurd rfl hne
  · have hfirst : first ≠ "" := fun heq => hroot (heq ▸ rfl)
    simp [hfirst]
  · simp

theorem splitStart_cases (path : String) : ∃ start rest, Path.splitStart path = (start, rest) ∧
    start ++ rest = Path.parts path ∧ (start ≠ [""] → Path.isAbsolute path = false) := by
  obtain ⟨first, rest, hparts⟩ := List.exists_cons_of_ne_nil (parts_ne_nil path)
  have habsolute (h : Path.isAbsolute path) : first = "" := by
    obtain ⟨_, _, hempty⟩ := isAbsolute_iff.1 h
    exact (List.cons.inj (hparts.symm.trans hempty)).1
  rw [Path.splitStart, hparts]
  dsimp only
  split
  · refine ⟨[first], rest, rfl, rfl, fun hne => Bool.eq_false_iff.2 fun h => hne ?_⟩
    rw [habsolute h]
  · next hrelative =>
    refine ⟨[], first :: rest, rfl, rfl, fun _ => Bool.eq_false_iff.2 fun h => ?_⟩
    simp [h] at hrelative

/-- The path above is the top, where relative paths start, or the start of the path. -/
theorem parent_cases (h : Path.parent? path = some up) :
    up = "/" ∨ (up = "" ∧ Path.isAbsolute path = false) ∨
      (Path.isAbsolute up = Path.isAbsolute path ∧ Path.parts up <+: Path.parts path) := by
  obtain ⟨start, rest, hstart, hparts, hrelative⟩ := splitStart_cases path
  rw [Path.parent?, hstart] at h
  dsimp only at h
  split at h
  · split at h
    · next hdot =>
      have hdot : start = ["."] := by simpa using hdot
      exact .inr (.inl ⟨(Option.some.inj h).symm, hrelative (by rw [hdot]; decide)⟩)
    · exact nomatch h
  · have hprefix : start ++ Path.dropIdleEnd (Path.dropIdleEnd rest).dropLast <+:
        Path.parts path := by
      rw [← hparts, List.prefix_append_right_inj]
      exact ((prefix_dropIdleEnd _).trans (List.dropLast_prefix _)).trans (prefix_dropIdleEnd _)
    split at h
    · exact .inl (Option.some.inj h).symm
    · next hroot =>
      obtain rfl := Option.some.inj h
      by_cases hempty : start ++ Path.dropIdleEnd (Path.dropIdleEnd rest).dropLast = []
      · have hnone : start = [] := (List.append_eq_nil_iff.1 hempty).1
        exact .inr (.inl ⟨by rw [hempty]; rfl, hrelative (by rw [hnone]; exact nofun)⟩)
      · exact .inr (.inr (starts_alike hprefix hempty (by simpa using hroot)))

/-! Addresses. -/

/-- Without `..` parts only lead further down. -/
theorem prefix_foldl_move (hdown : ".." ∉ parts) : loc <+: parts.foldl move loc := by
  induction parts generalizing loc with
  | nil => exact List.prefix_rfl
  | cons part rest ih =>
    rw [List.mem_cons, not_or] at hdown
    refine List.IsPrefix.trans ?_ (ih hdown.2)
    unfold move
    split
    · exact List.prefix_rfl
    · rw [if_neg (Ne.symm hdown.1)]
      exact List.prefix_append loc [part]

theorem address_parent (h : Path.parent? path = some up) (hdown : ".." ∉ Path.parts path) :
    s.address up <+: s.address path ∧ ".." ∉ Path.parts up := by
  rw [Store.address_eq_foldl, Store.address_eq_foldl]
  rcases parent_cases h with rfl | ⟨rfl, hrelative⟩ | ⟨habsolute, hprefix⟩
  · exact ⟨List.nil_prefix, by decide⟩
  · rw [hrelative]
    exact ⟨prefix_foldl_move hdown, by decide⟩
  · rw [habsolute]
    obtain ⟨more, hmore⟩ := hprefix
    rw [← hmore, List.mem_append, not_or] at hdown
    rw [← hmore, List.foldl_append]
    exact ⟨prefix_foldl_move hdown.2, hdown.1⟩

theorem Ancestor.address (h : Path.Ancestor path up) (hdown : ".." ∉ Path.parts path) :
    s.address up <+: s.address path := by
  induction h with
  | self => exact List.prefix_rfl
  | above parent _ ih =>
    obtain ⟨hparent, hdown⟩ := address_parent parent hdown
    exact (ih hdown).trans hparent

theorem Store.not_leadsThrough (hdown : ".." ∉ Path.parts path) (hloc : ¬ loc <+: s.address path) :
    ¬ s.LeadsThrough path loc := by
  rintro ⟨up, habove, hup⟩
  exact hloc (hup.trans (Ancestor.address habove hdown))

end Files

end Stencil
