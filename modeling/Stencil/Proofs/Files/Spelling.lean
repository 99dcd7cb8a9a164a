import Stencil.Proofs.Files.Components
import Stencil.Proofs.Files.Frame

/-! Where a path leads follows from its components. The converse fails: paths with other components
can lead to the same place. Paths that fork only once they go straight down, and paths that lead
apart, can be compared by their components. -/

namespace Stencil.Files

variable {root path : String} {names parts : List String} {s : Store}

theorem foldl_move_busy (parts : List String) (loc : Location) :
    (parts.filter (!Path.isIdle ·)).foldl move loc = parts.foldl move loc := by
  induction parts generalizing loc with
  | nil => rfl
  | cons part parts ih =>
    rw [List.filter_cons, List.foldl_cons]
    cases hidle : Path.isIdle part with
    | true => simpa [move, hidle] using ih loc
    | false => simpa using ih (move loc part)

theorem foldl_move_components (path : String) (loc : Location) :
    (Path.components path).foldl move loc = (Path.parts path).foldl move loc := by
  rw [Path.components_eq]
  cases Path.parts path with
  | nil => rfl
  | cons first rest =>
    rw [Path.componentsOf]
    split
    · rw [List.foldl_cons, List.foldl_cons, foldl_move_busy]
    · exact foldl_move_busy (first :: rest) loc

/-- Only the start of an absolute path is an empty component. -/
theorem head?_components (path : String) :
    (Path.components path).head? = some "" ↔ Path.isAbsolute path := by
  rw [Path.components_eq]
  cases habsolute : Path.isAbsolute path with
  | true =>
    obtain ⟨part, rest, hparts⟩ := isAbsolute_iff.1 habsolute
    simp [hparts, Path.componentsOf]
  | false =>
    have hbusy (parts : List String) : (parts.filter (!Path.isIdle ·)).head? ≠ some "" := by
      intro h
      have hmem := List.mem_filter.1 (List.mem_of_mem_head? h)
      exact absurd hmem.2 (by decide)
    cases Path.parts path with
    | nil => simp [Path.componentsOf]
    | cons first rest =>
      simp only [Path.componentsOf, Bool.or_false, Bool.false_eq_true, iff_false]
      split
      · next hdot => simp [beq_iff_eq.1 hdot]
      · exact hbusy _

/-- Where a path leads, by its components. -/
theorem Store.address_eq_components (s : Store) (path : String) : s.address path =
    (Path.components path).foldl move
      (if (Path.components path).head? = some "" then [] else s.here.foldl move []) := by
  rw [foldl_move_components, s.address_eq_foldl]
  simp only [head?_components]

/-! Paths that fork. -/

/-- The paths are written alike up to some point and go straight down from there. -/
def Forks (root path : String) : Prop :=
  ∃ common down down', Path.components root = common ++ down ∧
    Path.components path = common ++ down' ∧ ∀ name ∈ down ++ down', IsName name

theorem Forks.address (h : Forks root path) (s : Store) :
    ∃ (common : List String) (loc : Location) (down down' : List String),
      Path.components root = common ++ down ∧ Path.components path = common ++ down' ∧
      s.address root = loc ++ down ∧ s.address path = loc ++ down' := by
  obtain ⟨common, down, down', hroot, hpath, hnames⟩ := h
  rw [List.forall_mem_append] at hnames
  have hhead {more : List String} (hmore : ∀ name ∈ more, IsName name) :
      (common ++ more).head? = some "" ↔ common.head? = some "" := by
    cases common with
    | cons => exact Iff.rfl
    | nil =>
      refine iff_of_false (fun h => ?_) nofun
      exact absurd (hmore "" (List.mem_of_mem_head? h)).busy (by decide)
  refine ⟨common, common.foldl move (if common.head? = some "" then [] else s.here.foldl move []),
    down, down', hroot, hpath, ?_, ?_⟩
  · rw [s.address_eq_components, hroot, List.foldl_append, foldl_move_names hnames.1]
    simp only [hhead hnames.1]
  · rw [s.address_eq_components, hpath, List.foldl_append, foldl_move_names hnames.2]
    simp only [hhead hnames.2]

/-- A path without `..` behind the root forks from it. -/
theorem forks_join (hroot : root ≠ "") (hrelative : Path.isAbsolute path = false)
    (hdown : ".." ∉ Path.parts path) : Forks root (Path.join root path) := by
  refine ⟨Path.components root, [], (Path.parts path).filter (!Path.isIdle ·),
    (List.append_nil _).symm, components_join hroot hrelative, fun name hname => ?_⟩
  obtain ⟨hmem, hbusy⟩ := List.mem_filter.1 hname
  exact ⟨by simpa using hbusy, fun hup => hdown (hup ▸ hmem), whole_of_mem_parts hmem⟩

/-! Paths that can be compared as they are written. -/

/-- What lies below the root is below the path by its components if it is there. -/
inductive Comparable (s : Store) (root path : String) : Prop where
  | forks (h : Forks root path)
  | apart (h : Apart (s.address path) (s.address root))
      (hspelled : Path.startsWith root path = false)

theorem Comparable.prefix_iff (h : Comparable s root path) (hnames : ∀ name ∈ names, IsName name) :
    Path.components path <+: Path.components root ++ names ↔
      s.address path <+: s.address root ++ names := by
  cases h with
  | forks h =>
    obtain ⟨common, loc, down, down', hroot, hpath, hrootAddress, hpathAddress⟩ := h.address s
    rw [hroot, hpath, hrootAddress, hpathAddress, List.append_assoc, List.append_assoc,
      List.prefix_append_right_inj, List.prefix_append_right_inj]
  | apart hapart hspelled =>
    refine iff_of_false (fun hprefix => ?_) (hapart.not_prefix_append names)
    have hnot : ¬ Path.components path <+: Path.components root := by
      rwa [← List.isPrefixOf_iff_prefix, ← Path.startsWith, Bool.not_eq_true]
    -- a path that starts with the root leads below it
    obtain habove | hbelow := List.prefix_or_prefix_of_prefix hprefix (List.prefix_append _ names)
    · exact hnot habove
    · obtain ⟨more, hmore⟩ := hbelow
      rw [← hmore, List.prefix_append_right_inj] at hprefix
      have hforks : Forks root path := ⟨Path.components root, [], more, (List.append_nil _).symm,
        hmore.symm, fun name hname => hnames name (List.IsPrefix.subset hprefix hname)⟩
      obtain ⟨common, loc, down, down', hroot, hpath, hrootAddress, hpathAddress⟩ :=
        hforks.address s
      rw [hroot, hpath, List.append_assoc] at hmore
      rw [hrootAddress, hpathAddress, ← List.append_cancel_left hmore, ← List.append_assoc]
        at hapart
      exact hapart.notBelow (List.prefix_append _ more)

end Stencil.Files
