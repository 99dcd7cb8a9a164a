import Mathlib.Logic.Function.Iterate
import Stencil.Proofs.Site.Sight
import Stencil.Proofs.Site.Steps

/-! Building while the root is watched. What a build writes lies below its output directory, and the
watcher ignores paths that start with the path of that directory. Paths are compared part by part as
they are written, so the two agree if the output path goes straight down from the root, or if it
leads out of it. Otherwise the watcher sees its own build, and each rebuild is followed by another. -/

namespace Stencil.Site

open Files Watcher

variable {s s' : Store} {o : Options} {seen : List (String × Stamp)}

/-- What a build into the directory at `loc` can write: the pages in it, and the style sheets. -/
def IsTarget (loc : Location) (target : Location) : Prop :=
  (∃ page, target = loc ++ [page]) ∨ loc ++ [stylesName] <+: target

theorem evolves_buildPage {root output page : String} {data : Value} (houtput : output ≠ "")
    (hpage : IsName page) (report : Report) (s : Store) : Evolves (IsTarget (s.address output)) s
      ((buildPage root output data report page).run s).2 := by
  rw [run_buildPage]
  split
  · split
    · next html _ s' hwrite =>
      refine (evolves_write hwrite).mono fun loc hloc => .inl ⟨page, ?_⟩
      rw [hloc, s.address_join_name houtput hpage]
    · exact .refl _ s
  · exact .refl _ s

/-- A build writes only pages and style sheets, however it ends. -/
theorem evolves_build (hs : s.Sound) (houtput : o.outputPath ≠ "") :
    Evolves (IsTarget (s.address o.outputPath)) s ((build o).run s).2 := by
  rw [run_build]
  split
  · split
    · exact .refl _ s
    · have hmade : Evolves (IsTarget (s.address o.outputPath)) s
          ((makeDirectories o.outputPath).run s).2 := by
        rw [makeDirectories, Action.run_adapt]
        exact (evolves_makeDirectories o.outputPath s).mono fun _ h => h.elim
      refine Action.evolves_bind hmade fun _ made hrun => ?_
      rw [hrun] at hmade
      have haddress := hmade.address_eq o.outputPath
      refine Action.evolves_look_bind fun data _ => Action.evolves_look_bind fun names hpages => ?_
      obtain ⟨-, hnames⟩ := pages_names (hmade.sound hs) hpages
      have hbuilt : Evolves (IsTarget (s.address o.outputPath)) made (Action.run
          (names.foldlM (buildPage o.root o.outputPath data) ⟨[], []⟩) made).2 := by
        refine Action.evolves_foldlM (fun page hpage report mid hmid => ?_) _
        rw [← haddress, ← hmid.address_eq]
        exact evolves_buildPage houtput (hnames page hpage).1 report mid
      refine Action.evolves_bind hbuilt fun report built hrun => ?_
      rw [hrun] at hbuilt
      have hsound := hbuilt.sound (hmade.sound hs)
      refine Action.evolves_bind ?_ fun _ copied _ => .refl _ copied
      refine (evolves_copyTree _ hsound houtput).mono fun loc hloc => .inr ?_
      rwa [hbuilt.address_eq, haddress] at hloc
  · exact .refl _ s

/-- What is left of the store after building with force, however that ends. -/
def rebuild (o : Options) (s : Store) : Store := ((build { o with force := true }).run s).2

theorem evolves_rebuild (hs : s.Sound) (hroot : o.root ≠ "") :
    Evolves (IsTarget (s.address o.outputPath)) s (rebuild o s) :=
  evolves_build (o := { o with force := true }) hs (Path.join_ne_empty hroot o.output)

/-- What a build can write is ignored where a walk from the root finds it. -/
def Hides (o : Options) (s : Store) : Prop :=
  ∀ names, names ≠ [] → (∀ name ∈ names, IsName name) →
    IsTarget (s.address o.outputPath) (s.address o.root ++ names) →
    isIgnored [o.outputPath] (walk o.root names)

theorem Hides.evolves {within : Location → Prop} (h : Hides o s) (hs' : Evolves within s s') :
    Hides o s' := by
  rw [Hides, hs'.address_eq, hs'.address_eq]
  exact h

theorem look_empty (ignore : List String) (s : Store) : look "" ignore s = [] := rfl

theorem look_rebuild (hs : s.Sound) (h : Hides o s) :
    look o.root [o.outputPath] (rebuild o s) = look o.root [o.outputPath] s := by
  by_cases hroot : o.root = ""
  · rw [hroot, look_empty, look_empty]
  · by_cases hindex : s.isFile (Path.join o.root indexName)
    · obtain ⟨bytes, stamp, hfind⟩ := Store.find?_of_isFile hindex
      obtain ⟨-, hlocate⟩ := Store.find?_eq_file hfind
      obtain ⟨entries, hentries⟩ := Store.find?_of_join hroot (by decide) hlocate
      exact look_eq hs (evolves_rebuild hs hroot) hentries h
    · rw [rebuild, run_build, if_neg hindex]

/-- Any number of builds leaves what the watcher sees as it was. -/
theorem look_rebuilds (hs : s.Sound) (h : Hides o s) (count : Nat) :
    look o.root [o.outputPath] ((rebuild o)^[count] s) = look o.root [o.outputPath] s := by
  by_cases hroot : o.root = ""
  · rw [hroot, look_empty, look_empty]
  · induction count generalizing s with
    | zero => rfl
    | succ count ih =>
      have hstep := evolves_rebuild hs hroot
      rw [Function.iterate_succ_apply, ih (hstep.sound hs) (h.evolves hstep), look_rebuild hs h]

/-! When the output is hidden. -/

/-- The output path goes straight down, and from the same start as the root. -/
structure Options.Straight (o : Options) : Prop where
  output : ".." ∉ Path.parts o.output
  root : Path.isAbsolute o.output → Path.isAbsolute o.root ∧ ".." ∉ Path.parts o.root

/-- The output path leads out of the root, which is not among the style sheets either. -/
structure Options.Outside (o : Options) (s : Store) : Prop where
  output : ¬ s.address o.root <+: s.address o.outputPath
  styles : ¬ s.address o.outputPath ++ [stylesName] <+: s.address o.root

theorem IsTarget.below {loc target : Location} (h : IsTarget loc target) : loc <+: target := by
  obtain ⟨page, rfl⟩ | hstyles := h
  · exact List.prefix_append loc [page]
  · exact (List.prefix_append loc _).trans hstyles

theorem hides_of_straight (hroot : o.root ≠ "") (h : o.Straight) : Hides o s := by
  intro names _ hnames htarget
  have hprefix := htarget.below
  rw [isIgnored, List.any_cons, List.any_nil, Bool.or_false, Path.startsWith,
    List.isPrefixOf_iff_prefix, components_walk hroot hnames]
  cases habsolute : Path.isAbsolute o.output with
  | true =>
    obtain ⟨hrootAbsolute, hdown⟩ := h.root habsolute
    have houtput : o.outputPath = o.output := by rw [Options.outputPath, Path.join, habsolute]; rfl
    rw [houtput] at hprefix ⊢
    rw [components_absolute (s := s) habsolute h.output,
      components_absolute (s := s) hrootAbsolute hdown, List.cons_append, List.cons_prefix_cons]
    exact ⟨rfl, hprefix⟩
  | false =>
    rw [Options.outputPath, s.address_join_parts hroot habsolute, foldl_move_down h.output,
      List.prefix_append_right_inj] at hprefix
    rw [Options.outputPath, components_join hroot habsolute, List.prefix_append_right_inj]
    exact hprefix

theorem hides_of_outside (h : o.Outside s) : Hides o s := by
  intro names hne _ htarget
  obtain ⟨front, last, rfl⟩ := (List.eq_nil_or_concat names).resolve_left hne
  rw [List.concat_eq_append, ← List.append_assoc] at htarget
  rcases htarget with ⟨page, hpage⟩ | hstyles
  · have hfront := (List.append_inj' hpage rfl).1
    exact absurd (hfront ▸ List.prefix_append _ front) h.output
  · have hroot : s.address o.root <+: s.address o.root ++ front ++ [last] := by
      rw [List.append_assoc]
      exact List.prefix_append _ _
    obtain habove | hbelow := List.prefix_or_prefix_of_prefix hstyles hroot
    · exact absurd habove h.styles
    · obtain hsame | houtput := List.prefix_concat_iff.1 hbelow
      · exact absurd (hsame ▸ List.prefix_rfl) h.styles
      · exact absurd houtput h.output

/-- Builds alone do not make the next scan report a change. -/
theorem scan_rebuilds (hs : s.Sound) (h : o.Straight ∨ o.Outside s)
    (seen : List (String × Stamp)) (count : Nat) :
    (((Watcher.mk o.root [o.outputPath] seen).scan s).2.scan ((rebuild o)^[count] s)).1 =
      false := by
  have hlook : look o.root [o.outputPath] ((rebuild o)^[count] s) =
      look o.root [o.outputPath] s := by
    by_cases hroot : o.root = ""
    · rw [hroot, look_empty, look_empty]
    · exact look_rebuilds hs (h.elim (hides_of_straight hroot) hides_of_outside) count
  show (look o.root [o.outputPath] ((rebuild o)^[count] s) != look o.root [o.outputPath] s) = false
  rw [hlook]
  exact bne_self_eq_false _

/-- A site with one page. -/
def pageStore : Store := ⟨.directory [("index.html", .file "x".toUTF8 (.given 0))], [], 0⟩

theorem sound_pageStore : pageStore.Sound :=
  Store.sound_flat (List.pairwise_singleton _ _) (by decide) (by simp [Entry.isDirectory])

/-- Builds into a directory of the root, or into one beside it by a path with `..`. -/
def withinRoot : Options := ⟨".", "site", true, none⟩

theorem straight_withinRoot : withinRoot.Straight :=
  ⟨by decide, fun h => nomatch h⟩

theorem scan_rebuilds_pageStore : pageStore.Sound ∧ withinRoot.Straight ∧
    ((rebuild withinRoot)^[2] pageStore).isFile "site/index.html" ∧
    (((Watcher.mk "." ["./site"] []).scan pageStore).2.scan
      ((rebuild withinRoot)^[2] pageStore)).1 = false := by
  refine ⟨sound_pageStore, straight_withinRoot, by decide +kernel, ?_⟩
  exact scan_rebuilds sound_pageStore (.inl straight_withinRoot) [] 2

/-- The same directory by way of another one, which is not there. -/
def roundabout : Options := ⟨".", "a/../site", true, none⟩

theorem not_scan_rebuilds : ¬ ∀ (s : Store) (o : Options), s.Sound →
    ((Watcher.start o.root [o.outputPath] s).scan (rebuild o s)).1 = false := by
  intro h
  have hseen : ((Watcher.start "." ["./a/../site"] pageStore).scan
      (rebuild roundabout pageStore)).1 = true := by decide +kernel
  exact nomatch hseen.symm.trans (h pageStore roundabout sound_pageStore)

end Stencil.Site
