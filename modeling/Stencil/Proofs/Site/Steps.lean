import Stencil.Proofs.Files.Runs
import Stencil.Site.Build

/-! The steps of a build: what stands against it, how a page is written, and where the style sheets
go. -/

namespace Stencil.Site

open Files

variable {s start : Store} {root output path source target name : String} {names : List String}

/-- What a build does when nothing stands against it. -/
def buildPages (o : Options) : Run Report := do
  makeDirectories o.outputPath
  let data ← Action.look (pageContext o)
  let names ← Action.look (pages o.root)
  let report ← names.foldlM (buildPage o.root o.outputPath data) ⟨[], []⟩
  copyTree (Path.join o.root stylesName) (Path.join o.outputPath stylesName)
  return report

theorem run_build (o : Options) (s : Store) : (build o).run s =
    if s.isFile (Path.join o.root indexName) then
      if s.exists? o.outputPath && !o.force then (.error (.outputExists o.outputPath), s)
      else (buildPages o).run s
    else (.error (.missingIndex o.root), s) := by
  rw [build, Action.run_bind, Action.run_get]
  dsimp only
  cases s.isFile (Path.join o.root indexName) with
  | false => rfl
  | true =>
    simp only [if_true]
    rw [Action.run_bind, Action.run_get]
    dsimp only
    split <;> rfl

theorem run_makeDirectories (hmake : (makeDirectories path).run s = (.ok (), start)) :
    (Files.makeDirectories path).run s = (.ok (), start) := by
  rw [makeDirectories, Action.run_adapt] at hmake
  obtain ⟨hok, hstart⟩ := Prod.mk.inj hmake
  exact Prod.ext (mapError_eq_ok hok) hstart

theorem run_buildPage (root output : String) (data : Value) (report : Report) (page : String)
    (s : Store) : (buildPage root output data report page).run s =
      match (Page.assemble (loader s root) page data).result with
      | .ok html =>
        match s.write (Path.join output page) html.toUTF8 with
        | .ok s' => (.ok ⟨report.pages ++ [Path.join output page], report.failures⟩, s')
        | .error fault => (.error (.file (Path.join output page) fault), s)
      | .error e => (.ok ⟨report.pages, report.failures ++ [(page, e)]⟩, s) := by
  rw [buildPage, Action.run_bind, Action.run_get]
  dsimp only
  cases (Page.assemble (loader s root) page data).result with
  | error e => rfl
  | ok html =>
    dsimp only
    rw [Action.run_bind, write, Action.run_change]
    cases s.write (Path.join output page) html.toUTF8 <;> rfl

/-! Copying. -/

theorem isName_of_mem_namesIn (hs : s.Sound) (h : name ∈ namesIn s source) : IsName name := by
  unfold namesIn at h
  cases hfind : s.find? source with
  | error fault => simp [hfind, Except.toOption] at h
  | ok e =>
    rw [hfind] at h
    cases e with
    | file => exact absurd h List.not_mem_nil
    | directory entries =>
      cases hs.of_find? hfind with
      | directory _ names _ => exact names name h

/-- Copying changes nothing but what lies at the target. -/
theorem evolves_copyEntry (depth : Nat) (hs : s.Sound) (htarget : target ≠ "") :
    Evolves (s.address target <+: ·) s ((copyEntry depth source target).run s).2 := by
  induction depth generalizing s source target with
  | zero => exact .refl _ s
  | succ depth ih =>
    rw [copyEntry, Action.run_bind, Action.run_get]
    dsimp only
    split
    · have hmade := evolves_makeDirectories target s
      refine Action.evolves_bind (hmade.mono fun _ h => h.elim) fun _ made hrun => ?_
      obtain rfl : ((Files.makeDirectories target).run s).2 = made := congrArg Prod.snd hrun
      have hmadeSound := hmade.sound hs
      refine Action.evolves_forM fun name hname next hnext => ?_
      have hisName := isName_of_mem_namesIn hmadeSound hname
      have haddress : next.address (Path.join target name) = s.address target ++ [name] := by
        rw [next.address_join_name htarget hisName, hnext.address_eq, hmade.address_eq]
      have hnextSound := hnext.sound hmadeSound
      refine (ih hnextSound (Path.join_ne_empty htarget name)).mono fun loc hloc => ?_
      rw [haddress] at hloc
      exact (List.prefix_append _ _).trans hloc
    · refine Action.evolves_change fun s' hcopy => (evolves_copyFile hcopy).mono fun loc hloc => ?_
      exact hloc ▸ List.prefix_rfl

theorem isName_stylesName : IsName stylesName := by decide

theorem evolves_copyTree (source : String) (hs : s.Sound) (houtput : output ≠ "") :
    Evolves (s.address output ++ [stylesName] <+: ·) s
      ((copyTree source (Path.join output stylesName)).run s).2 := by
  rw [copyTree, Action.run_bind, Action.run_get]
  dsimp only
  split
  · have hstyles := Path.join_ne_empty houtput stylesName
    have haddress : s.address (Path.join (Path.join output stylesName) "") =
        s.address output ++ [stylesName] := by
      rw [s.address_join hstyles (by decide), move_empty,
        s.address_join_name houtput isName_stylesName]
    rw [← haddress]
    exact evolves_copyEntry _ hs (Path.join_ne_empty hstyles "")
  · exact .refl _ s

/-! Pages. -/

/-- The pages of a sound store are names, each there once, and none of them is the one of the
style sheets. -/
theorem pages_names (hs : s.Sound) (h : pages root s = .ok names) :
    names.Nodup ∧ ∀ name ∈ names, IsName name ∧ name ≠ stylesName := by
  unfold pages at h
  split at h
  · exact nomatch h
  · obtain rfl := Except.ok.inj h
    exact ⟨.nil, fun _ h => absurd h List.not_mem_nil⟩
  · next entries hfind =>
    obtain rfl := Except.ok.inj h
    cases hs.of_find? hfind with
    | directory sorted hnames _ =>
      have hsub : ((entries.filter fun e => isPage e.1 e.2).map (·.1)).Sublist
          (Table.keys entries) := List.filter_sublist.map _
      refine ⟨sorted.nodup.sublist hsub, fun name hname => ⟨hnames name (hsub.subset hname), ?_⟩⟩
      obtain ⟨e, he, rfl⟩ := List.mem_map.1 hname
      have hending := (Bool.and_eq_true_iff.1 (List.mem_filter.1 he).2).2
      rintro hstyles
      rw [hstyles] at hending
      exact absurd hending (by decide)

end Stencil.Site
