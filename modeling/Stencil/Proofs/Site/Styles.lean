import Stencil.Proofs.Site.Stages

/-! The style sheets of a build. Unless the place that they are copied to is the one that they are
at, or lies above it, each is there afterwards with its bytes, and so is its copy. Where the two are
one place, a file is emptied before it is read. If there is no directory of style sheets, a build
makes nothing but its pages and the output directory. -/

namespace Stencil.Site

open Files

variable {s s' start finish : Store} {o : Options} {root name : String} {data : Value}
  {report : Report} {names : List String} {built : List (String × String)} {rest : Location}
  {entries : Table Entry} {bytes : ByteArray} {stamp : Stamp}

theorem root_ne_empty (h : pages root s = .ok names) : root ≠ "" := by
  rintro rfl
  exact nomatch h

/-- Where the style sheets of a site are, and where those of a build. -/
def Options.styles (o : Options) : String := Path.join o.root stylesName

def Options.builtStyles (o : Options) : String := Path.join o.outputPath stylesName

namespace Stages

variable (h : Stages o s start finish s' data names report)
include h

theorem copied_styles : (copyTree o.styles o.builtStyles).run finish = (.ok (), s') := h.copied

/-- The style sheets are found by their path: it is not longer than that of the index. -/
theorem isDirectory_styles (hstyles : start.top.get? (start.address o.styles) =
    some (.directory entries)) : start.isDirectory o.styles := by
  have hroot := root_ne_empty h.listed
  have hlisted := h.listed
  rw [Options.styles, start.address_join_name hroot isName_stylesName, Entry.get?_append] at hstyles
  unfold pages at hlisted
  split at hlisted
  · cases hlisted
  · next hfind =>
    rw [Store.get?_address hfind] at hstyles
    cases hstyles
  · next found hfind =>
    rw [Store.get?_address hfind] at hstyles
    have hget : Table.get? found stylesName = some (.directory entries) := by
      simpa [Entry.get?] using hstyles
    have hindex := h.index
    unfold Store.isFile at hindex
    split at hindex
    · next bytes stamp hfile =>
      obtain ⟨hnul, hsize⟩ := fits_join hroot isName_stylesName.whole (by decide) (by decide)
        (by decide) (Store.find?_eq_file hfile).2
      exact Store.isDirectory_of_find? (Store.find?_of_directory
        (Store.locate_join hfind isName_stylesName hnul hsize (by decide) hget))
    · cases hindex

theorem copies_styles (hbuilds : Builds o.root o.outputPath data start names built finish)
    (hstyles : start.top.get? (start.address o.styles) = some (.directory entries)) :
    (copyEntry maxPathBytes o.styles (Path.join o.builtStyles "")).run finish = (.ok (), s') := by
  have hcopy := copyTree_eq_ok h.copied_styles
  rwa [if_pos (hbuilds.evolves.isDirectory (h.isDirectory_styles hstyles))] at hcopy

theorem address_finish (hbuilds : Builds o.root o.outputPath data start names built finish)
    (path : String) : finish.address path = s.address path := by
  rw [hbuilds.evolves.address_eq, h.evolves_start.address_eq]

theorem address_builtStyles : s.address o.builtStyles = s.address o.outputPath ++ [stylesName] :=
  s.address_join_name h.output_ne_empty isName_stylesName

theorem styles_ne_empty : o.styles ≠ "" := Path.join_ne_empty (root_ne_empty h.listed) _

theorem builtStyles_ne_empty : o.builtStyles ≠ "" := Path.join_ne_empty h.output_ne_empty _

theorem address_target (hbuilds : Builds o.root o.outputPath data start names built finish) :
    finish.address (Path.join o.builtStyles "") = s.address o.builtStyles := by
  rw [finish.address_join h.builtStyles_ne_empty (by decide), move_empty, h.address_finish hbuilds]

/-- A build whose style sheets go into the directory of style sheets does not end well. -/
theorem styles_apart (hs : s.Sound)
    (hbuilds : Builds o.root o.outputPath data start names built finish)
    (hstyles : start.top.get? (start.address o.styles) = some (.directory entries))
    (habove : ¬ s.address o.builtStyles <+: s.address o.styles) :
    Apart (s.address o.styles) (s.address o.builtStyles) := by
  refine ⟨?_, habove⟩
  rintro ⟨rest, hrest⟩
  have hfinish := h.address_finish hbuilds
  obtain ⟨inner, hinner⟩ := hbuilds.evolves.directories _ _ hstyles
  rw [h.evolves_start.address_eq, ← hfinish] at hinner
  have hbelow : finish.address (Path.join o.builtStyles "") = finish.address o.styles ++ rest := by
    rw [h.address_target hbuilds, hfinish, hrest]
  have hne : rest ≠ [] := by
    rintro rfl
    rw [← hrest, List.append_nil] at habove
    exact habove List.prefix_rfl
  exact copyEntry_into_itself (hbuilds.evolves.sound (h.evolves_start.sound hs)) h.styles_ne_empty
    (Path.join_ne_empty h.builtStyles_ne_empty "") hbelow hne hinner
    (h.copies_styles hbuilds hstyles)

/-- A page is written into the output directory, so it is no style sheet if that lies elsewhere. -/
theorem sheet_finished (hs : s.Sound)
    (hbuilds : Builds o.root o.outputPath data start names built finish)
    (houtput : ¬ s.address o.styles <+: s.address o.outputPath)
    (hfile : s.top.get? (s.address o.styles ++ name :: rest) = some (.file bytes stamp)) :
    finish.top.get? (s.address o.styles ++ name :: rest) = some (.file bytes stamp) := by
  refine (hbuilds.evolves.files _ bytes stamp ?_).2
    ((h.evolves_start.files _ bytes stamp id).2 hfile)
  rintro ⟨b, hb, haddress⟩
  have hname := ((h.are_names hs).2 b.1 (hbuilds.mem_names hb)).1
  rw [start.address_join_name h.output_ne_empty hname, h.evolves_start.address_eq] at haddress
  have hprefix : s.address o.styles <+: s.address o.outputPath ++ [b.1] :=
    haddress ▸ List.prefix_append _ _
  refine houtput ((List.prefix_concat_iff.1 hprefix).resolve_left fun heq => ?_)
  simp [heq] at haddress

theorem styles_started (hfile : s.top.get? (s.address o.styles ++ name :: rest) =
    some (.file bytes stamp)) :
    ∃ entries, start.top.get? (start.address o.styles) = some (.directory entries) := by
  obtain ⟨inner, hinner⟩ := Entry.directory_above hfile
  rw [h.evolves_start.address_eq]
  exact h.evolves_start.directories _ _ hinner

/-- Style sheets are kept and copied to a place apart from them. -/
theorem sheets (hs : s.Sound)
    (hbuilds : Builds o.root o.outputPath data start names built finish)
    (habove : ¬ s.address o.builtStyles <+: s.address o.styles)
    (hfile : s.top.get? (s.address o.styles ++ name :: rest) = some (.file bytes stamp)) :
    s'.top.get? (s.address o.styles ++ name :: rest) = some (.file bytes stamp) ∧
      ∃ stamp', s'.top.get? (s.address o.builtStyles ++ name :: rest) =
        some (.file bytes stamp') := by
  have hfinishSound := hbuilds.evolves.sound (h.evolves_start.sound hs)
  have hfinish := h.address_finish hbuilds
  have htarget := h.address_target hbuilds
  obtain ⟨entries, hstyles⟩ := h.styles_started hfile
  have hapart := h.styles_apart hs hbuilds hstyles habove
  have houtput : ¬ s.address o.styles <+: s.address o.outputPath := by
    intro hbelow
    rw [h.address_builtStyles] at hapart
    exact hapart.notAbove (hbelow.trans (List.prefix_append _ _))
  have hbuilt := h.sheet_finished hs hbuilds houtput hfile
  constructor
  · refine ((h.evolves_copied hfinishSound).files _ bytes stamp fun hprefix => ?_).2 hbuilt
    rw [hfinish, ← h.address_builtStyles] at hprefix
    exact hapart.symm.not_prefix_append _ hprefix
  · rw [← hfinish] at hbuilt hapart
    rw [← htarget] at hapart ⊢
    exact copyEntry_copies hfinishSound h.styles_ne_empty
      (Path.join_ne_empty h.builtStyles_ne_empty "") hapart (h.copies_styles hbuilds hstyles) hbuilt

/-- Style sheets that are copied onto themselves end up empty. -/
theorem sheets_emptied (hs : s.Sound)
    (hbuilds : Builds o.root o.outputPath data start names built finish)
    (hsame : s.address o.builtStyles = s.address o.styles)
    (hfile : s.top.get? (s.address o.styles ++ name :: rest) = some (.file bytes stamp)) :
    ∃ stamp', s'.top.get? (s.address o.styles ++ name :: rest) = some (.file .empty stamp') := by
  have hfinish := h.address_finish hbuilds
  obtain ⟨entries, hstyles⟩ := h.styles_started hfile
  have houtput : ¬ s.address o.styles <+: s.address o.outputPath := by
    rw [← hsame, h.address_builtStyles]
    exact concat_not_prefix_self _ _
  have hbuilt := h.sheet_finished hs hbuilds houtput hfile
  rw [← hsame, ← h.address_target hbuilds]
  rw [← h.address_target hbuilds] at hsame
  rw [← hfinish] at hbuilt hsame
  exact copyEntry_onto_itself (hbuilds.evolves.sound (h.evolves_start.sound hs)) h.styles_ne_empty
    (Path.join_ne_empty h.builtStyles_ne_empty "") hsame.symm (h.copies_styles hbuilds hstyles)
    hbuilt

/-- Making the output directory makes no directory of style sheets. -/
theorem styles_missing (hs : s.Sound)
    (hbuilds : Builds o.root o.outputPath data start names built finish)
    (hnone : ∀ entries, s.top.get? (s.address o.styles) ≠ some (.directory entries))
    (hup : ".." ∉ Path.parts o.outputPath ∨ ¬ s.LeadsThrough o.outputPath (s.address o.styles))
    (entries : Table Entry) :
    start.top.get? (s.address o.styles) ≠ some (.directory entries) := by
  intro hstyles
  have hnot : ¬ s.LeadsThrough o.outputPath (s.address o.styles) := by
    refine hup.elim (fun hdown => Store.not_leadsThrough hdown fun houtput => ?_) id
    -- the output would lie in the directory of style sheets
    have habove : ¬ s.address o.builtStyles <+: s.address o.styles := by
      rw [h.address_builtStyles]
      exact fun habove => concat_not_prefix_self _ _ (habove.trans houtput)
    rw [← h.evolves_start.address_eq] at hstyles
    refine (h.styles_apart hs hbuilds hstyles habove).notAbove ?_
    rw [h.address_builtStyles]
    exact houtput.trans (List.prefix_append _ _)
  have hmade := get?_makeDirectories hnot
  rw [h.made] at hmade
  exact hnone entries (hmade.symm.trans hstyles)

end Stages

/-- Between two stores nothing was made but the files at some paths. -/
structure OnlyFiles (paths : List String) (s s' : Store) : Prop where
  directories (loc : Location) (entries : Table Entry) :
    s'.top.get? loc = some (.directory entries) →
      ∃ entries', s.top.get? loc = some (.directory entries')
  files (loc : Location) (bytes : ByteArray) (stamp : Stamp) :
    (∀ path ∈ paths, loc ≠ s.address path) →
      (s'.top.get? loc = some (.file bytes stamp) ↔ s.top.get? loc = some (.file bytes stamp))

/-- What a build from `s` to `s'` makes of the style sheets: `start` is the store with the output
directory. -/
structure StylesBuilt (o : Options) (s start s' : Store) (report : Report) : Prop where
  sheets : ¬ s.address o.builtStyles <+: s.address o.styles →
    ∀ (name : String) (rest : Location) (bytes : ByteArray) (stamp : Stamp),
      s.top.get? (s.address o.styles ++ name :: rest) = some (.file bytes stamp) →
        s'.top.get? (s.address o.styles ++ name :: rest) = some (.file bytes stamp) ∧
          ∃ stamp', s'.top.get? (s.address o.builtStyles ++ name :: rest) =
            some (.file bytes stamp')
  emptied : s.address o.builtStyles = s.address o.styles →
    ∀ (name : String) (rest : Location) (bytes : ByteArray) (stamp : Stamp),
      s.top.get? (s.address o.styles ++ name :: rest) = some (.file bytes stamp) →
        ∃ stamp', s'.top.get? (s.address o.styles ++ name :: rest) = some (.file .empty stamp')
  missing : (∀ entries, start.top.get? (s.address o.styles) ≠ some (.directory entries)) →
    OnlyFiles report.pages start s'
  /-- Making the output directory makes no directory of style sheets, unless the way there goes down
  and up again by way of it. -/
  missing_before : (∀ entries, s.top.get? (s.address o.styles) ≠ some (.directory entries)) →
    ".." ∉ Path.parts o.outputPath ∨ ¬ s.LeadsThrough o.outputPath (s.address o.styles) →
    ∀ entries, start.top.get? (s.address o.styles) ≠ some (.directory entries)

theorem build_styles (hs : s.Sound) (h : (build o).run s = (.ok report, s')) :
    ∃ start, (Files.makeDirectories o.outputPath).run s = (.ok (), start) ∧
      StylesBuilt o s start s' report := by
  obtain ⟨start, finish, data, names, hstages⟩ := build_stages h
  obtain ⟨built, hbuilds, hpages⟩ := builds_foldlM hstages.built
  refine ⟨start, hstages.made, ⟨fun habove name rest bytes stamp => ?_,
    fun hsame name rest bytes stamp => ?_, fun hnone => ?_, fun hnone hup entries => ?_⟩⟩
  · exact hstages.sheets hs hbuilds habove
  · exact hstages.sheets_emptied hs hbuilds hsame
  · have hmissing : ¬ finish.isDirectory o.styles := by
      intro hfound
      obtain ⟨entries, hfind⟩ := Store.find?_of_isDirectory hfound
      have hget := Store.get?_address hfind
      rw [hstages.address_finish hbuilds] at hget
      obtain ⟨entries', hget'⟩ := hbuilds.directory hget
      exact hnone entries' hget'
    have hcopy := copyTree_eq_ok hstages.copied_styles
    rw [if_neg hmissing] at hcopy
    subst hcopy
    refine ⟨fun loc entries => hbuilds.directory, fun loc bytes stamp hloc => ?_⟩
    refine hbuilds.evolves.files loc bytes stamp ?_
    rintro ⟨b, hb, rfl⟩
    refine hloc _ ?_ rfl
    rw [hpages]
    exact List.mem_map_of_mem hb
  · exact hstages.styles_missing hs hbuilds hnone hup entries

/-- A page and a style sheet. -/
def sheetStore : Store := ⟨.directory [
  ("css", .directory [("a.css", .file "a".toUTF8 (.given 0))]),
  ("index.html", .file "x".toUTF8 (.given 0))], [], 0⟩

theorem sound_sheetStore : sheetStore.Sound := by
  have hcss : (⟨.directory [("a.css", .file "a".toUTF8 (.given 0))], [], 0⟩ : Store).Sound :=
    Store.sound_flat (List.pairwise_singleton (· < ·) "a.css") (by decide)
      (by simp [Entry.isDirectory])
  refine ⟨.directory (List.pairwise_pair.2 (by decide)) (by decide) fun name e he => ?_,
    fun _ h => absurd h List.not_mem_nil⟩
  obtain ⟨-, rfl⟩ | ⟨-, rfl⟩ : name = "css" ∧ e = _ ∨ name = "index.html" ∧ e = _ := by
    simpa using mem_of_lookup he
  · exact hcss.top
  · exact .file

def intoSite : Options := ⟨".", "site", false, none⟩

theorem pages_intoSite : ((build intoSite).run sheetStore).1.toOption.map (·.pages) =
    some ["./site/index.html"] := by decide +kernel

theorem build_styles_sheetStore : ∃ report s', sheetStore.Sound ∧
    (build intoSite).run sheetStore = (.ok report, s') ∧
    ∃ start, (Files.makeDirectories intoSite.outputPath).run sheetStore = (.ok (), start) ∧
      StylesBuilt intoSite sheetStore start s' report := by
  obtain ⟨report, hrun, -⟩ := Action.exists_run_eq_ok pages_intoSite
  exact ⟨report, _, sound_sheetStore, hrun, build_styles sound_sheetStore hrun⟩

/-- The style sheets are copied to the place that they are at. -/
def ontoSheets : Options := ⟨".", ".", true, none⟩

theorem pages_ontoSheets : ((build ontoSheets).run sheetStore).1.toOption.map (·.pages) =
    some ["././index.html"] := by decide +kernel

theorem sizes_ontoSheets : (((build ontoSheets).run sheetStore).2.top.get?
    (sheetStore.address ontoSheets.styles ++ ["a.css"])).map
      (fun e => e.contents.map (·.size)) = some [0] := by decide +kernel

theorem not_build_keeps_sheets : ¬ ∀ (s s' : Store) (o : Options) (report : Report) (name : String)
    (rest : Location) (bytes : ByteArray) (stamp : Stamp), s.Sound →
      (build o).run s = (.ok report, s') →
      s.top.get? (s.address o.styles ++ name :: rest) = some (.file bytes stamp) →
      ∃ stamp', s'.top.get? (s.address o.styles ++ name :: rest) = some (.file bytes stamp') := by
  intro h
  obtain ⟨report, hrun, -⟩ := Action.exists_run_eq_ok pages_ontoSheets
  obtain ⟨stamp', hkept⟩ := h sheetStore _ ontoSheets report "a.css" [] "a".toUTF8 (.given 0)
    sound_sheetStore hrun rfl
  have hsizes := sizes_ontoSheets
  rw [hkept] at hsizes
  have hsize : ["a".toUTF8.size] = [0] := Option.some.inj hsizes
  exact absurd hsize (by decide)

end Stencil.Site
